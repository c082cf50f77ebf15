import ReviewAgent.Integrations.TurnedAway

/-! What operations that GitHub refuses do to the other operations on a client: the run without
them. -/
namespace ReviewAgent

open Effects

/-- The clients over one GitHub, with nobody else at their breakers. -/
abbrev clientsAlone (inst : ℕ → ℕ) : Machine (Guarded GitHubSignature) (GuardWorld GitHubWorld)
    (GuardChoice GitHubChoice) (GuardMove GitHubMove) :=
  soleCallers (gitHub inst) inst

/-- Interleavings of operations. -/
abbrev OperationSched : Type :=
  Machine.Sched (GuardChoice GitHubChoice) (GuardMove GitHubMove) (RealGitHubClient × GitHubOperation)

/-- How GitHub refuses what will not succeed on another try. -/
def refusalClasses : List ExcClass :=
  [.repositoryNotAuthorizedError, .gitHubForbiddenError, .gitHubValidationError,
    .gitHubUnauthorizedError]

/-- GitHub answers a request, and does not create a review. -/
def AnsweredPromptly : Occurrence (Guarded GitHubSignature) → Prop
  | ⟨.dep (.http (.createReview ..) _), .ok response⟩ => 300 ≤ response.statusCode
  | ⟨.dep (.http _ _), .error _⟩ => False
  | _ => True

/-- An operation on the repository that GitHub has refused. -/
structure RefusedOperation (owner repo : String) (request : RealGitHubClient × GitHubOperation)
    (p : Session OperationResult) (h : GitHubHistory) : Prop where
  about : request.2.pullRequest.owner = owner ∧ request.2.pullRequest.repo = repo
  refused : ∃ e : Exc, p = .done (.error e) ∧ e.cls ∈ refusalClasses
  answered : ∀ o ∈ h, AnsweredPromptly o

/-- Time passes as it did, and the lookups that were cached are. -/
def passing (w w' v : GuardWorld GitHubWorld) : GuardWorld GitHubWorld :=
  { v with
    clock := v.clock + (w'.clock - w.clock)
    dep := { v.dep with clients := w'.dep.clients } }

/-- The breaker that an operation asks, as the operations that count would have left it. -/
def toldBreaker (inst : ℕ → ℕ) (w : GuardWorld GitHubWorld) (counts : ℕ → Prop)
    [DecidablePred counts] (m : GitHubMoment) (past : List GitHubMoment) : CircuitBreaker :=
  told inst (inst m.thread) counts (w.breaker (inst m.thread)) past

/-- Whether the breaker lets a call through does not depend on the operations that do not count. -/
def AdmitsAlike (inst : ℕ → ℕ) (w : GuardWorld GitHubWorld) (counts : ℕ → Prop)
    [DecidablePred counts] (m : GitHubMoment) (past : List GitHubMoment) : Prop :=
  m.occurrence.op = .admission → (toldBreaker inst w counts m past).admits m.world.clock =
    (m.world.breaker (inst m.thread)).admits m.world.clock

/-- Whenever an operation that counts asks a breaker, that breaker and one told only of those that
count both let the call through, or both turn it away. -/
def AdmittedAlike (inst : ℕ → ℕ) (w : GuardWorld GitHubWorld) (counts : ℕ → Prop)
    [DecidablePred counts] (past : List GitHubMoment) : Prop :=
  ∀ later m earlier, past = later ++ m :: earlier → counts m.thread →
    AdmitsAlike inst w counts m earlier

/-- Two worlds that an operation cannot tell apart except by what a breaker admits. -/
structure Alike (w v : GuardWorld GitHubWorld) : Prop where
  clock : v.clock = w.clock
  clients : v.dep.clients = w.dep.clients
  wallClock : v.dep.wallClock = w.dep.wallClock
  reviews : v.dep.reviews = w.dep.reviews
  name : ∀ k, (v.breaker k).name = (w.breaker k).name

/-- Two worlds, the second one with breakers that have been told only of the operations that
count. -/
structure ToldLess (inst : ℕ → ℕ) (start : GuardWorld GitHubWorld) (counts : ℕ → Prop)
    [DecidablePred counts] (w v : GuardWorld GitHubWorld) (past : List GitHubMoment) : Prop
    extends Alike w v where
  breaker : ∀ k, v.breaker k = told inst k counts (start.breaker k) past

section

variable {inst : ℕ → ℕ} {i : ℕ} {w w' v start : GuardWorld GitHubWorld} {counts : ℕ → Prop}
  [DecidablePred counts] {past : List GitHubMoment}

/-- GitHub and the caches answer alike. -/
theorem gitHub_perform_alike {w w' v : GitHubWorld} {op : GitHubOp} {c : GitHubChoice}
    {answer : GitHubSignature.Answer op} (hclients : v.clients = w.clients)
    (hwall : v.wallClock = w.wallClock) (hreviews : v.reviews = w.reviews)
    (h : (gitHub inst).perform i w op c = some (w', answer)) :
    ∃ v', (gitHub inst).perform i v op c = some (v', answer) ∧ v'.clients = w'.clients ∧
      v'.wallClock = w'.wallClock ∧ v'.reviews = w'.reviews := by
  obtain ⟨clients, wallClock, reviews, log⟩ := w
  obtain ⟨clients', wallClock', reviews', log'⟩ := v
  obtain rfl := hclients
  obtain rfl := hwall
  obtain rfl := hreviews
  cases op <;> cases c <;> simp only [gitHub] at h ⊢ <;> try cases h
  all_goals first
    | exact ⟨_, rfl, rfl, rfl, rfl⟩
    | (split at h <;> cases h
       rename_i hok
       exact ⟨_, if_pos hok, rfl, rfl, rfl⟩)

/-- What a breaker does not decide, is answered alike. -/
theorem Alike.perform (h : Alike w v) {op : GuardOp GitHubSignature} {c : GuardChoice GitHubChoice}
    {answer : (Guarded GitHubSignature).Answer op}
    (hadmits : op = .admission →
      (v.breaker (inst i)).admits w.clock = (w.breaker (inst i)).admits w.clock)
    (hp : guardPerform (gitHub inst) inst i w op c = some (w', answer)) :
    ∃ v', guardPerform (gitHub inst) inst i v op c = some (v', answer) ∧ Alike w' v' := by
  have hperforms : ∃ v', guardPerform (gitHub inst) inst i v op c = some (v', answer) ∧
      v'.clock = w'.clock ∧ v'.dep.clients = w'.dep.clients ∧
      v'.dep.wallClock = w'.dep.wallClock ∧ v'.dep.reviews = w'.dep.reviews := by
    cases op with
    | admission =>
      cases c <;> simp only [guardPerform] at hp ⊢ <;> cases hp
      refine ⟨_, congrArg some (congrArg _ ?_), ?_⟩
      · rw [admission_answer, admission_answer, h.clock, h.name, hadmits rfl]
      · simp [h.clock, h.clients, h.wallClock, h.reviews]
    | recordFailure =>
      cases c <;> simp only [guardPerform] at hp ⊢ <;> cases hp
      exact ⟨_, rfl, h.clock, h.clients, h.wallClock, h.reviews⟩
    | recordSuccess =>
      cases c <;> simp only [guardPerform] at hp ⊢ <;> cases hp
      exact ⟨_, rfl, h.clock, h.clients, h.wallClock, h.reviews⟩
    | sleep seconds =>
      cases c <;> simp only [guardPerform] at hp ⊢ <;> cases hp
      exact ⟨_, rfl, congrArg (· + seconds) h.clock, h.clients, h.wallClock, h.reviews⟩
    | rand =>
      cases c <;> simp only [guardPerform] at hp ⊢ <;> try cases hp
      split at hp <;> cases hp
      rename_i hu
      exact ⟨_, if_pos hu, h.clock, h.clients, h.wallClock, h.reviews⟩
    | dep op =>
      cases c <;> simp only [guardPerform] at hp ⊢ <;> try cases hp
      obtain ⟨⟨d, answer'⟩, hd, heq⟩ := Option.map_eq_some_iff.mp hp
      obtain ⟨rfl, rfl⟩ := Prod.mk.inj heq
      obtain ⟨d', hd', hclients, hwall, hreviews⟩ :=
        gitHub_perform_alike h.clients h.wallClock h.reviews hd
      exact ⟨_, congrArg (Option.map _) hd', h.clock, hclients, hwall, hreviews⟩
  obtain ⟨v', hv', hclock, hclients, hwall, hreviews⟩ := hperforms
  refine ⟨v', hv', hclock, hclients, hwall, hreviews, fun k => ?_⟩
  rw [perform_name hv', perform_name hp, h.name]

theorem ToldLess.act (h : ToldLess inst start counts w v past) {op : GuardOp GitHubSignature}
    {c : GuardChoice GitHubChoice} {answer : (Guarded GitHubSignature).Answer op} (hi : counts i)
    (hp : guardPerform (gitHub inst) inst i w op c = some (w', answer))
    (halike : AdmitsAlike inst start counts ⟨i, w, op, answer⟩ past) :
    ∃ v', guardPerform (gitHub inst) inst i v op c = some (v', answer) ∧
      ToldLess inst start counts w' v' (⟨i, w, op, answer⟩ :: past) := by
  have hadmits : op = .admission →
      (v.breaker (inst i)).admits w.clock = (w.breaker (inst i)).admits w.clock := by
    intro hop
    rw [h.breaker]
    exact halike hop
  obtain ⟨v', hv', hsame⟩ := h.toAlike.perform hadmits hp
  refine ⟨v', hv', hsame, fun k => ?_⟩
  rw [perform_breaker hv', h.breaker, h.clock]
  simp [told, hi]

theorem perform_wallClock {w w' : GitHubWorld} {op : GitHubOp} {c : GitHubChoice}
    {answer : GitHubSignature.Answer op} (h : (gitHub inst).perform i w op c = some (w', answer)) :
    w'.wallClock = w.wallClock := by
  cases op <;> cases c <;> simp only [gitHub] at h <;> try cases h
  all_goals first
    | rfl
    | (split at h <;> cases h; rfl)

/-- An operation that is answered promptly leaves GitHub's reviews and the wall clock. -/
theorem perform_answeredPromptly {w w' : GitHubWorld} {op : GitHubOp} {c : GitHubChoice}
    {answer : GitHubSignature.Answer op} (h : (gitHub inst).perform i w op c = some (w', answer))
    (hprompt : AnsweredPromptly ⟨.dep op, answer⟩) :
    w'.wallClock = w.wallClock ∧ w'.reviews = w.reviews := by
  refine ⟨perform_wallClock h, ?_⟩
  cases op with
  | http request bearer =>
    obtain ⟨sending, rfl, -, -, rfl⟩ := perform_http h
    show (if sending.takesEffect then request.effect w.reviews else w.reviews) = w.reviews
    cases sending with
    | lost applied e => cases request <;> exact hprompt.elim
    | answered response =>
      cases request with
      | createReview pr body =>
        have hstatus : 300 ≤ response.statusCode := hprompt
        exact if_neg (by simpa [Sending.takesEffect] using hstatus)
      | _ => exact ite_self _
  | _ => exact (gitHub_quiet h (by simp)).1

/-- Where an operation that does not count goes on, time passes. -/
theorem ToldLess.aside (h : ToldLess inst start counts w v past) {op : GuardOp GitHubSignature}
    {c : GuardChoice GitHubChoice} {answer : (Guarded GitHubSignature).Answer op} (hi : ¬ counts i)
    (hp : guardPerform (gitHub inst) inst i w op c = some (w', answer))
    (hprompt : AnsweredPromptly ⟨op, answer⟩) :
    ToldLess inst start counts w' (passing w w' v) (⟨i, w, op, answer⟩ :: past) := by
  have hkept : w'.dep.wallClock = w.dep.wallClock ∧ w'.dep.reviews = w.dep.reviews := by
    by_cases hop : ∃ o, op = .dep o
    · obtain ⟨o, rfl⟩ := hop
      obtain ⟨c', d, rfl, hd, rfl⟩ := perform_dep hp
      exact perform_answeredPromptly hd hprompt
    · have hdep := guardPerform_dep hp fun o ho => hop ⟨o, ho⟩
      exact ⟨congrArg _ hdep, congrArg _ hdep⟩
  refine ⟨⟨?_, rfl, ?_, ?_, fun k => ?_⟩, fun k => ?_⟩
  · simp [passing, h.clock]
  · exact h.wallClock.trans hkept.1.symm
  · exact h.reviews.trans hkept.2.symm
  · exact (h.name k).trans (perform_name hp).symm
  · simp [passing, told, hi, h.breaker]

theorem ToldLess.move (h : ToldLess inst start counts w v past) {m : GuardMove GitHubMove}
    (hm : (clientsAlone inst).move w m = some w') :
    ∃ v', (clientsAlone inst).move v m = some v' ∧
      ToldLess inst start counts w' v' past := by
  cases m with
  | tick seconds =>
    simp only [soleCallers, guardMove] at hm ⊢
    split at hm <;> cases hm
    rename_i hpos
    refine ⟨_, if_pos hpos, ⟨?_, h.clients, h.wallClock, h.reviews, h.name⟩, h.breaker⟩
    exact congrArg (· + seconds) h.clock
  | dep m =>
    cases m with
    | clock now =>
      cases hm
      exact ⟨_, rfl, ⟨h.clock, h.clients, rfl, h.reviews, h.name⟩, h.breaker⟩
  | otherAdmit k => cases hm
  | otherFailure k => cases hm
  | otherSuccess k => cases hm

/-- Where the two breakers do not admit alike, the operation ends on one side only. -/
theorem ToldLess.parts (h : ToldLess inst start counts w v past) {op : GuardOp GitHubSignature}
    {next : (Guarded GitHubSignature).Answer op → Session OperationResult}
    {c : GuardChoice GitHubChoice} {answer : (Guarded GitHubSignature).Answer op}
    (hhinged : Hinged (.step op next))
    (hp : guardPerform (gitHub inst) inst i w op c = some (w', answer))
    (hdiffer : ¬ AdmitsAlike inst start counts ⟨i, w, op, answer⟩ past) :
    ∃ v' answer', guardPerform (gitHub inst) inst i v op c = some (v', answer') ∧
      Machine.Parted (next answer) (next answer') := by
  unfold AdmitsAlike at hdiffer
  obtain ⟨rfl, hadmits⟩ := Classical.not_imp.mp hdiffer
  obtain ⟨rfl, rfl⟩ := perform_admission hp
  cases c with
  | go =>
    have hparted : Machine.Parted (next ((w.breaker (inst i)).admission w.clock).2)
        (next ((v.breaker (inst i)).admission w.clock).2) :=
      hhinged.parts (by rw [h.breaker]; exact hadmits)
    rw [← h.clock] at hparted ⊢
    exact ⟨_, _, rfl, hparted⟩
  | rand u => cases hp
  | dep c => cases hp

end

section

variable {inst : ℕ → ℕ} {w : GuardWorld GitHubWorld} {aside : ℕ → Prop} [DecidablePred aside]
  {owner repo : String} {ss : List OperationSched}
  {c : Machine.Config (Guarded GitHubSignature) Exc OperationResult (GuardWorld GitHubWorld)}

/-- With and without the operations set aside, where GitHub answers these promptly. -/
theorem compares_toldLess : Machine.Compares (clientsAlone inst) aside passing
    (ToldLess inst w fun i => ¬ aside i) (AdmitsAlike inst w fun i => ¬ aside i) AnsweredPromptly
    (Hinged (α := OperationResult)) where
  act _ _ _ _ _ _ _ _ h hi hp halike := h.act hi hp halike
  gap _ _ _ _ _ _ _ _ h hi hp hprompt := h.aside (not_not.mpr hi) hp hprompt
  move _ _ _ _ _ h hm := h.move hm
  parts _ _ _ _ _ _ _ _ _ h _ hhinged hp hdiffer := h.parts hhinged hp hdiffer
  goesOn _ _ answer hhinged := hhinged.2 answer

/-- Where every thread of an interleaving has got to. -/
theorem calls_follow (hrun : (clientsAlone inst).exec calling ⟨w, []⟩ ss = some c) :
    Machine.Following (fun _ _ _ => True)
      (fun _ r h => (∀ o ∈ h, Expected o) → Decided (fun _ => True) r h) (Machine.started ss) c
      ((clientsAlone inst).moments calling ⟨w, []⟩ ss) := by
  have hbody : ∀ request : RealGitHubClient × GitHubOperation,
      (calling request).Follows (fun _ _ => True)
        (fun r h => (∀ o ∈ h, Expected o) → Decided (fun _ => True) r h) [] :=
    fun request => (decides_call request.2 [] (by simp [Smooth])).follows
      (Program.issues_of_forall (fun _ => trivial) _)
  exact (Machine.moments_follow (C := fun _ _ _ => True) (J := fun _ _ => True) hbody
    (fun _ _ _ _ _ _ _ _ _ _ _ _ => trivial) (fun _ _ _ _ _ _ => trivial) hrun trivial).1

/-- The breaker's answer at a moment. -/
theorem admitted_of_mem {m : GitHubMoment} {answer : Except Exc Unit}
    (hm : m ∈ (clientsAlone inst).moments calling ⟨w, []⟩ ss)
    (hasked : m.occurrence = ⟨.admission, answer⟩) :
    answer = ((m.world.breaker (inst m.thread)).admission m.world.clock).2 := by
  obtain ⟨choice, w', hperform⟩ := Machine.performed_of_mem_moments hm
  obtain ⟨thread, world, occurrence⟩ := m
  obtain rfl : occurrence = ⟨.admission, answer⟩ := hasked
  exact (perform_admission hperform).2

/-- A call is turned away exactly where the breaker does not admit it. -/
theorem turnedAway_iff {m : GitHubMoment}
    (hm : m ∈ (clientsAlone inst).moments calling ⟨w, []⟩ ss) :
    TurnedAway m.occurrence ↔ m.occurrence.op = .admission ∧
      (m.world.breaker (inst m.thread)).admits m.world.clock = false := by
  obtain ⟨thread, world, op, answer⟩ := m
  cases op with
  | admission =>
    rw [admitted_of_mem hm rfl, admission_answer]
    cases (world.breaker (inst thread)).admits world.clock with
    | true => simp [TurnedAway]
    | false => simp [TurnedAway]
  | _ => simp [TurnedAway]

/-- An operation for which GitHub is in good order ends in `GitHubUnavailableError` exactly if one of
its calls is turned away. -/
theorem unavailable_iff_turnedAway {i : ℕ} {r : Except Exc OperationResult}
    (hrun : (clientsAlone inst).exec calling ⟨w, []⟩ ss = some c)
    (hdone : c.threads[i]? = some (.done r))
    (hgood : ∀ o ∈ Machine.own i ((clientsAlone inst).moments calling ⟨w, []⟩ ss),
      InGoodOrder o) :
    Unavailable r ↔ ∃ m ∈ (clientsAlone inst).moments calling ⟨w, []⟩ ss,
      m.thread = i ∧ TurnedAway m.occurrence := by
  obtain ⟨label, -, hfollows⟩ := (calls_follow hrun).follows i _ hdone
  set past := (clientsAlone inst).moments calling ⟨w, []⟩ ss
  have hexpected : ∀ o ∈ Machine.own i past, Expected o := by
    intro o ho
    refine ⟨hgood o ho, fun e he => ?_⟩
    obtain ⟨m, hm, -, rfl⟩ := Machine.exists_of_mem_own ho
    exact CircuitBreaker.admission_error (admitted_of_mem hm he).symm
  have hrough : ¬ Smooth (Machine.own i past) ↔ ∃ m ∈ past, m.thread = i ∧
      TurnedAway m.occurrence := by
    constructor
    · intro hnot
      obtain ⟨o, ho, hturned⟩ : ∃ o ∈ Machine.own i past, TurnedAway o := by
        simpa [Smooth] using hnot
      obtain ⟨m, hm, hthread, rfl⟩ := Machine.exists_of_mem_own ho
      exact ⟨m, hm, hthread, hturned⟩
    · rintro ⟨m, hm, rfl, hturned⟩ hsmooth
      exact hsmooth _ (Machine.mem_own hm) hturned
  rw [← hrough]
  have hdecided := hfollows hexpected
  cases r with
  | ok result => simp [Unavailable, hdecided.1]
  | error e =>
    have hiff : e.isInstance .gitHubUnavailableError = true ↔ ¬ Smooth (Machine.own i past) :=
      hdecided
    simp only [Unavailable, Except.error.injEq, exists_eq_left', hiff]

/-- An interleaving of operations in which GitHub refuses some, all on one repository. The others end
as they end without the refused ones exactly if, whenever one of them asks a breaker, that breaker
and one told only of the others admit the call alike. Then one of them for which GitHub is in good
order ends in `GitHubUnavailableError` only where the breaker told of the others turns it away. -/
theorem refusals_unnoticed_iff
    (hrun : (clientsAlone inst).exec calling ⟨w, []⟩ ss = some c)
    (hrefused : ∀ i request p, aside i → (Machine.started ss)[i]? = some request →
      c.threads[i]? = some p → RefusedOperation owner repo request p
        (Machine.own i ((clientsAlone inst).moments calling ⟨w, []⟩ ss))) :
    ((∃ d, (clientsAlone inst).without calling aside passing ⟨w, []⟩ ⟨w, []⟩ ss = some d ∧
        Machine.Unmoved aside c d) ↔
      AdmittedAlike inst w (fun i => ¬ aside i) ((clientsAlone inst).moments calling ⟨w, []⟩ ss)) ∧
    (AdmittedAlike inst w (fun i => ¬ aside i) ((clientsAlone inst).moments calling ⟨w, []⟩ ss) →
      ∀ i r, ¬ aside i → c.threads[i]? = some (.done r) →
        (∀ o ∈ Machine.own i ((clientsAlone inst).moments calling ⟨w, []⟩ ss), InGoodOrder o) →
        (Unavailable r ↔ ∃ later m earlier,
          (clientsAlone inst).moments calling ⟨w, []⟩ ss = later ++ m :: earlier ∧
          m.thread = i ∧ m.occurrence.op = .admission ∧
          (toldBreaker inst w (fun i => ¬ aside i) m earlier).admits m.world.clock = false)) := by
  have hfollowing := calls_follow hrun
  set past := (clientsAlone inst).moments calling ⟨w, []⟩ ss with hpast
  have hprompt : ∀ m ∈ past, aside m.thread → AnsweredPromptly m.occurrence := by
    intro m hm haside
    have hthread : m.thread < c.threads.length := by
      by_contra hge
      have hmem := Machine.mem_own hm
      rw [hfollowing.fresh m.thread (not_lt.mp hge)] at hmem
      cases hmem
    obtain ⟨request, hrequest, -⟩ := hfollowing.follows _ _ (List.getElem?_eq_getElem hthread)
    exact (hrefused _ _ _ haside hrequest (List.getElem?_eq_getElem hthread)).answered _
      (Machine.mem_own hm)
  have hstart : Machine.Alongside aside (ToldLess inst w fun i => ¬ aside i) Hinged
      (⟨w, []⟩ : Machine.Config (Guarded GitHubSignature) Exc OperationResult _) ⟨w, []⟩ [] :=
    ⟨rfl, fun _ _ => rfl, ⟨⟨rfl, rfl, rfl, rfl, fun _ => rfl⟩, fun _ => rfl⟩, by simp⟩
  refine ⟨?_, fun hall i r hi hdone hgood => ?_⟩
  · have hbody : ∀ request : RealGitHubClient × GitHubOperation, Hinged (calling request) :=
      fun request => hinged_call request.2
    have hiff := hstart.without_iff compares_toldLess hbody trivial hprompt hrun
    rwa [List.append_nil, Machine.atEvery_iff] at hiff
  · rw [unavailable_iff_turnedAway hrun hdone hgood]
    constructor
    · rintro ⟨m, hm, rfl, hturned⟩
      obtain ⟨hop, hadmits⟩ := (turnedAway_iff hm).mp hturned
      obtain ⟨later, earlier, hsplit⟩ := List.append_of_mem hm
      have halike := hall later m earlier hsplit hi hop
      exact ⟨later, m, earlier, hsplit, rfl, hop, halike.trans hadmits⟩
    · rintro ⟨later, m, earlier, hsplit, rfl, hop, hadmits⟩
      have halike := hall later m earlier hsplit hi hop
      have hm : m ∈ past := by simp [hsplit]
      exact ⟨m, hm, rfl, (turnedAway_iff hm).mpr ⟨hop, halike.symm.trans hadmits⟩⟩

end

instance {op : GuardOp GitHubSignature} : Decidable (op = .admission) :=
  match op with
  | .admission => isTrue rfl
  | .recordFailure | .recordSuccess | .sleep _ | .rand | .dep _ => isFalse nofun

instance : DecidablePred InGoodOrder
  | ⟨.dep (.http _ _), .ok response⟩ =>
    inferInstanceAs (Decidable (response.statusCode < 300 ∧ response.json.isOk = true))
  | ⟨.dep (.http _ _), .error _⟩ => isFalse fun h => h
  | ⟨.dep (.sign _), _⟩ => inferInstanceAs (Decidable (Except.isOk _ = true))
  | ⟨.dep .now, _⟩ | ⟨.dep (.resolved ..), _⟩ | ⟨.dep (.storeResolved ..), _⟩
  | ⟨.dep (.cachedToken _), _⟩ | ⟨.dep (.storeToken ..), _⟩ | ⟨.dep (.cachedDiff _), _⟩
  | ⟨.dep (.storeDiff ..), _⟩ | ⟨.dep .rounds, _⟩ | ⟨.dep .loops, _⟩ | ⟨.admission, _⟩
  | ⟨.recordFailure, _⟩ | ⟨.recordSuccess, _⟩ | ⟨.sleep _, _⟩ | ⟨.rand, _⟩ => isTrue trivial

instance : DecidablePred AnsweredPromptly
  | ⟨.dep (.http (.createReview ..) _), .ok response⟩ =>
    inferInstanceAs (Decidable (300 ≤ response.statusCode))
  | ⟨.dep (.http (.installation ..) _), .ok _⟩ | ⟨.dep (.http (.accessToken _) _), .ok _⟩
  | ⟨.dep (.http (.pull _) _), .ok _⟩ | ⟨.dep (.http (.diff _) _), .ok _⟩
  | ⟨.dep (.http (.files ..) _), .ok _⟩ | ⟨.dep (.http (.reviews ..) _), .ok _⟩ => isTrue trivial
  | ⟨.dep (.http request _), .error _⟩ => isFalse fun h => by cases request <;> exact h
  | ⟨.dep (.sign _), _⟩ | ⟨.dep .now, _⟩ | ⟨.dep (.resolved ..), _⟩ | ⟨.dep (.storeResolved ..), _⟩
  | ⟨.dep (.cachedToken _), _⟩ | ⟨.dep (.storeToken ..), _⟩ | ⟨.dep (.cachedDiff _), _⟩
  | ⟨.dep (.storeDiff ..), _⟩ | ⟨.dep .rounds, _⟩ | ⟨.dep .loops, _⟩ | ⟨.admission, _⟩
  | ⟨.recordFailure, _⟩ | ⟨.recordSuccess, _⟩ | ⟨.sleep _, _⟩ | ⟨.rand, _⟩ => isTrue trivial

instance {inst : ℕ → ℕ} {w : GuardWorld GitHubWorld} {counts : ℕ → Prop} [DecidablePred counts]
    {m : GitHubMoment} {past : List GitHubMoment} : Decidable (AdmitsAlike inst w counts m past) :=
  inferInstanceAs (Decidable (_ → _))

/-- A repository on which the app is not installed. -/
def lockedPullRequest : PullRequest := ⟨"octo", "locked", 1⟩

/-- The schedule of an operation that GitHub refuses at once. -/
def lookupRefused : List SessionEvent :=
  mintsJwt ++ [.act .go, .act (.dep .go),
    .act (.dep (.answers fun request => { request.healthyAnswer with statusCode := 404 })),
    .act .go]

/-- `n` operations on that repository, one after the other. -/
def refusals (n : ℕ) : List OperationSched :=
  (List.range n).flatMap fun j =>
    .start (RealGitHubClient.default "1", .getPrMetadata lockedPullRequest) ::
      lookupRefused.map (Machine.Event.on j)

/-- An operation on another repository, as thread `n`. -/
def thenOperation (n : ℕ) (es : List SessionEvent) : List OperationSched :=
  .start (RealGitHubClient.default "1", .getPrMetadata .sample) :: es.map (Machine.Event.on n)

/-- The schedule of an operation that finds nothing cached, and is answered. -/
def answeredOperation : List SessionEvent :=
  mintsJwt ++ lookupAnswered ++ exchangeAnswered ++ requestAnswered

/-- The first `n` threads. -/
def AmongFirst (n i : ℕ) : Prop := i < n

instance {n : ℕ} : DecidablePred (AmongFirst n) := fun i => inferInstanceAs (Decidable (i < n))

/-- How an operation has ended: with which class of exception, if with one. -/
def endingOf : Session OperationResult → Option (Option ExcClass)
  | .done (.ok _) => some none
  | .done (.error e) => some (some e.cls)
  | .step .. => none

/-- How the operations have ended. -/
def endings
    (c : Machine.Config (Guarded GitHubSignature) Exc OperationResult (GuardWorld GitHubWorld)) :
    List (Option (Option ExcClass)) :=
  c.threads.map endingOf

theorem exists_of_endings {l : List (Option (Option ExcClass))}
    {c : Machine.Config (Guarded GitHubSignature) Exc OperationResult (GuardWorld GitHubWorld)}
    (h : endings c = l) {i : ℕ} {p : Session OperationResult} {cls : ExcClass}
    (hp : c.threads[i]? = some p) (hi : l[i]? = some (some (some cls))) :
    ∃ e : Exc, p = .done (.error e) ∧ e.cls = cls := by
  rw [← h, endings, List.getElem?_map, hp, Option.map_some] at hi
  have hending : endingOf p = some (some cls) := Option.some.inj hi
  unfold endingOf at hending
  split at hending
  · cases hending
  · rename_i e
    exact ⟨e, rfl, Option.some.inj (Option.some.inj hending)⟩
  · cases hending

/-- Five refusals of one repository, and the next operation on another one fails, which without them
succeeds. -/
theorem refusals_block_another_repository :
    (∃ c, (clientsAlone fun _ => 0).exec calling ⟨coldWorld, []⟩
        (refusals 5 ++ thenOperation 5 (mintsJwt ++ [.act .go])) = some c ∧
      endings c = List.replicate 5 (some (some .repositoryNotAuthorizedError)) ++
        [some (some .gitHubUnavailableError)]) ∧
    ∃ c, (clientsAlone fun _ => 0).exec calling ⟨coldWorld, []⟩
        (thenOperation 0 answeredOperation) = some c ∧
      endings c = [some none] := by
  have hblocked : ((clientsAlone fun _ => 0).exec calling ⟨coldWorld, []⟩
      (refusals 5 ++ thenOperation 5 (mintsJwt ++ [.act .go]))).any (fun c => decide (endings c =
        List.replicate 5 (some (some .repositoryNotAuthorizedError)) ++
          [some (some .gitHubUnavailableError)])) = true := by
    decide +kernel
  have halone : ((clientsAlone fun _ => 0).exec calling ⟨coldWorld, []⟩
      (thenOperation 0 answeredOperation)).any (fun c => decide (endings c = [some none])) =
        true := by
    decide +kernel
  obtain ⟨c, hrun, hends⟩ := (Option.any_eq_true _ _).mp hblocked
  obtain ⟨c', hrun', hends'⟩ := (Option.any_eq_true _ _).mp halone
  exact ⟨⟨c, hrun, of_decide_eq_true hends⟩, c', hrun', of_decide_eq_true hends'⟩

/-- Four refusals, and an operation on the other repository. -/
def fourRefusals : List OperationSched := refusals 4 ++ thenOperation 4 answeredOperation

/-- Four refusals go unnoticed by the operation that follows, and it succeeds. -/
theorem refusals_unnoticed_four :
    ∃ c d, (clientsAlone fun _ => 0).exec calling ⟨coldWorld, []⟩ fourRefusals = some c ∧
      (clientsAlone fun _ => 0).without calling (AmongFirst 4) passing ⟨coldWorld, []⟩
        ⟨coldWorld, []⟩ fourRefusals = some d ∧
      Machine.Unmoved (AmongFirst 4) c d ∧
      ∃ r, d.threads[4]? = some (.done r) ∧ ¬ Unavailable r := by
  have hreach : ((clientsAlone fun _ => 0).exec calling ⟨coldWorld, []⟩ fourRefusals).any
      (fun c => decide (endings c = List.replicate 4 (some (some .repositoryNotAuthorizedError)) ++
        [some none]) && c.ended 4) = true := by
    decide +kernel
  have halike : AdmittedAlike (fun _ => 0) coldWorld (fun i => ¬ AmongFirst 4 i)
      ((clientsAlone fun _ => 0).moments calling ⟨coldWorld, []⟩ fourRefusals) :=
    Machine.atEvery_iff.mp (by decide +kernel)
  have hadmits : ∀ later m earlier,
      (clientsAlone fun _ => 0).moments calling ⟨coldWorld, []⟩ fourRefusals =
        later ++ m :: earlier →
      (toldBreaker (fun _ => 0) coldWorld (fun i => ¬ AmongFirst 4 i) m earlier).admits
        m.world.clock = true :=
    Machine.atEvery_iff.mp (by decide +kernel)
  have hmoments : ∀ m ∈ (clientsAlone fun _ => 0).moments calling ⟨coldWorld, []⟩ fourRefusals,
      AnsweredPromptly m.occurrence ∧ (m.thread = 4 → InGoodOrder m.occurrence) := by
    decide +kernel
  have habout : ∀ i < 4, (Machine.started fourRefusals)[i]?.all
      (fun request => decide (request.2.pullRequest.owner = "octo" ∧
        request.2.pullRequest.repo = "locked")) = true := by
    decide +kernel
  obtain ⟨c, hrun, hc⟩ := (Option.any_eq_true _ _).mp hreach
  obtain ⟨hends, hended⟩ := Bool.and_eq_true_iff.mp hc
  obtain ⟨r, hdone⟩ := Machine.exists_of_ended hended
  have hrefused : ∀ i request p, AmongFirst 4 i →
      (Machine.started fourRefusals)[i]? = some request → c.threads[i]? = some p →
      RefusedOperation "octo" "locked" request p (Machine.own i
        ((clientsAlone fun _ => 0).moments calling ⟨coldWorld, []⟩ fourRefusals)) := by
    intro i request p hi hrequest hp
    refine ⟨?_, ?_, fun o ho => ?_⟩
    · have hrepository := habout i hi
      rw [hrequest] at hrepository
      exact of_decide_eq_true hrepository
    · have hending : (List.replicate 4 (some (some ExcClass.repositoryNotAuthorizedError)) ++
          [some none])[i]? = some (some (some .repositoryNotAuthorizedError)) := by
        have hlt : i < 4 := hi
        rw [List.getElem?_append_left (by simpa using hlt), List.getElem?_replicate_of_lt hlt]
      obtain ⟨e, he, hcls⟩ := exists_of_endings (of_decide_eq_true hends) hp hending
      exact ⟨e, he, by simp [hcls, refusalClasses]⟩
    · obtain ⟨m, hm, -, rfl⟩ := Machine.exists_of_mem_own ho
      exact (hmoments m hm).1
  obtain ⟨hunnoticed, hothers⟩ := refusals_unnoticed_iff hrun hrefused
  obtain ⟨d, hwithout, hunmoved⟩ := hunnoticed.mpr halike
  refine ⟨c, d, hrun, hwithout, hunmoved, r, (hunmoved 4 (by decide)).trans hdone, ?_⟩
  have hiff := hothers halike 4 r (by decide) hdone fun o ho => by
    obtain ⟨m, hm, hthread, rfl⟩ := Machine.exists_of_mem_own ho
    exact (hmoments m hm).2 hthread
  rw [hiff]
  rintro ⟨later, m, earlier, hsplit, -, -, hnot⟩
  have htold := hadmits later m earlier hsplit
  rw [hnot] at htold
  cases htold

end ReviewAgent
