import ReviewAgent.Cli.ReviewLocal
import ReviewAgent.Observability.ProbeRuns

/-! Runs of the local review command: nothing is reviewed before the traces are known to land, if that
is to be verified, and what its exit code says. -/
namespace ReviewAgent

open Effects

variable {S : Signature}

/-- What has been issued and answered, newest first. -/
abbrev LocalHistory (S : Signature) : Type := List (Occurrence (S.sum LocalSignature))

/-- The part of the guard. -/
def langSmithPart : Occurrence (S.sum LocalSignature) → Option (Occurrence LangSmithSignature)
  | ⟨.inr (.langSmith op), answer⟩ => some ⟨op, answer⟩
  | _ => none

/-- The part of the graph. -/
def enginePart : Occurrence (S.sum LocalSignature) → Option (Occurrence EngineSignature)
  | ⟨.inr (.engine op), answer⟩ => some ⟨op, answer⟩
  | _ => none

/-- The part of the GitHub client. -/
def clientPart : Occurrence (S.sum LocalSignature) → Option (Occurrence S)
  | ⟨.inl op, answer⟩ => some ⟨op, answer⟩
  | _ => none

/-- Traces are to be verified. -/
def Verifying (settings : TracingSettings) (args : ReviewLocalArgs) : Prop :=
  args.verifyTracing = true ∧ settings.langsmithTracing = true

/-- Where traces are to be verified, a probe run has landed. -/
def Cleared (settings : TracingSettings) (args : ReviewLocalArgs) (h : LocalHistory S) : Prop :=
  Verifying settings args →
    ∃ earlier, earlier <:+ h.filterMap langSmithPart ∧ ProbeLanded settings earlier

/-- The graph has come to its end with this review. -/
def Produced (review : Review) (h : List (Occurrence EngineSignature)) : Prop :=
  ∃ threadId state, ⟨.save threadId state, ()⟩ ∈ h ∧ state.review = some review

/-- The client has posted or queued this review, and has done nothing else. -/
def Dispatched (client : GitHubClient S) (review : Review) (h : LocalHistory S) : Prop :=
  (client.postOrQueue review).Reaches (h.filterMap clientPart) (.done (.ok ()))

/-- What the command may issue: LangSmith is only asked where traces are to be verified; nothing is
reviewed before a probe run has landed there; all that the client does is to post or queue a review
that the graph has produced; and what is written is the review that was posted or queued. -/
def MayIssue (settings : TracingSettings) (client : GitHubClient S) (args : ReviewLocalArgs)
    (h : LocalHistory S) : (S.sum LocalSignature).Op → Prop
  | .inl op => Cleared settings args h ∧ ∃ review, Produced review (h.filterMap enginePart) ∧
    (client.postOrQueue review).Asks (h.filterMap clientPart) op
  | .inr (.langSmith _) => Verifying settings args
  | .inr (.engine _) => Cleared settings args h
  | .inr (.writeOut path review) =>
    path = args.out ∧ Cleared settings args h ∧ Produced review (h.filterMap enginePart) ∧
      Dispatched client review h
  | _ => True

/-- The review is written out by this operation. -/
def Writing : (S.sum LocalSignature).Op → Prop
  | .inr (.writeOut ..) => True
  | _ => False

/-- What an exit code says: zero, that the review that was posted or queued was written out; one, that
none was written. -/
def Exits (client : GitHubClient S) (args : ReviewLocalArgs) (code : ℕ) (h : LocalHistory S) : Prop :=
  (code = 0 ∧ ∃ review, Produced review (h.filterMap enginePart) ∧ Dispatched client review h ∧
      ⟨.inr (.writeOut args.out review), Except.ok ()⟩ ∈ h) ∨
    (code = 1 ∧ ∀ o ∈ h, ¬ Writing o.op)

variable {py : Interpreter} {settings : TracingSettings} {args : ReviewLocalArgs}
  {client : GitHubClient S} {engine : WorkflowEngine} {h h' : LocalHistory S}
  {he : List (Occurrence EngineSignature)}

theorem Cleared.mono (hcleared : Cleared settings args h) (hgrown : h <:+ h') :
    Cleared settings args h' := by
  intro hverifying
  obtain ⟨earlier, hsuffix, hlanded⟩ := hcleared hverifying
  exact ⟨earlier, hsuffix.trans (hgrown.filterMap _), hlanded⟩

theorem cleared_of_not_verifying (hnot : ¬ Verifying settings args) : Cleared settings args h :=
  fun hverifying => absurd hverifying hnot

theorem Produced.mono {review : Review} {hg : List (Occurrence EngineSignature)}
    (hproduced : Produced review he) (hgrown : he <:+ hg) : Produced review hg := by
  obtain ⟨threadId, state, hsaved, hreview⟩ := hproduced
  exact ⟨threadId, state, hgrown.subset hsaved, hreview⟩

theorem anything_follows {T : Signature} {α : Type} (p : Program T Exc α)
    (h : List (Occurrence T)) : p.Follows (fun _ _ => True) (fun _ h' => h <:+ h') h :=
  (Program.issues_of_forall (fun _ => trivial) p).follows h

/-- A run of the graph that ends has saved a state with a review. -/
theorem run_produces (engine : WorkflowEngine) (threadId : String) (initialState : GraphState)
    (he : List (Occurrence EngineSignature)) :
    (engine.run threadId initialState).Follows (fun _ _ => True)
      (Ends (fun state h' => ∃ review, state.review = some review ∧ Produced review h')
        fun _ => True) he := by
  refine (anything_follows _ _).bind (fun persisted h₁ _ => ?_) fun _ _ _ => trivial
  refine (anything_follows _ _).bind (fun _ h₂ _ => ?_) fun _ _ _ => trivial
  refine (anything_follows _ _).bind (fun ended h₃ _ => ?_) fun _ _ _ => trivial
  refine (anything_follows _ _).bind (fun updates h₄ _ => ?_) fun _ _ _ => trivial
  refine (anything_follows _ _).bind (fun _ h₅ _ => ?_) fun _ _ _ => trivial
  refine (anything_follows _ _).bind (fun made h₆ _ => ?_) fun _ _ _ => trivial
  exact ⟨trivial, fun _ => ⟨made.1, rfl, threadId, _, List.mem_cons_self, rfl⟩⟩

/-- The guard, among the command's other operations. -/
theorem probing_of_follows {α : Type}
    {C : List (Occurrence LangSmithSignature) → LangSmithSignature.Op → Prop}
    {Q : Except Exc α → List (Occurrence LangSmithSignature) → Prop} {p : LangSmithed α}
    (hp : p.Follows C Q (h.filterMap langSmithPart)) :
    (probing p : Local S α).Follows
      (fun h' op => ∃ op', op = Sum.inr (.langSmith op') ∧ C (h'.filterMap langSmithPart) op')
      (fun r h' => Q r (h'.filterMap langSmithPart)) h := by
  have hpart : ∀ (op : LangSmithSignature.Op)
      (answer : (S.sum LocalSignature).Answer (.inr (.langSmith op))),
      langSmithPart (⟨.inr (.langSmith op), answer⟩ : Occurrence (S.sum LocalSignature)) =
        some ⟨op, answer⟩ := fun _ _ => rfl
  exact hp.relabel hpart

/-- The graph, among the command's other operations. -/
theorem running_of_follows {α : Type}
    {C : List (Occurrence EngineSignature) → EngineSignature.Op → Prop}
    {Q : Except Exc α → List (Occurrence EngineSignature) → Prop} {p : Engined α}
    (hp : p.Follows C Q (h.filterMap enginePart)) :
    (running p : Local S α).Follows
      (fun h' op => ∃ op', op = Sum.inr (.engine op') ∧ C (h'.filterMap enginePart) op')
      (fun r h' => Q r (h'.filterMap enginePart)) h := by
  have hpart : ∀ (op : EngineSignature.Op)
      (answer : (S.sum LocalSignature).Answer (.inr (.engine op))),
      enginePart (⟨.inr (.engine op), answer⟩ : Occurrence (S.sum LocalSignature)) =
        some ⟨op, answer⟩ := fun _ _ => rfl
  exact hp.relabel hpart

/-- An operation that neither writes nor posts. -/
def Inward (op : (S.sum LocalSignature).Op) : Prop :=
  ¬ Writing op ∧ ∀ answer, clientPart (⟨op, answer⟩ : Occurrence (S.sum LocalSignature)) = none

theorem inward_langSmith (op : LangSmithOp) : Inward (S := S) (.inr (.langSmith op)) :=
  ⟨id, fun _ => rfl⟩

theorem inward_engine (op : EngineOp) : Inward (S := S) (.inr (.engine op)) := ⟨id, fun _ => rfl⟩

theorem inward_print (line : String) : Inward (S := S) (.inr (.print line)) := ⟨id, fun _ => rfl⟩

/-- What stands before anything is posted: the review is cleared or not, and nothing has been written
out or posted. -/
structure Standing (settings : TracingSettings) (args : ReviewLocalArgs) (h : LocalHistory S) :
    Prop where
  cleared : Cleared settings args h
  inward : ∀ o ∈ h, Inward o.op

/-- An operation that neither writes nor posts leaves it standing. -/
theorem Standing.cons (hstands : Standing settings args h) {o : Occurrence (S.sum LocalSignature)}
    (ho : Inward o.op) : Standing settings args (o :: h) :=
  ⟨hstands.cleared.mono (List.suffix_cons _ _), List.forall_mem_cons.mpr ⟨ho, hstands.inward⟩⟩

theorem Standing.unwritten (hstands : Standing settings args h) : ∀ o ∈ h, ¬ Writing o.op :=
  fun o ho => (hstands.inward o ho).1

theorem Standing.unposted (hstands : Standing settings args h) : h.filterMap clientPart = [] :=
  List.filterMap_eq_nil_iff.mpr fun o ho => (hstands.inward o ho).2 o.answer

/-- A part of the command that writes and posts nothing, and has behind it what stands there, leaves
it standing. -/
theorem Standing.part {α : Type} {C : LocalHistory S → (S.sum LocalSignature).Op → Prop}
    {Q : Except Exc α → LocalHistory S → Prop} {p : Local S α} (hstands : Standing settings args h)
    (hp : p.Follows C Q h) (hissues : p.Issues Inward)
    (hallows : ∀ h' op, C h' op → h <:+ h' → MayIssue settings client args h' op) :
    p.Follows (MayIssue settings client args)
      (fun r h' => Standing settings args h' ∧ Q r h' ∧ h <:+ h') h := by
  refine ((hp.since.and (hissues.holds hstands.inward)).imp fun h' op hop =>
    hallows h' op hop.1.1 hop.1.2).mono fun r h' hr => ?_
  exact ⟨⟨hstands.cleared.mono hr.1.2, hr.2⟩, hr.1⟩

theorem probing_issues {α : Type} (p : LangSmithed α) : (probing (S := S) p).Issues Inward :=
  Program.issues_relabel (Program.issues_of_forall inward_langSmith p)

/-- The guard, where traces are to be verified. -/
theorem probing_assert_follows (hverifying : Verifying settings args)
    (hpart : h.filterMap langSmithPart = []) (hinward : ∀ o ∈ h, Inward o.op) :
    (probing (S := S) (assertTracingHealthy py settings)).Follows (MayIssue settings client args)
      (fun r h' => (∀ o ∈ h', Inward o.op) ∧ (r = .ok () → Cleared settings args h')) h := by
  have hguard := enabledGuard_follows py hverifying.2
  rw [← hpart] at hguard
  have hprobing := (probing_of_follows hguard).and ((probing_issues _).holds hinward)
  refine (hprobing.imp fun h' op hop => ?_).mono fun r h' hr => ⟨hr.2, fun hok _ => ?_⟩
  · obtain ⟨⟨op', rfl, -⟩, -⟩ := hop
    exact hverifying
  · subst hok
    rcases hr.1 with ⟨hoff, -⟩ | hlanded
    · exact absurd hverifying.2 (by rw [hoff]; decide)
    · exact ⟨_, List.suffix_rfl, hlanded⟩

/-- Any program of LangSmith's client leaves it standing. -/
theorem probing_follows {α : Type} (hverifying : Verifying settings args)
    (hstands : Standing settings args h) (p : LangSmithed α) :
    (probing (S := S) p).Follows (MayIssue settings client args)
      (fun _ h' => Standing settings args h') h := by
  have hprobing := probing_of_follows (S := S) (anything_follows p (h.filterMap langSmithPart))
  refine (hstands.part hprobing (probing_issues p) fun h' op hop _ => ?_).mono
    fun r h' hr => hr.1
  obtain ⟨op', rfl, -⟩ := hop
  exact hverifying

/-- Where the check of the traces returns, the review is cleared. -/
theorem verifyTracing_follows :
    (verifyTracingBeforeReview (S := S) py settings args).Follows (MayIssue settings client args)
      (fun r h' => (∀ o ∈ h', Inward o.op) ∧ (r = .ok () → Cleared settings args h')) [] := by
  have hone : ∀ line said, ∀ o ∈ ([⟨.inr (.print line), said⟩] : LocalHistory S), Inward o.op := by
    intro line said o ho
    rw [List.mem_singleton.mp ho]
    exact inward_print line
  unfold verifyTracingBeforeReview
  by_cases hflag : args.verifyTracing = true
  · rw [if_pos hflag]
    by_cases htracing : settings.langsmithTracing = true
    · rw [if_pos htracing]
      have hverifying : Verifying settings args := ⟨hflag, htracing⟩
      refine ⟨trivial, fun said => ?_⟩
      refine (probing_assert_follows hverifying rfl (hone _ said)).bind (fun _ h₁ hprobed => ?_)
        fun e h₁ hfailed => ⟨hfailed.1, fun hok => by cases hok⟩
      have hstands : Standing settings args h₁ := ⟨hprobed.2 rfl, hprobed.1⟩
      refine ⟨trivial, fun said' => ?_⟩
      refine (probing_follows hverifying (hstands.cons (inward_print _)) _).bind
        (fun url h₂ hstands' => ?_) fun e h₂ hstands' => ⟨hstands'.inward, fun _ => hstands'.cleared⟩
      show Program.Follows _ _ _ (if url.getD "" = "" then _ else _)
      split
      · exact ⟨hstands'.inward, fun _ => hstands'.cleared⟩
      · refine ⟨trivial, fun said'' => ?_⟩
        have hlast := hstands'.cons (o := ⟨.inr (.print _), said''⟩) (inward_print _)
        exact ⟨hlast.inward, fun _ => hlast.cleared⟩
    · rw [if_neg htracing]
      exact ⟨by simp, fun _ => cleared_of_not_verifying fun hverifying => htracing hverifying.2⟩
  · rw [if_neg hflag]
    have hcleared : ∀ h : LocalHistory S, Cleared settings args h :=
      fun h => cleared_of_not_verifying fun hverifying => hflag hverifying.1
    split
    · exact ⟨trivial, fun said => ⟨hone _ said, fun _ => hcleared _⟩⟩
    · exact ⟨by simp, fun _ => hcleared _⟩

/-- What stands behind the review that has been posted or queued. -/
structure Delivered (settings : TracingSettings) (client : GitHubClient S) (args : ReviewLocalArgs)
    (review : Review) (h : LocalHistory S) : Prop where
  cleared : Cleared settings args h
  produced : Produced review (h.filterMap enginePart)
  dispatched : Dispatched client review h

/-- The client posts or queues the review that has been produced. -/
theorem postOrQueue_follows {review : Review} (hstands : Standing settings args h)
    (hproduced : Produced review (h.filterMap enginePart)) :
    ((client.postOrQueue review).left : Local S Unit).Follows (MayIssue settings client args)
      (fun r h' => (∀ o ∈ h', ¬ Writing o.op) ∧
        (r = .ok () → Delivered settings client args review h')) h := by
  have hasks := (client.postOrQueue review).follows_asks
  rw [← hstands.unposted] at hasks
  have hleft := Program.Follows.left (T := LocalSignature) (fun _ _ => rfl) hasks
  have hwrites : ((client.postOrQueue review).left : Local S Unit).Issues fun op => ¬ Writing op :=
    Program.issues_left (fun _ => id) _
  refine ((hleft.since.and (hwrites.holds hstands.unwritten)).imp fun h' op hop => ?_).mono
    fun r h' hr => ⟨hr.2, fun hok => ?_⟩
  · obtain ⟨⟨⟨op', rfl, hop'⟩, hgrown⟩, -⟩ := hop
    exact ⟨hstands.cleared.mono hgrown, review, hproduced.mono (hgrown.filterMap _), hop'⟩
  · obtain ⟨⟨hreaches, hgrown⟩, -⟩ := hr
    subst hok
    exact ⟨hstands.cleared.mono hgrown, hproduced.mono (hgrown.filterMap _), hreaches⟩

/-- Once it is cleared, the graph runs, and what it produces is posted or queued. -/
theorem runReviewLocally_follows (py : Interpreter) (client : GitHubClient S)
    (engine : WorkflowEngine) (diff : String) (hstands : Standing settings args h) :
    (runReviewLocally py client engine args diff).Follows (MayIssue settings client args)
      (fun r h' => (∀ o ∈ h', ¬ Writing o.op) ∧
        ∀ review, r = .ok review → Delivered settings client args review h') h := by
  have hid : (resolvedReviewId (S := S) args).Follows (MayIssue settings client args)
      (fun _ h' => Standing settings args h') h := by
    unfold resolvedReviewId
    split
    · exact ⟨trivial, fun fresh => hstands.cons ⟨id, fun _ => rfl⟩⟩
    · exact hstands
  unfold runReviewLocally
  refine hid.bind (fun reviewId h₁ hstands₁ => ?_) fun e h₁ hstands₁ =>
    ⟨hstands₁.unwritten, fun review hok => by cases hok⟩
  have hrun := running_of_follows (S := S) (run_produces engine reviewId
    (args.initialState reviewId diff) (h₁.filterMap enginePart))
  have hrunning : (running (S := S) (engine.run reviewId (args.initialState reviewId diff))).Follows
      (MayIssue settings client args) (fun r h' => Standing settings args h' ∧
        ∀ state, r = .ok state → ∃ review, state.review = some review ∧
          Produced review (h'.filterMap enginePart)) h₁ := by
    have hinward : (running (S := S) (engine.run reviewId
        (args.initialState reviewId diff))).Issues Inward :=
      Program.issues_relabel (Program.issues_of_forall inward_engine _)
    refine (hstands₁.part hrun hinward fun h' op hop hgrown => ?_).mono fun r h' hr =>
      ⟨hr.1, fun state hok => ?_⟩
    · obtain ⟨op', rfl, -⟩ := hop
      exact hstands₁.cleared.mono hgrown
    · subst hok
      exact hr.2.1
  refine hrunning.bind (fun state h₂ hran => ?_) fun e h₂ hran =>
    ⟨hran.1.unwritten, fun review hok => by cases hok⟩
  obtain ⟨hstands₂, hreviewed⟩ := hran
  obtain ⟨review, hreview, hproduced⟩ := hreviewed state rfl
  simp only [hreview]
  refine (postOrQueue_follows hstands₂ hproduced).bind
    (fun _ h₃ hdone => ⟨hdone.1, fun review' hok => ?_⟩)
    fun e h₃ hdone => ⟨hdone.1, fun review' hok => by cases hok⟩
  obtain rfl := Except.ok.inj hok
  exact hdone.2 rfl

theorem reviewAndWrite_follows (hstands : Standing settings args h) :
    (reviewAndWrite py client engine args).Follows (MayIssue settings client args)
      (Ends (Exits client args) fun _ => True) h := by
  unfold reviewAndWrite
  refine ⟨trivial, fun read => ?_⟩
  have hread := hstands.cons (o := ⟨.inr (.readDiff args.diff), read⟩) ⟨id, fun _ => rfl⟩
  cases read with
  | error e => trivial
  | ok diff =>
    refine (runReviewLocally_follows py client engine diff hread).attempt.bind
      (fun reviewed h₁ hended => ?_) fun e h₁ hended => ?_
    · obtain ⟨ended, hok, hunwritten, hdelivered⟩ := hended
      obtain rfl := Except.ok.inj hok
      cases reviewed with
      | error e =>
        show Program.Follows _ _ _ (if e.isInstance noReviewProducedErrorClass then _ else _)
        split
        · exact ⟨trivial, fun printed => .inr ⟨rfl, List.forall_mem_cons.mpr ⟨id, hunwritten⟩⟩⟩
        · trivial
      | ok review =>
        obtain ⟨hcleared, hproduced, hdispatched⟩ := hdelivered review rfl
        refine ⟨⟨rfl, hcleared, hproduced, hdispatched⟩, fun written => ?_⟩
        cases written with
        | error e => trivial
        | ok u =>
          refine ⟨trivial, fun said => .inl ⟨rfl, review, hproduced, hdispatched, ?_⟩⟩
          exact List.mem_cons_of_mem _ List.mem_cons_self
    · obtain ⟨ended, hok, -⟩ := hended
      cases hok

/-- The command asks LangSmith only where traces are to be verified, and there reviews nothing before
a probe run has landed; all that its client does is to post or queue a review that the graph has
produced, and what is written out is the review that was posted or queued; and its exit code is zero
exactly if that was written out. -/
theorem local_review_follows (py : Interpreter) (settings : TracingSettings)
    (client : GitHubClient S) (engine : WorkflowEngine) (args : ReviewLocalArgs) :
    (reviewLocal py settings client engine args).Follows (MayIssue settings client args)
      (Ends (Exits client args) fun _ => True) [] := by
  unfold reviewLocal
  refine verifyTracing_follows.attempt.bind (fun verified h₁ hended => ?_) fun e h₁ hended => ?_
  · obtain ⟨ended, hok, hinward, hcleared⟩ := hended
    obtain rfl := Except.ok.inj hok
    cases verified with
    | error e =>
      have hunwritten : ∀ o ∈ h₁, ¬ Writing o.op := fun o ho => (hinward o ho).1
      show Program.Follows _ _ _ (if e.isInstance tracingConfigurationErrorClass then _ else _)
      split
      · exact ⟨trivial, fun printed => .inr ⟨rfl, List.forall_mem_cons.mpr ⟨id, hunwritten⟩⟩⟩
      · trivial
    | ok u => exact reviewAndWrite_follows ⟨hcleared rfl, hinward⟩
  · obtain ⟨ended, hok, -⟩ := hended
    cases hok

end ReviewAgent
