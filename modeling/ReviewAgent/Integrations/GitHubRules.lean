import ReviewAgent.Integrations.GitHubClient

/-! Rules for the client's programs, for assertions about GitHub's reviews and the requests made. -/
namespace ReviewAgent

open Effects

/-- What no client can take back: the reviews on GitHub and the requests made so far. -/
structure Ledger where
  reviews : PullRequest → List ExistingReview
  log : List Sent

def GitHubWorld.ledger (w : GitHubWorld) : Ledger := ⟨w.reviews, w.log⟩

/-- The ledger after a request. -/
def Ledger.send (s : Ledger) (sent : Sent) : Ledger where
  reviews := if sent.sending.takesEffect then sent.request.effect s.reviews else s.reviews
  log := sent :: s.log

/-- A request about neither the reviews of a pull request nor a new one. -/
def GitHubRequest.neutral : GitHubRequest → Bool
  | .reviews .. | .createReview .. => false
  | _ => true

theorem Ledger.send_reviews {s : Ledger} {sent : Sent}
    (h : ∀ pr body, sent.request ≠ .createReview pr body) : (s.send sent).reviews = s.reviews := by
  have heffect : sent.request.effect s.reviews = s.reviews := by
    cases hreq : sent.request with
    | createReview pr body => exact absurd hreq (h pr body)
    | _ => rfl
  simp [Ledger.send, heffect]

/-- A contract about the ledger: caches and clocks are free to change. -/
def onLedger (K : Contract Ledger) : Contract (GuardWorld GitHubWorld) :=
  onDep
    { rely := fun w w' => w'.ledger = w.ledger ∨ K.rely w.ledger w'.ledger
      guarantee := fun w w' => w'.ledger = w.ledger ∨ K.guarantee w.ledger w'.ledger }

/-- Assertions about the ledger alone. -/
def Says (P : Ledger → Prop) (w : GuardWorld GitHubWorld) : Prop := P w.dep.ledger

theorem says_stable {K : Contract Ledger} {P : Ledger → Prop} (h : Stable K.rely P) :
    Stable (onLedger K).rely (Says P) := by
  rintro w w' (hd | hl | hr) hw
  · simpa only [Says, hd] using hw
  · simpa only [Says, hl] using hw
  · exact h _ _ hr hw

/-- An assertion that thread `i` keeps by requests that are neutral. -/
structure Tolerates (K : Contract Ledger) (i : ℕ) (P : Ledger → Prop) : Prop where
  stable : Stable K.rely P
  send : ∀ s sent, sent.thread = i → sent.request.neutral = true → P s →
    K.guarantee s (s.send sent) ∧ P (s.send sent)

section

variable {client : RealGitHubClient} {inst : ℕ → ℕ} {i : ℕ} {K : Contract Ledger}
  {N : Machine (Guarded GitHubSignature) (GuardWorld GitHubWorld) (GuardChoice GitHubChoice)
    (GuardMove GitHubMove)} {α β : Type} {P : Ledger → Prop}

theorem gitHub_ledger {w w' : GitHubWorld} {op : GitHubOp} {c : GitHubChoice}
    {answer : GitHubSignature.Answer op} (h : (gitHub inst).perform i w op c = some (w', answer))
    (hop : ∀ request bearer, op ≠ .http request bearer) : w'.ledger = w.ledger := by
  obtain ⟨hreviews, hlog⟩ := gitHub_quiet h hop
  simp [GitHubWorld.ledger, hreviews, hlog]

/-- The environment moves clocks and breakers, never the ledger. -/
theorem gitHub_move {w w' : GuardWorld GitHubWorld} {m : GuardMove GitHubMove}
    (h : (gitHubMachine inst).move w m = some w') : w'.dep.ledger = w.dep.ledger := by
  rcases guardMove_dep h with hdep | ⟨⟨now⟩, hdep⟩
  · rw [hdep]
  · rw [← Option.some.inj hdep]
    rfl

theorem gitHub_move_rely (hN : N.Within (gitHubMachine inst)) {w w' : GuardWorld GitHubWorld}
    {m : GuardMove GitHubMove} (h : N.move w m = some w') : (onLedger K).rely w w' :=
  Or.inr (Or.inl (gitHub_move (hN.move _ _ _ h)))

/-- An operation on a cache or a clock, and what follows it. -/
theorem says_quiet (hN : N.Within (gitHubMachine inst)) {op : GitHubOp}
    {k : GitHubSignature.Answer op → Session α} {R : Except Exc α → GuardWorld GitHubWorld → Prop}
    (hop : ∀ request bearer, op ≠ .http request bearer) (hs : Stable K.rely P)
    (hk : ∀ answer, Triple N i (onLedger K) (Says P) (k answer) R) :
    Triple N i (onLedger K) (Says P) (dep op >>= k) R := by
  show Triple N i _ _ (.step (.dep op : GuardOp GitHubSignature) k) _
  apply Triple.step (says_stable hs) _ hk
  intro w c w' answer hw hp
  obtain ⟨c', d, rfl, hd, rfl⟩ := perform_dep (hN.perform _ _ _ _ _ hp)
  have hledger := gitHub_ledger hd hop
  exact ⟨Or.inr (Or.inl hledger), by simpa only [Says, hledger] using hw⟩

/-- A request, from what each way it can end does to the ledger. -/
theorem says_http (hN : N.Within (gitHubMachine inst)) {request : GitHubRequest} {bearer : String}
    {A : Except Exc (Response request.Content) → Ledger → Prop} (hs : Stable K.rely P)
    (ha : ∀ answer, Stable K.rely (A answer))
    (h : ∀ w c w' (sending : Sending request.Content), P w.dep.ledger →
      N.perform i w (.dep (.http request bearer)) (.dep c) = some (w', sending.outcome) →
      sending.takesEffect = c.applies request →
      K.guarantee w.dep.ledger (w.dep.ledger.send ⟨i, inst i, request, bearer, sending⟩) ∧
        A sending.outcome (w.dep.ledger.send ⟨i, inst i, request, bearer, sending⟩)) :
    Triple N i (onLedger K) (Says P) (http request bearer) fun r => Says (A r) := by
  show Triple N i _ _ (.step (.dep (.http request bearer) : GuardOp GitHubSignature)
    fun answer : Except Exc (Response request.Content) => .done answer) _
  apply Triple.step (A := fun (answer : Except Exc (Response request.Content)) => Says (A answer))
    (says_stable hs)
  · intro w c w' answer hw hp
    obtain ⟨c', d, rfl, hd, rfl⟩ := perform_dep (hN.perform _ _ _ _ _ hp)
    obtain ⟨sending, rfl, -, heffect, rfl⟩ := perform_http hd
    obtain ⟨hg, hpost⟩ := h w c' _ sending hw hp heffect
    exact ⟨Or.inr (Or.inr hg), hpost⟩
  · exact fun answer => Triple.done (says_stable (ha answer)) fun _ hw => hw

/-- After a function: what its result says, or what held before it. -/
def Either (A : α → Ledger → Prop) (P : Ledger → Prop) : Except Exc α → Ledger → Prop
  | .ok a => A a
  | .error _ => P

theorem Either.stable {A : α → Ledger → Prop} (ha : ∀ a, Stable K.rely (A a))
    (hs : Stable K.rely P) (r : Except Exc α) : Stable K.rely (Either A P r) := by
  cases r with
  | ok a => exact ha a
  | error e => exact hs

/-- After a request: an answer that the code accepts says `A`, everything else leaves `P`. -/
def Accepts {request : GitHubRequest} (A : Response request.Content → Ledger → Prop)
    (P : Ledger → Prop) : Except Exc (Response request.Content) → Ledger → Prop
  | .ok response => if response.statusCode < 300 then A response else P
  | .error _ => P

/-- A `do` closure, from what each way its request can end does to the ledger. -/
theorem says_attempt (hN : N.Within (gitHubMachine inst)) {request : GitHubRequest}
    {bearer : String} {A : Response request.Content → Ledger → Prop} (hs : Stable K.rely P)
    (ha : ∀ response, Stable K.rely (A response))
    (h : ∀ w c w' (sending : Sending request.Content), P w.dep.ledger →
      N.perform i w (.dep (.http request bearer)) (.dep c) = some (w', sending.outcome) →
      sending.takesEffect = c.applies request →
      K.guarantee w.dep.ledger (w.dep.ledger.send ⟨i, inst i, request, bearer, sending⟩) ∧
        Accepts A P sending.outcome
          (w.dep.ledger.send ⟨i, inst i, request, bearer, sending⟩)) :
    Triple N i (onLedger K) (Says P) (RealGitHubClient.attempt request bearer) fun r =>
      Says (Either A P r) := by
  have haccepts : ∀ answer, Stable K.rely (Accepts A P answer) := by
    rintro (e | response)
    · exact hs
    · simp only [Accepts]
      split
      · exact ha response
      · exact hs
  apply (says_http (A := Accepts A P) hN hs haccepts h).bind _ fun e w hw => hw
  intro response
  by_cases hstatus : response.statusCode < 300
  · rw [GitHubRequest.statusError_ok.mpr hstatus]
    exact Triple.done (says_stable (haccepts (.ok response))) fun w hw => by
      simpa [Says, Either, Accepts, hstatus] using hw
  · cases herror : request.statusError response.toReply with
    | ok u => exact absurd (GitHubRequest.statusError_ok.mp herror) hstatus
    | error e =>
      exact Triple.done (says_stable (haccepts (.ok response))) fun w hw => by
        simpa [Says, Either, Accepts, hstatus] using hw

/-- A call that is retried: its function leaves `P` when it raises. -/
theorem says_reliably (hN : N.Within (gitHubMachine inst)) {func : Session α}
    {A : α → Ledger → Prop} (hs : Stable K.rely P) (ha : ∀ a, Stable K.rely (A a))
    (hfunc : Triple N i (onLedger K) (Says P) func fun r => Says (Either A P r)) :
    Triple N i (onLedger K) (Says P) (client.callReliably func) fun r =>
      Says (Either A P r) := by
  have heither : ∀ r, Stable (fun w w' : GitHubWorld => w'.ledger = w.ledger ∨
      K.rely w.ledger w'.ledger) fun w => Either A P r w.ledger := by
    rintro r w w' (hl | hr) hw
    · simpa only [hl] using hw
    · exact Either.stable ha hs r _ _ hr hw
  apply callReliably_triple hN (I := fun _ w => P w.ledger) (R := fun _ r w => Either A P r w.ledger)
    (Q := fun r w => Either A P r w.ledger)
    (fun _ => heither (.error (.plain .exception ""))) (fun _ => heither) heither
    (fun _ _ _ => hfunc)
  · intro n w c w' e _ _ hw hp
    have hd := guardPerform_dep (hN.perform _ _ _ _ _ hp) (by simp)
    simpa only [Either, hd] using hw
  · exact fun _ _ _ h => h
  · exact fun _ _ _ _ h => h
  · exact fun _ _ _ _ _ h => h
  · exact fun _ _ _ h => h
  · exact fun _ _ _ _ h => h

/-- A program under which an assertion about the ledger holds throughout. -/
def Keeps (N : Machine (Guarded GitHubSignature) (GuardWorld GitHubWorld)
    (GuardChoice GitHubChoice) (GuardMove GitHubMove)) (K : Contract Ledger) (i : ℕ)
    (P : Ledger → Prop) (p : Session α) : Prop :=
  Triple N i (onLedger K) (Says P) p fun _ => Says P

theorem keeps_done (hs : Stable K.rely P) (r : Except Exc α) : Keeps N K i P (.done r) :=
  Triple.done (says_stable hs) fun _ hw => hw

theorem Keeps.bind {p : Session α} {f : α → Session β} (hp : Keeps N K i P p)
    (hf : ∀ a, Keeps N K i P (f a)) : Keeps N K i P (p >>= f) :=
  Triple.bind hp hf fun _ _ hw => hw

theorem keeps_quiet (hN : N.Within (gitHubMachine inst)) (hs : Stable K.rely P) {op : GitHubOp}
    {k : GitHubSignature.Answer op → Session α}
    (hop : ∀ request bearer, op ≠ .http request bearer) (hk : ∀ answer, Keeps N K i P (k answer)) :
    Keeps N K i P (dep op >>= k) :=
  says_quiet hN hop hs hk

theorem keeps_http (hN : N.Within (gitHubMachine inst)) (ht : Tolerates K i P)
    {request : GitHubRequest} {bearer : String} (hr : request.neutral = true) :
    Keeps N K i P (http request bearer) :=
  says_http (A := fun _ => P) hN ht.stable (fun _ => ht.stable) fun _ _ _ _ hw _ _ =>
    ht.send _ _ rfl hr hw

/-- A `do` closure, when its request keeps the assertion however it ends. -/
theorem keeps_attempt_of (hN : N.Within (gitHubMachine inst)) (hs : Stable K.rely P)
    {request : GitHubRequest} {bearer : String}
    (h : ∀ w c w' (sending : Sending request.Content), P w.dep.ledger →
      N.perform i w (.dep (.http request bearer)) (.dep c) = some (w', sending.outcome) →
      sending.takesEffect = c.applies request →
      K.guarantee w.dep.ledger (w.dep.ledger.send ⟨i, inst i, request, bearer, sending⟩) ∧
        P (w.dep.ledger.send ⟨i, inst i, request, bearer, sending⟩)) :
    Keeps N K i P (RealGitHubClient.attempt request bearer) := by
  have hhttp : Keeps N K i P (http request bearer) :=
    says_http (A := fun _ => P) hN hs (fun _ => hs) h
  exact hhttp.bind fun _ => (keeps_done hs _).bind fun _ => keeps_done hs _

theorem keeps_attempt (hN : N.Within (gitHubMachine inst)) (ht : Tolerates K i P)
    {request : GitHubRequest} {bearer : String} (hr : request.neutral = true) :
    Keeps N K i P (RealGitHubClient.attempt request bearer) :=
  keeps_attempt_of hN ht.stable fun _ _ _ _ hw _ _ => ht.send _ _ rfl hr hw

theorem keeps_reliably (hN : N.Within (gitHubMachine inst)) (hs : Stable K.rely P)
    {func : Session α} (hfunc : Keeps N K i P func) :
    Keeps N K i P (client.callReliably func) := by
  have heither : ∀ r : Except Exc α, Either (fun _ => P) P r = P := by
    rintro (e | a) <;> rfl
  have h : Triple N i (onLedger K) (Says P) (client.callReliably func) fun r =>
      Says (Either (fun _ => P) P r) := by
    apply says_reliably hN hs (fun _ => hs)
    exact hfunc.consequence (fun _ hw => hw) fun r _ hw => by rwa [heither r]
  exact h.consequence (fun _ hw => hw) fun r _ hw => by rwa [heither r] at hw

theorem keeps_mint (hN : N.Within (gitHubMachine inst)) (ht : Tolerates K i P) {appId : String}
    {now : ℚ} : Keeps N K i P (mintAppJwt appId now) := by
  apply keeps_quiet hN ht.stable (by simp)
  rintro (e | jwt)
  · dsimp only
    split
    · exact keeps_done ht.stable _
    · exact keeps_done ht.stable _
  · exact keeps_done ht.stable _

theorem keeps_authorize (hN : N.Within (gitHubMachine inst)) (ht : Tolerates K i P)
    {owner repo appJwt : String} : Keeps N K i P (authorize owner repo appJwt) := by
  apply keeps_quiet hN ht.stable (by simp)
  rintro (_ | installationId)
  · apply Keeps.bind
    · have hdiscover : Keeps N K i P (discoverInstallationId owner repo appJwt) :=
        (keeps_http hN ht rfl).bind fun _ => (keeps_done ht.stable _).bind fun _ => keeps_done ht.stable _
      exact hdiscover.tryCatch (fun _ _ hw => hw) fun _ => keeps_done ht.stable _
    · exact fun installationId => keeps_quiet hN ht.stable (by simp) fun _ => keeps_done ht.stable _
  · exact keeps_done ht.stable _

theorem keeps_getToken (hN : N.Within (gitHubMachine inst)) (ht : Tolerates K i P)
    {appId : String} {installationId : ℤ} : Keeps N K i P (getToken appId installationId) := by
  apply keeps_quiet hN ht.stable (by simp)
  intro entry
  split
  · exact keeps_done ht.stable _
  · apply (keeps_mint hN ht).bind
    intro appJwt
    apply Keeps.bind
    · exact (keeps_http hN ht rfl).bind fun _ => (keeps_done ht.stable _).bind fun _ => keeps_done ht.stable _
    · exact fun token => keeps_quiet hN ht.stable (by simp) fun _ => keeps_done ht.stable _

theorem keeps_installationHeaders (hN : N.Within (gitHubMachine inst)) (ht : Tolerates K i P)
    {owner repo : String} : Keeps N K i P (client.installationHeaders owner repo) := by
  apply keeps_quiet hN ht.stable (by simp)
  intro now
  apply (keeps_mint hN ht).bind
  intro appJwt
  apply (keeps_reliably hN ht.stable (keeps_authorize hN ht)).bind
  exact fun installationId => keeps_reliably hN ht.stable (keeps_getToken hN ht)

theorem keeps_changedFilesFrom (hN : N.Within (gitHubMachine inst)) (ht : Tolerates K i P)
    {pr : PullRequest} {headers : String} (remaining page : ℕ) (files : List ChangedFile) :
    Keeps N K i P (client.changedFilesFrom pr headers remaining page files) := by
  induction remaining generalizing page files with
  | zero =>
    apply Triple.step (A := fun _ _ => False) (says_stable ht.stable)
    · intro w c w' answer
      exact answer.elim
    · exact fun answer => answer.elim
  | succ remaining ih =>
    apply (keeps_reliably hN ht.stable (keeps_attempt hN ht rfl)).bind
    intro response
    apply (keeps_done ht.stable _).bind
    intro batch
    split
    · exact keeps_done ht.stable _
    · split
      · exact keeps_done ht.stable _
      · exact ih _ _

theorem keeps_getDiffAndFiles (hN : N.Within (gitHubMachine inst)) (ht : Tolerates K i P)
    {pr : PullRequest} {headSha : String} :
    Keeps N K i P (client.getDiffAndFiles pr headSha) := by
  apply keeps_quiet hN ht.stable (by simp)
  rintro (_ | value)
  · apply (keeps_installationHeaders hN ht).bind
    intro headers
    apply (keeps_reliably hN ht.stable (keeps_attempt hN ht rfl)).bind
    intro response
    have hfiles : Keeps N K i P (client.getChangedFiles pr headers) :=
      keeps_quiet hN ht.stable (by simp) fun rounds => keeps_changedFilesFrom hN ht rounds 1 []
    exact hfiles.bind fun _ => keeps_quiet hN ht.stable (by simp) fun _ => keeps_done ht.stable _
  · exact keeps_done ht.stable _

end

end ReviewAgent
