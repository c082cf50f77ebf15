import ReviewAgent.Integrations.Refusals

/-! Which answers of GitHub an operation survives: what is retried, what is final, and where. -/
namespace ReviewAgent

open Effects

/-- A request and GitHub's answer to it. -/
abbrev GitHubAnswer : Type := GitHubRequest × Reply

namespace GitHubRequest

/-- The lookup of an installation. -/
def looksUp : GitHubRequest → Bool
  | .installation .. => true
  | _ => false

/-- A request of the authentication: the lookup of an installation or the exchange of a token. -/
def authenticates : GitHubRequest → Bool
  | .installation .. | .accessToken .. => true
  | _ => false

end GitHubRequest

/-- GitHub did not do what was asked. -/
def Refused (a : GitHubAnswer) : Prop := 300 ≤ a.2.statusCode

/-- 401, a 403 that is no rate limit, 422, and 404 for the lookup of an installation: asking again
does not help. -/
def Definite (a : GitHubAnswer) : Prop :=
  a.2.statusCode = 401 ∨ (a.2.statusCode = 403 ∧ a.2.rateLimitRemaining ≠ some "0") ∨
    a.2.statusCode = 422 ∨ (a.2.statusCode = 404 ∧ a.1.looksUp = true)

/-- A refusal that may pass. -/
def MayPass (a : GitHubAnswer) : Prop := Refused a ∧ ¬ Definite a

instance : DecidablePred Refused := fun a => inferInstanceAs (Decidable (300 ≤ a.2.statusCode))

instance : DecidablePred Definite := fun _ => inferInstanceAs (Decidable (_ ∨ (_ ∧ _) ∨ _ ∨ _))

instance : DecidablePred MayPass := fun _ => inferInstanceAs (Decidable (_ ∧ ¬ _))

/-- How many refusals that may pass have come in a row, the newest answer first. -/
def refusalsInARow (answers : List GitHubAnswer) : ℕ :=
  (answers.takeWhile fun a => decide (MayPass a)).length

theorem refusalsInARow_cons {a : GitHubAnswer} {answers : List GitHubAnswer} :
    refusalsInARow (a :: answers) = if MayPass a then refusalsInARow answers + 1 else 0 := by
  rw [refusalsInARow, List.takeWhile_cons]
  by_cases h : MayPass a <;> simp [h, refusalsInARow]

/-- The newest answer is a definite refusal. -/
def LastDefinite (answers : List GitHubAnswer) : Prop := ∃ a, answers.head? = some a ∧ Definite a

/-- The review cannot be rendered for files of this kind. -/
def GitHubOperation.Unrenderable (op : GitHubOperation) (e : Exc) : Prop :=
  ∃ review files, op = .postReviewComment review ∧ reviewRequest review files = .error e

/-- An exception is in order after `n` refusals in a row or a definite one, and if the review cannot
be rendered. -/
def FailsRightly (n : ℕ) (excused : Exc → Prop) (e : Exc) (answers : List GitHubAnswer) : Prop :=
  n ≤ refusalsInARow answers ∨ LastDefinite answers ∨
    (refusalsInARow answers = 0 ∧ excused e)

/-- So many refusals in a row never come that the delay before the next attempt overflows. -/
def Short (n : ℕ) (answers : List GitHubAnswer) : Prop :=
  n ≤ maxFloatExponent + 2 ∨
    ∀ earlier, earlier <:+ answers → refusalsInARow earlier < maxFloatExponent + 2

/-- No refusal of the authentication may pass (unless nothing is retried at all), and retrying does
not overflow. -/
def Retries (n : ℕ) (answers : List GitHubAnswer) : Prop :=
  (∀ a ∈ answers, a.1.authenticates = true → Refused a → n = 1 ∨ Definite a) ∧ Short n answers

/-- The authentication has not been refused, and every other answer was retried. -/
structure Sailing (n : ℕ) (answers : List GitHubAnswer) : Prop where
  authenticated : ∀ a ∈ answers, a.1.authenticates = true → ¬ Refused a
  short : Short n answers

section

variable {n : ℕ} {a : GitHubAnswer} {answers : List GitHubAnswer} {excused : Exc → Prop}
  {e : Exc}

theorem Sailing.retries (h : Sailing n answers) : Retries n answers :=
  ⟨fun a ha hauth hrefused => absurd hrefused (h.authenticated a ha hauth), h.short⟩

theorem Short.cons (h : Short n answers)
    (ha : n ≤ maxFloatExponent + 2 ∨ refusalsInARow (a :: answers) < maxFloatExponent + 2) :
    Short n (a :: answers) := by
  rcases h with hn | hshort
  · exact Or.inl hn
  · rcases ha with hn | hlt
    · exact Or.inl hn
    · refine Or.inr fun earlier hearlier => ?_
      rcases List.suffix_cons_iff.mp hearlier with rfl | hold
      · exact hlt
      · exact hshort earlier hold

/-- An accepted answer ends a row of refusals. -/
theorem Sailing.accepted (h : Sailing n answers) (ha : ¬ Refused a) :
    Sailing n (a :: answers) ∧ refusalsInARow (a :: answers) = 0 := by
  have hzero : refusalsInARow (a :: answers) = 0 := by
    rw [refusalsInARow_cons, if_neg fun hpass => ha hpass.1]
  refine ⟨⟨fun b hb => ?_, h.short.cons (Or.inr (by rw [hzero]; omega))⟩, hzero⟩
  rcases List.mem_cons.mp hb with rfl | hold
  · exact fun _ => ha
  · exact h.authenticated b hold

/-- So does every answer to a request that is not of the authentication, for the authentication. -/
theorem authenticated_cons (h : ∀ b ∈ answers, b.1.authenticates = true → ¬ Refused b)
    (ha : a.1.authenticates = false) :
    ∀ b ∈ a :: answers, b.1.authenticates = true → ¬ Refused b := by
  intro b hb hauth
  rcases List.mem_cons.mp hb with rfl | hold
  · simp [ha] at hauth
  · exact h b hold hauth

/-- Retrying that overflows fails an operation that has attempts left. -/
theorem overflows (hrow : maxFloatExponent + 2 ≤ refusalsInARow answers)
    (hn : refusalsInARow answers < n) :
    FailsRightly n excused e answers ↔ Retries n answers := by
  refine iff_of_false ?_ ?_
  · rintro (hexhausted | ⟨a, hlast, hdefinite⟩ | ⟨hzero, -⟩)
    · omega
    · obtain ⟨rest, rfl⟩ : ∃ rest, answers = a :: rest := List.head?_eq_some_iff.mp hlast
      rw [refusalsInARow_cons, if_neg fun hpass => hpass.2 hdefinite] at hrow
      omega
    · omega
  · rintro ⟨-, hfew | hshort⟩
    · omega
    · exact absurd (hshort answers List.suffix_rfl) (not_lt.mpr hrow)

/-- A definite refusal makes an operation fail, and is not retried. -/
theorem Sailing.definite (h : Sailing n answers) (ha : Definite a) :
    FailsRightly n excused e (a :: answers) ↔ Retries n (a :: answers) := by
  refine iff_of_true (Or.inr (Or.inl ⟨a, rfl, ha⟩)) ⟨fun b hb hauth hrefused => ?_, ?_⟩
  · rcases List.mem_cons.mp hb with rfl | hold
    · exact Or.inr ha
    · exact absurd hrefused (h.authenticated b hold hauth)
  · refine h.short.cons (Or.inr ?_)
    rw [refusalsInARow_cons, if_neg fun hpass => hpass.2 ha]
    omega

/-- A refusal of the authentication that may pass is the end all the same. -/
theorem Sailing.authentication (h : Sailing n answers) (hrow : refusalsInARow answers = 0)
    (hauth : a.1.authenticates = true) (ha : MayPass a) (hn : 1 ≤ n) :
    FailsRightly n excused e (a :: answers) ↔ Retries n (a :: answers) := by
  have hone : refusalsInARow (a :: answers) = 1 := by rw [refusalsInARow_cons, if_pos ha, hrow]
  have hlast : ¬ LastDefinite (a :: answers) := by
    rintro ⟨b, hb, hdefinite⟩
    obtain rfl : a = b := Option.some.inj hb
    exact ha.2 hdefinite
  have hright : FailsRightly n excused e (a :: answers) ↔ n = 1 := by
    simp only [FailsRightly, hone, hlast, Nat.one_ne_zero, false_and, or_false]
    omega
  rw [hright]
  constructor
  · rintro rfl
    exact ⟨fun _ _ _ _ => Or.inl rfl, Or.inl (by omega)⟩
  · intro hretries
    exact (hretries.1 a List.mem_cons_self hauth ha.1).resolve_right ha.2

end

section

variable {request : GitHubRequest} {reply : Reply} {context : String} {e : Exc}

/-- Of the refusals of a REST request exactly the definite ones are not retried. -/
theorem raiseForStatus_definite (hlook : request.looksUp = false)
    (h : raiseForStatus reply context = .error e) :
    Definite (request, reply) ↔ e.isInstanceOfAny gitHubNonRetryableExceptions = true := by
  simp only [Definite, hlook, Bool.false_eq_true, and_false, or_false]
  unfold raiseForStatus at h
  split at h
  · cases h
  · split at h
    · cases h
      exact iff_of_true (Or.inl ‹_›) rfl
    · split at h
      · rename_i h401 hlimited
        cases h
        refine iff_of_false ?_ Bool.false_ne_true
        rintro (h' | ⟨h', hremaining⟩ | h')
        · exact h401 h'
        · rcases hlimited with h'' | ⟨-, hzero⟩
          · omega
          · exact hremaining hzero
        · rcases hlimited with h'' | ⟨h'', -⟩ <;> omega
      · split at h
        · rename_i hlimited h403
          cases h
          refine iff_of_true (Or.inr (Or.inl ⟨h403, fun hzero => hlimited (Or.inr ⟨h403, hzero⟩)⟩)) rfl
        · split at h
          · cases h
            exact iff_of_true (Or.inr (Or.inr ‹_›)) rfl
          · cases h
            refine iff_of_false ?_ Bool.false_ne_true
            rintro (h' | ⟨h', -⟩ | h') <;> omega

theorem statusError_definite (hrest : request.authenticates = false)
    (h : request.statusError reply = .error e) :
    Definite (request, reply) ↔ e.isInstanceOfAny gitHubNonRetryableExceptions = true := by
  cases request with
  | installation owner repo => cases hrest
  | accessToken installationId => cases hrest
  | _ => exact raiseForStatus_definite rfl h

/-- No refusal of the authentication is retried. -/
theorem statusError_authentication (hauth : request.authenticates = true)
    (h : request.statusError reply = .error e) :
    e.isInstanceOfAny gitHubNonRetryableExceptions = true := by
  cases request with
  | installation owner repo =>
    simp only [GitHubRequest.statusError, installationStatusError] at h
    split at h
    · obtain rfl : notFoundAsUnauthorized owner repo _ = e := Except.error.inj h
      unfold notFoundAsUnauthorized
      split <;> rfl
    · cases h
  | accessToken installationId =>
    simp only [GitHubRequest.statusError, exchangeStatusError] at h
    split at h <;> cases h
    rfl
  | _ => cases hauth

end

/-- GitHub answers every request, readably where it accepts; the signature succeeds, and the breaker
lets every call through. -/
def Answering : Occurrence (Guarded GitHubSignature) → Prop
  | ⟨.dep (.http _ _), .ok response⟩ => response.statusCode < 300 → response.json.isOk = true
  | ⟨.dep (.http _ _), .error _⟩ => False
  | ⟨.dep (.sign _), outcome⟩ => outcome.isOk = true
  | ⟨.admission, outcome⟩ => outcome.isOk = true
  | _ => True

/-- The answer that an occurrence is. -/
def answerOf : Occurrence (Guarded GitHubSignature) → Option GitHubAnswer
  | ⟨.dep (.http request _), .ok response⟩ => some (request, response.toReply)
  | _ => none

/-- GitHub's answers so far, the newest first. -/
def answersIn (h : GitHubHistory) : List GitHubAnswer := h.filterMap answerOf

/-- With `answers` behind it a program ends in `Q`. -/
def After {α : Type} (answers : List GitHubAnswer) (p : Session α)
    (Q : Except Exc α → List GitHubAnswer → Prop) : Prop :=
  ∀ h, answersIn h = answers →
    Program.Assuming Answering (fun r h' => Q r (answersIn h')) h p

namespace After

variable {α β : Type} {answers : List GitHubAnswer} {p : Session α}
  {Q R : Except Exc α → List GitHubAnswer → Prop} {S : Except Exc β → List GitHubAnswer → Prop}

theorem done {r : Except Exc α} (h : Q r answers) : After answers (.done r) Q := by
  rintro hist rfl
  exact h

theorem bind {f : α → Session β} (hp : After answers p R)
    (hf : ∀ a answers', R (.ok a) answers' → After answers' (f a) S)
    (he : ∀ e answers', R (.error e) answers' → S (.error e) answers') :
    After answers (p >>= f) S :=
  fun hist hanswers => (hp hist hanswers).bind (fun a h' ha => hf a _ ha h' rfl)
    fun e _ hr => he e _ hr

theorem tryCatch {handler : Exc → Session α} (hp : After answers p R)
    (ha : ∀ a answers', R (.ok a) answers' → Q (.ok a) answers')
    (hh : ∀ e answers', R (.error e) answers' → After answers' (handler e) Q) :
    After answers (MonadExcept.tryCatch p handler) Q :=
  fun hist hanswers => (hp hist hanswers).tryCatch (fun a _ hr => ha a _ hr)
    fun e h' hr => hh e _ hr h' rfl

/-- What is not an answer of GitHub leaves the answers as they are. -/
theorem step {op : GuardOp GitHubSignature}
    {k : (Guarded GitHubSignature).Answer op → Session α}
    (hop : ∀ answer, answerOf ⟨op, answer⟩ = none)
    (hk : ∀ answer, Answering ⟨op, answer⟩ → After answers (k answer) Q) :
    After answers (.step op k) Q := by
  rintro hist rfl answer hgood
  refine hk answer hgood _ ?_
  rw [answersIn, List.filterMap_cons, hop answer]
  rfl

theorem dep {op : GitHubOp} {k : GitHubSignature.Answer op → Session α}
    (hop : ∀ request bearer, op ≠ .http request bearer)
    (hk : ∀ answer, Answering ⟨.dep op, answer⟩ → After answers (k answer) Q) :
    After answers (ReviewAgent.dep op >>= k) Q := by
  refine step (fun answer => ?_) hk
  cases op with
  | http request bearer => exact absurd rfl (hop request bearer)
  | _ => rfl

theorem http {request : GitHubRequest} {bearer : String}
    {f : Response request.Content → Session α}
    (hf : ∀ response : Response request.Content,
      (response.statusCode < 300 → ∃ content, response.json = .ok content) →
      After ((request, response.toReply) :: answers) (f response) Q) :
    After answers (ReviewAgent.http request bearer >>= f) Q := by
  rintro hist rfl answer hgood
  cases answer with
  | error e => exact hgood.elim
  | ok response => exact hf response (fun hstatus => exists_of_isOk (hgood hstatus)) _ rfl

/-- The breaker adds nothing to the answers. -/
theorem call (hp : After answers p Q) : After answers (CircuitBreaker.call p) Q := by
  unfold CircuitBreaker.call
  have henter : After answers (enterBreaker (D := GitHubSignature))
      (fun r answers' => r.isOk = true ∧ answers' = answers) :=
    step (fun _ => rfl) fun answer hgood => done ⟨hgood, rfl⟩
  apply henter.bind
  · rintro _ after ⟨-, rfl⟩
    have hnoted : After after (MonadExcept.tryCatch p fun e => do noteRaised e; throw e) Q := by
      apply hp.tryCatch fun a answers' ha => ha
      intro e answers' he
      unfold noteRaised
      split
      · exact step (fun _ => rfl) fun _ _ => done he
      · exact done he
    apply hnoted.bind
    · exact fun a answers' ha => step (fun _ => rfl) fun _ _ => done ha
    · exact fun e answers' he => he
  · rintro e answers' ⟨hok, -⟩
    cases hok

/-- Backing off adds nothing to the answers; it fails only by overflow. -/
theorem backoff {policy : RetryPolicy} (n : ℕ) :
    After answers (ReviewAgent.backoff policy (sleep (D := GitHubSignature)) rand n)
      fun r answers' => answers' = answers ∧ match r with
        | .ok _ => n ≤ maxFloatExponent + 2
        | .error e => policy.delayForAttempt n = .error e := by
  unfold ReviewAgent.backoff
  split
  · cases hdelay : policy.delayForAttempt n with
    | error e => exact done ⟨rfl, rfl⟩
    | ok d =>
      have hlimit := RetryPolicy.delayForAttempt_ok hdelay
      have hjitter : After answers (jittered policy (rand (D := GitHubSignature)) d)
          (fun r answers' => r.isOk = true ∧ answers' = answers) := by
        unfold jittered
        split
        · exact step (fun _ => rfl) fun u _ => done ⟨rfl, rfl⟩
        · exact done ⟨rfl, rfl⟩
      show After answers (jittered policy rand d >>= _) _
      apply hjitter.bind
      · rintro d' _ ⟨-, rfl⟩
        split
        · exact step (fun _ => rfl) fun _ _ => done ⟨rfl, hlimit⟩
        · exact done ⟨rfl, hlimit⟩
      · rintro e answers' ⟨hok, -⟩
        cases hok
  · exact done ⟨rfl, by omega⟩

end After

/-- The end of a part of an operation: it returns what `A` holds of, or its exception is in order
exactly if the answers were handled. -/
def Sails {α : Type} (n : ℕ) (excused : Exc → Prop) (A : α → Prop) :
    Except Exc α → List GitHubAnswer → Prop
  | .ok a, answers => A a ∧ Sailing n answers ∧ refusalsInARow answers = 0
  | .error e, answers => FailsRightly n excused e answers ↔ Retries n answers

/-- From answers that have all been accepted or retried, `p` ends so. -/
def Weathers {α : Type} (n : ℕ) (excused : Exc → Prop) (A : α → Prop) (p : Session α) : Prop :=
  ∀ answers, Sailing n answers → refusalsInARow answers = 0 →
    After answers p (Sails n excused A)

section

variable {α β : Type} {n : ℕ} {excused : Exc → Prop} {A : α → Prop} {B : β → Prop}
  {p : Session α}

theorem Weathers.bind {f : α → Session β} (hp : Weathers n excused A p)
    (hf : ∀ a, A a → Weathers n excused B (f a)) : Weathers n excused B (p >>= f) :=
  fun answers hsailing hrow => (hp answers hsailing hrow).bind
    (fun a answers' ha => hf a ha.1 answers' ha.2.1 ha.2.2) fun _ _ he => he

theorem Weathers.ok {a : α} (ha : A a) : Weathers n excused A (.done (.ok a) : Session α) :=
  fun _ hsailing hrow => After.done ⟨ha, hsailing, hrow⟩

theorem Weathers.dep {op : GitHubOp} {k : GitHubSignature.Answer op → Session α}
    (hop : ∀ request bearer, op ≠ .http request bearer)
    (hk : ∀ answer, Answering ⟨.dep op, answer⟩ → Weathers n excused A (k answer)) :
    Weathers n excused A (ReviewAgent.dep op >>= k) :=
  fun answers hsailing hrow => After.dep hop fun answer hgood => hk answer hgood answers hsailing hrow

/-- A review that cannot be rendered is an exception in order. -/
theorem Weathers.excuse {e : Exc} (he : excused e) :
    Weathers n excused A (.done (.error e) : Session α) :=
  fun _ hsailing hrow => After.done
    (iff_of_true (Or.inr (Or.inr ⟨hrow, he⟩)) hsailing.retries)

end

section

variable {client : RealGitHubClient} {excused : Exc → Prop} {owner repo appId appJwt headers : String}
  {installationId : ℤ} {request : GitHubRequest} {α β : Type} {A : α → Prop} {B : β → Prop}

/-- One attempt of a REST request: accepted and readable, or refused with the answer's error. -/
theorem after_attempt {answers : List GitHubAnswer} :
    After answers (RealGitHubClient.attempt request headers) fun r answers' =>
      ∃ reply, answers' = (request, reply) :: answers ∧ match r with
        | .ok response => ¬ Refused (request, reply) ∧ ∃ content, response.json = .ok content
        | .error e => Refused (request, reply) ∧ request.statusError reply = .error e := by
  apply After.http
  intro response hread
  by_cases hstatus : response.statusCode < 300
  · rw [GitHubRequest.statusError_ok.mpr hstatus]
    exact After.done ⟨response.toReply, rfl, not_le.mpr hstatus, hread hstatus⟩
  · cases herror : request.statusError response.toReply with
    | ok u => exact absurd (GitHubRequest.statusError_ok.mp herror) hstatus
    | error e => exact After.done ⟨response.toReply, rfl, not_lt.mp hstatus, herror⟩

/-- The attempts of a REST request from the `k`th on, after `k - 1` refusals in a row. -/
theorem after_attemptsFrom (hrest : request.authenticates = false) :
    ∀ remaining k answers, remaining + k = client.retryPolicy.maxAttempts + 1 → 1 ≤ k →
      1 ≤ remaining →
      (∀ a ∈ answers, a.1.authenticates = true → ¬ Refused a) →
      (client.retryPolicy.maxAttempts ≤ maxFloatExponent + 2 ∨ ∀ earlier, earlier <:+ answers →
        earlier ≠ answers → refusalsInARow earlier < maxFloatExponent + 2) →
      refusalsInARow answers = k - 1 →
      After answers
        (attemptsFrom (CircuitBreaker.call (RealGitHubClient.attempt request headers))
          client.retryPolicy gitHubNonRetryableExceptions sleep rand remaining k)
        fun r answers' => match r with
          | .ok response => (∃ content, response.json = .ok content) ∧
            Sailing client.retryPolicy.maxAttempts answers' ∧ refusalsInARow answers' = 0
          | .error _ => ∀ e, FailsRightly client.retryPolicy.maxAttempts excused e answers' ↔
            Retries client.retryPolicy.maxAttempts answers' := by
  intro remaining
  induction remaining with
  | zero => omega
  | succ remaining ih =>
    intro k answers hcount hk _ hauth hshort hrow
    rw [attemptsFrom]
    apply (After.backoff k).bind
    · rintro _ after ⟨rfl, hlimit⟩
      have hsailing : Sailing client.retryPolicy.maxAttempts after := by
        refine ⟨hauth, hshort.imp_right fun hbefore earlier hearlier => ?_⟩
        by_cases hall : earlier = after
        · rw [hall, hrow]
          omega
        · exact hbefore earlier hearlier hall
      apply (After.call after_attempt).tryCatch
      · rintro response answers' ⟨reply, rfl, haccepted, hread⟩
        exact ⟨hread, hsailing.accepted haccepted⟩
      · rintro e answers' ⟨reply, rfl, hrefused, herror⟩
        have hfinal := statusError_definite hrest herror
        by_cases hnon : e.isInstanceOfAny gitHubNonRetryableExceptions = true
        · rw [if_pos hnon]
          exact After.done fun e' => hsailing.definite (hfinal.mpr hnon)
        · have hpass : MayPass (request, reply) := ⟨hrefused, fun h => hnon (hfinal.mp h)⟩
          have hrow' : refusalsInARow ((request, reply) :: after) = k := by
            rw [refusalsInARow_cons, if_pos hpass, hrow]
            omega
          have hauth' := authenticated_cons (a := (request, reply)) hauth hrest
          rw [if_neg hnon, if_pos (GitHubRequest.statusError_exception herror)]
          split
          · -- the last attempt
            refine After.done fun e' => iff_of_true (Or.inl (by omega)) ⟨?_, Or.inl (by omega)⟩
            exact fun b hb hb' hrefused' => absurd hrefused' (hauth' b hb hb')
          · refine ih (k + 1) _ (by omega) (by omega) (by omega) hauth' ?_ (by omega)
            refine hsailing.short.imp_right fun hbefore earlier hearlier hne => ?_
            rcases List.suffix_cons_iff.mp hearlier with hall | hold
            · exact absurd hall hne
            · exact hbefore earlier hold
    · rintro e answers' ⟨rfl, hover⟩ e'
      have hlimit := RetryPolicy.delayForAttempt_error hover
      exact overflows (by omega) (by omega)

/-- A client's call of a REST request: it weathers every refusal that may pass. -/
theorem weathers_reliably (hrest : request.authenticates = false) :
    Weathers client.retryPolicy.maxAttempts excused
      (fun response => ∃ content, response.json = .ok content)
      (client.callReliably (RealGitHubClient.attempt request headers)) := by
  intro answers hsailing hrow
  have hattempts := @after_attemptsFrom client excused headers request hrest
    client.retryPolicy.maxAttempts 1 answers rfl le_rfl client.retryPolicy.one_le_maxAttempts
    hsailing.authenticated
    (hsailing.short.imp_right fun hshort earlier hearlier _ => hshort earlier hearlier) hrow
  exact After.tryCatch hattempts (fun response answers' h => h) fun e answers' h => After.done (h _)

/-- The end of one request of the authentication: accepted, or refused for good. -/
def Resolves {α : Type} (n : ℕ) (excused : Exc → Prop) :
    Except Exc α → List GitHubAnswer → Prop
  | .ok _, answers => Sailing n answers ∧ refusalsInARow answers = 0
  | .error e, answers => e.isInstanceOfAny gitHubNonRetryableExceptions = true ∧
    ∀ e', FailsRightly n excused e' answers ↔ Retries n answers

/-- An answer to the authentication, read as the code reads its status. -/
theorem resolves_of_statusError {n : ℕ} {reply : Reply} {answers : List GitHubAnswer} {e : Exc}
    (hn : 1 ≤ n) (hsailing : Sailing n answers) (hrow : refusalsInARow answers = 0)
    (hauth : request.authenticates = true) (herror : request.statusError reply = .error e) :
    Resolves (α := α) n excused (.error e) ((request, reply) :: answers) := by
  refine ⟨statusError_authentication hauth herror, fun e' => ?_⟩
  have hrefused : Refused (request, reply) := by
    by_contra haccepted
    rw [GitHubRequest.statusError_ok.mpr (not_le.mp haccepted)] at herror
    cases herror
  by_cases hdefinite : Definite (request, reply)
  · exact hsailing.definite hdefinite
  · exact hsailing.authentication hrow hauth ⟨hrefused, hdefinite⟩ hn

section

variable {n : ℕ} {answers : List GitHubAnswer}

theorem resolves_mint {now : ℚ} : After answers (mintAppJwt appId now)
    fun r answers' => r.isOk = true ∧ answers' = answers := by
  apply After.dep (by simp)
  intro outcome hok
  obtain ⟨jwt, rfl⟩ := exists_of_isOk hok
  exact After.done ⟨rfl, rfl⟩

theorem resolves_lookup (hn : 1 ≤ n) (hsailing : Sailing n answers)
    (hrow : refusalsInARow answers = 0) :
    After answers (tryCatch (discoverInstallationId owner repo appJwt) fun e =>
      throw (notFoundAsUnauthorized owner repo e)) (Resolves n excused) := by
  have hlookup : After answers (discoverInstallationId owner repo appJwt) fun r answers' =>
      ∃ reply, answers' = (.installation owner repo, reply) :: answers ∧ match r with
        | .ok _ => ¬ Refused (.installation owner repo, reply)
        | .error e => installationStatusError owner repo reply = .error e := by
    apply After.http
    intro response hread
    by_cases hstatus : response.statusCode < 300
    · have hok : installationStatusError owner repo response.toReply = .ok () :=
        if_neg (not_le.mpr hstatus)
      obtain ⟨id, hjson⟩ := hread hstatus
      rw [hok, hjson]
      exact After.done ⟨response.toReply, rfl, not_le.mpr hstatus⟩
    · cases herror : installationStatusError owner repo response.toReply with
      | ok u =>
        rw [installationStatusError, if_pos (not_lt.mp hstatus)] at herror
        cases herror
      | error e => exact After.done ⟨response.toReply, rfl, herror⟩
  apply hlookup.tryCatch
  · rintro id answers' ⟨reply, rfl, haccepted⟩
    exact hsailing.accepted haccepted
  · rintro e answers' ⟨reply, rfl, herror⟩
    refine After.done (resolves_of_statusError hn hsailing hrow rfl ?_)
    rw [GitHubRequest.statusError, herror]
    rfl

theorem resolves_authorize (hn : 1 ≤ n) (hsailing : Sailing n answers)
    (hrow : refusalsInARow answers = 0) :
    After answers (authorize owner repo appJwt) (Resolves n excused) := by
  apply After.dep (by simp)
  rintro (_ | id) -
  · apply (resolves_lookup hn hsailing hrow).bind
    · exact fun id answers' h => After.dep (by simp) fun _ _ => After.done h
    · exact fun e answers' h => h
  · exact After.done ⟨hsailing, hrow⟩

theorem resolves_getToken (hn : 1 ≤ n) (hsailing : Sailing n answers)
    (hrow : refusalsInARow answers = 0) :
    After answers (getToken appId installationId) (Resolves n excused) := by
  apply After.dep (by simp)
  intro entry _
  split
  · exact After.done ⟨hsailing, hrow⟩
  · apply resolves_mint.bind
    · rintro jwt after ⟨-, rfl⟩
      have hexchange : After after (exchangeJwtForInstallationToken jwt installationId)
          (Resolves n excused) := by
        apply After.http
        intro response hread
        by_cases hstatus : response.statusCode < 300
        · have hok : exchangeStatusError installationId response.toReply = .ok () :=
            if_neg (not_le.mpr hstatus)
          obtain ⟨token, hjson⟩ := hread hstatus
          rw [hok, hjson]
          exact After.done (hsailing.accepted (not_le.mpr hstatus))
        · cases herror : exchangeStatusError installationId response.toReply with
          | ok u =>
            rw [exchangeStatusError, if_pos (not_lt.mp hstatus)] at herror
            cases herror
          | error e => exact After.done (resolves_of_statusError hn hsailing hrow rfl herror)
      apply hexchange.bind
      · exact fun token answers' h => After.dep (by simp) fun _ _ => After.done h
      · exact fun e answers' h => h
    · rintro e answers' ⟨hok, -⟩
      cases hok

end

/-- A client's call of the authentication makes one attempt. -/
theorem weathers_authentication {func : Session α}
    (hfunc : ∀ answers, Sailing client.retryPolicy.maxAttempts answers →
      refusalsInARow answers = 0 →
      After answers func (Resolves client.retryPolicy.maxAttempts excused)) :
    Weathers client.retryPolicy.maxAttempts excused (fun _ => True) (client.callReliably func) := by
  intro answers hsailing hrow
  obtain ⟨more, hmore⟩ := Nat.exists_eq_add_of_le' client.retryPolicy.one_le_maxAttempts
  have hattempt : After answers (callWithRetry (CircuitBreaker.call func) client.retryPolicy
      gitHubNonRetryableExceptions sleep rand)
      (Resolves client.retryPolicy.maxAttempts excused) := by
    rw [callWithRetry, hmore, attemptsFrom, ← hmore]
    apply (After.backoff 1).bind
    · rintro _ after ⟨rfl, -⟩
      apply (After.call (hfunc after hsailing hrow)).tryCatch fun a answers' h => h
      intro e answers' he
      rw [if_pos he.1]
      exact After.done he
    · rintro e answers' ⟨-, hover⟩
      have := RetryPolicy.delayForAttempt_error hover
      omega
  exact After.tryCatch hattempt (fun a answers' h => ⟨trivial, h⟩) fun e answers' h =>
    After.done (h.2 _)

theorem weathers_installationHeaders :
    Weathers client.retryPolicy.maxAttempts excused (fun _ => True)
      (client.installationHeaders owner repo) := by
  have hn := client.retryPolicy.one_le_maxAttempts
  apply Weathers.dep (by simp)
  intro now _ answers hsailing hrow
  apply resolves_mint.bind
  · rintro jwt after ⟨-, rfl⟩
    have hrest : Weathers client.retryPolicy.maxAttempts excused (fun _ => True)
        (client.callReliably (authorize owner repo jwt) >>= fun installationId =>
          client.callReliably (getToken client.appId installationId)) := by
      apply (weathers_authentication fun _ => resolves_authorize hn).bind
      exact fun id _ => weathers_authentication fun _ => resolves_getToken hn
    exact hrest after hsailing hrow
  · rintro e answers' ⟨hok, -⟩
    cases hok

/-- A request that is answered, and the body of its answer. -/
theorem weathers_read (hrest : request.authenticates = false) {f : request.Content → Session β}
    (hf : ∀ content, Weathers client.retryPolicy.maxAttempts excused B (f content)) :
    Weathers client.retryPolicy.maxAttempts excused B
      (client.callReliably (RealGitHubClient.attempt request headers) >>=
        fun response => Program.ofExcept response.json >>= f) := by
  apply (weathers_reliably hrest).bind
  rintro response ⟨content, hjson⟩
  rw [hjson]
  exact hf content

theorem weathers_changedFilesFrom {pr : PullRequest} (remaining page : ℕ)
    (files : List ChangedFile) :
    Weathers client.retryPolicy.maxAttempts excused (fun _ => True)
      (client.changedFilesFrom pr headers remaining page files) := by
  induction remaining generalizing page files with
  | zero => exact fun answers _ _ h _ answer => answer.elim
  | succ remaining ih =>
    apply weathers_read rfl
    intro batch
    split
    · exact Weathers.ok trivial
    · split
      · exact Weathers.ok trivial
      · exact ih _ _

theorem weathers_getDiffAndFiles {pr : PullRequest} {headSha : String} :
    Weathers client.retryPolicy.maxAttempts excused (fun _ => True)
      (client.getDiffAndFiles pr headSha) := by
  apply Weathers.dep (by simp)
  rintro (_ | value) -
  · apply weathers_installationHeaders.bind
    intro headers _
    apply (weathers_reliably rfl).bind
    intro response _
    have hfiles : Weathers client.retryPolicy.maxAttempts excused (fun _ => True)
        (client.getChangedFiles pr headers) :=
      Weathers.dep (by simp) fun rounds _ => weathers_changedFilesFrom rounds 1 []
    apply hfiles.bind
    exact fun changedFiles _ => Weathers.dep (by simp) fun _ _ => Weathers.ok trivial
  · exact Weathers.ok trivial

theorem weathers_operation (op : GitHubOperation) :
    Weathers client.retryPolicy.maxAttempts op.Unrenderable (fun _ => True) (client.operation op) := by
  cases op with
  | getPrMetadata pr =>
    apply Weathers.bind (A := fun _ => True) _ fun _ _ => Weathers.ok trivial
    apply weathers_installationHeaders.bind
    intro headers _
    apply (weathers_reliably rfl).bind
    rintro response ⟨content, hjson⟩
    rw [hjson]
    exact Weathers.ok trivial
  | fetchDiff pr headSha =>
    apply Weathers.bind (A := fun _ => True) _ fun _ _ => Weathers.ok trivial
    exact weathers_getDiffAndFiles.bind fun value _ => Weathers.ok trivial
  | postReviewComment review =>
    apply weathers_installationHeaders.bind
    intro headers _
    apply Weathers.bind (A := fun _ => True)
    · exact weathers_read rfl fun existing => Weathers.ok trivial
    · intro alreadyPosted _
      split
      · exact Weathers.ok trivial
      · apply weathers_getDiffAndFiles.bind
        intro value _
        cases hbody : reviewRequest review value.changedFiles with
        | error e => exact Weathers.excuse ⟨review, value.changedFiles, rfl, hbody⟩
        | ok body => exact weathers_read rfl fun posted => Weathers.ok trivial

end

section

variable {inst : ℕ → ℕ} {i : ℕ} {w : GuardWorld GitHubWorld} {r : Except Exc Unit}
  {ss : List OperationSched} {client : RealGitHubClient} {op : GitHubOperation}
  {c : Machine.Config (Guarded GitHubSignature) Exc Unit (GuardWorld GitHubWorld)}

/-- What the breaker's part in a moment is, when it is closed. -/
theorem answered_of_closed {m : GitHubMoment}
    (hm : m ∈ (gitHubMachine inst).moments operating ⟨w, []⟩ ss)
    (hop : m.occurrence.op = .admission)
    (hclosed : (m.world.breaker (inst m.thread)).state = .closed) : Answering m.occurrence := by
  obtain ⟨choice, w', hperform⟩ := Machine.performed_of_mem_moments hm
  obtain ⟨thread, world, op, answer⟩ := m
  obtain rfl : op = .admission := hop
  obtain ⟨-, hanswer⟩ := perform_admission hperform
  rw [CircuitBreaker.admission_of_closed hclosed] at hanswer
  obtain rfl : answer = .ok () := hanswer
  rfl

/-- An operation in any interleaving of the clients, the requests of which GitHub answers while the
breaker is closed: whatever the answers are, it fails only by a definite refusal or after as many
refusals in a row as it has attempts, exactly when none of the authentication's refusals may pass
and no delay overflows. -/
theorem answered_operation_iff
    (hrun : (gitHubMachine inst).exec operating ⟨w, []⟩ ss = some c)
    (hlabel : (Machine.started ss)[i]? = some (client, op))
    (hdone : c.threads[i]? = some (.done r))
    (hanswered : ∀ m ∈ (gitHubMachine inst).moments operating ⟨w, []⟩ ss, m.thread = i →
      m.occurrence.op ≠ .admission → Answering m.occurrence)
    (hclosed : ∀ m ∈ (gitHubMachine inst).moments operating ⟨w, []⟩ ss, m.thread = i →
      m.occurrence.op = .admission → (m.world.breaker (inst i)).state = .closed) :
    (∀ e, r = .error e → FailsRightly client.retryPolicy.maxAttempts op.Unrenderable e
        (answersIn (Machine.own i ((gitHubMachine inst).moments operating ⟨w, []⟩ ss)))) ↔
      Retries client.retryPolicy.maxAttempts
        (answersIn (Machine.own i ((gitHubMachine inst).moments operating ⟨w, []⟩ ss))) := by
  have hbody : ∀ request : RealGitHubClient × GitHubOperation,
      (operating request).Follows (fun _ _ => True) (fun r h => (∀ o ∈ h, Answering o) →
        Sails request.1.retryPolicy.maxAttempts request.2.Unrenderable (fun _ => True) r
          (answersIn h)) [] := by
    intro request
    have hstart : Sailing request.1.retryPolicy.maxAttempts [] := by
      refine ⟨by simp, Or.inr fun earlier hearlier => ?_⟩
      rw [List.suffix_nil.mp hearlier]
      simp [refusalsInARow]
    exact (weathers_operation request.2 [] hstart rfl [] rfl).follows
      (Program.issues_of_forall (fun _ => trivial) _)
  obtain ⟨hfollowing, -⟩ := Machine.moments_follow (C := fun _ _ _ => True)
    (J := fun _ _ => True) hbody (fun _ _ _ _ _ _ _ _ _ _ _ _ => trivial)
    (fun _ _ _ _ _ _ => trivial) hrun trivial
  set past := (gitHubMachine inst).moments operating ⟨w, []⟩ ss
  obtain ⟨label, hlabel', hfollows⟩ := hfollowing.follows i _ hdone
  obtain rfl : (client, op) = label := Option.some.inj (hlabel.symm.trans hlabel')
  have hall : ∀ o ∈ Machine.own i past, Answering o := by
    intro o ho
    obtain ⟨m, hmem, rfl, rfl⟩ := Machine.exists_of_mem_own ho
    by_cases hadmission : m.occurrence.op = .admission
    · exact answered_of_closed hmem hadmission (hclosed m hmem rfl hadmission)
    · exact hanswered m hmem rfl hadmission
  have hends := hfollows hall
  cases r with
  | ok u => exact iff_of_true (by simp) hends.2.1.retries
  | error e =>
    have hiff : FailsRightly client.retryPolicy.maxAttempts op.Unrenderable e
        (answersIn (Machine.own i past)) ↔ Retries client.retryPolicy.maxAttempts
          (answersIn (Machine.own i past)) := hends
    rw [← hiff]
    simp

end

/-- GitHub is overloaded. -/
def overloaded : SessionEvent :=
  .act (.dep (.answers fun request => { request.healthyAnswer with statusCode := 503 }))

/-- One operation of a client that knows nothing yet, as thread 0. -/
def coldOperation (es : List SessionEvent) : List OperationSched :=
  .start (RealGitHubClient.default "1", .getPrMetadata .sample) :: es.map (Machine.Event.on 0)

/-- The schedule of an operation the lookup of which meets an overload. -/
def lookupOverloaded : List SessionEvent :=
  mintsJwt ++ [.act .go, .act (.dep .go), overloaded, .act .go]

/-- The schedule of an operation the request of which meets an overload, and is made again. -/
def requestOverloaded : List SessionEvent :=
  mintsJwt ++ lookupAnswered ++ exchangeAnswered ++
    [.act .go, overloaded, .act .go, .act (.rand 0)] ++ requestAnswered

/-- The answers that the operation of a schedule has seen. -/
def seenBy (es : List SessionEvent) : List GitHubAnswer :=
  answersIn (Machine.own 0
    ((gitHubMachine fun _ => 0).moments operating ⟨coldWorld, []⟩ (coldOperation es)))

/-- The operation of a schedule has ended so. -/
def endsWith (c : Machine.Config (Guarded GitHubSignature) Exc Unit (GuardWorld GitHubWorld))
    (P : Except Exc Unit → Bool) : Bool :=
  match c.threads.head? with
  | some (.done r) => P r
  | _ => false

theorem endsWith_iff {c : Machine.Config (Guarded GitHubSignature) Exc Unit (GuardWorld GitHubWorld)}
    {P : Except Exc Unit → Bool} :
    endsWith c P = true ↔ ∃ r, c.threads[0]? = some (.done r) ∧ P r = true := by
  rw [← List.head?_eq_getElem?]
  unfold endsWith
  split
  · rename_i r hthread
    simp [hthread]
  · rename_i hnot
    simp only [Bool.false_eq_true, false_iff]
    rintro ⟨r, hthread, -⟩
    exact hnot r hthread

/-- One overload of the installation lookup ends the operation, with two attempts left. -/
theorem lookup_not_retried :
    ∃ c e, (gitHubMachine fun _ => 0).exec operating ⟨coldWorld, []⟩
        (coldOperation lookupOverloaded) = some c ∧
      c.threads[0]? = some (.done (.error e)) ∧ (c.world.breaker 0).state = .closed ∧
      (seenBy lookupOverloaded).map (fun a => a.2.statusCode) = [503] ∧
      ¬ FailsRightly (RealGitHubClient.default "1").retryPolicy.maxAttempts
        (GitHubOperation.getPrMetadata .sample).Unrenderable e (seenBy lookupOverloaded) := by
  have hrun : ((gitHubMachine fun _ => 0).exec operating ⟨coldWorld, []⟩
      (coldOperation lookupOverloaded)).any (fun c => endsWith c fun r =>
        !r.isOk && decide ((c.world.breaker 0).state = .closed)) = true := by
    decide +kernel
  have hstatus : (seenBy lookupOverloaded).map (fun a => a.2.statusCode) = [503] := by
    decide +kernel
  have hrow : refusalsInARow (seenBy lookupOverloaded) = 1 := by
    decide +kernel
  have hlast : ∀ a ∈ (seenBy lookupOverloaded).head?, ¬ Definite a := by
    decide +kernel
  obtain ⟨c, hc, hends⟩ := (Option.any_eq_true _ _).mp hrun
  obtain ⟨r, hthread, hfacts⟩ := endsWith_iff.mp hends
  obtain ⟨hfailed, hclosed⟩ := Bool.and_eq_true_iff.mp hfacts
  cases r with
  | ok u => cases hfailed
  | error e =>
    refine ⟨c, e, hc, hthread, of_decide_eq_true hclosed, hstatus, ?_⟩
    rintro (hexhausted | ⟨a, hhead, hdefinite⟩ | ⟨hzero, -⟩)
    · rw [hrow] at hexhausted
      exact absurd hexhausted (by decide)
    · exact hlast a hhead hdefinite
    · rw [hrow] at hzero
      cases hzero

instance : DecidablePred Answering
  | ⟨.dep (.http _ _), .ok response⟩ =>
    inferInstanceAs (Decidable (response.statusCode < 300 → response.json.isOk = true))
  | ⟨.dep (.http _ _), .error _⟩ => isFalse fun h => h
  | ⟨.dep (.sign _), _⟩ | ⟨.admission, _⟩ => inferInstanceAs (Decidable (Except.isOk _ = true))
  | ⟨.dep .now, _⟩ | ⟨.dep (.resolved ..), _⟩ | ⟨.dep (.storeResolved ..), _⟩
  | ⟨.dep (.cachedToken _), _⟩ | ⟨.dep (.storeToken ..), _⟩ | ⟨.dep (.cachedDiff _), _⟩
  | ⟨.dep (.storeDiff ..), _⟩ | ⟨.dep .rounds, _⟩ | ⟨.dep .loops, _⟩
  | ⟨.recordFailure, _⟩ | ⟨.recordSuccess, _⟩ | ⟨.sleep _, _⟩ | ⟨.rand, _⟩ => isTrue trivial

/-- An overload of the request itself is weathered. -/
theorem answered_operation_requestOverloaded :
    ∃ c r, (gitHubMachine fun _ => 0).exec operating ⟨coldWorld, []⟩
        (coldOperation requestOverloaded) = some c ∧
      c.threads[0]? = some (.done r) ∧ ∀ e, r = .error e →
        FailsRightly (RealGitHubClient.default "1").retryPolicy.maxAttempts
          (GitHubOperation.getPrMetadata .sample).Unrenderable e (seenBy requestOverloaded) := by
  have hrun : ((gitHubMachine fun _ => 0).exec operating ⟨coldWorld, []⟩
      (coldOperation requestOverloaded)).any (fun c => endsWith c fun _ => true) = true := by
    decide +kernel
  have hanswered : ∀ m ∈ (gitHubMachine fun _ => 0).moments operating ⟨coldWorld, []⟩
      (coldOperation requestOverloaded), Answering m.occurrence ∧
        (m.world.breaker 0).state = .closed := by
    decide +kernel
  have hauthenticated : ∀ a ∈ seenBy requestOverloaded, a.1.authenticates = true → ¬ Refused a := by
    decide +kernel
  obtain ⟨c, hc, hends⟩ := (Option.any_eq_true _ _).mp hrun
  obtain ⟨r, hthread, -⟩ := endsWith_iff.mp hends
  refine ⟨c, r, hc, hthread, ?_⟩
  refine (answered_operation_iff hc rfl hthread (fun m hm _ _ => (hanswered m hm).1)
    fun m hm _ _ => (hanswered m hm).2).mpr ⟨fun a ha hauth hrefused => ?_, Or.inl (by decide)⟩
  exact absurd hrefused (hauthenticated a ha hauth)

end ReviewAgent
