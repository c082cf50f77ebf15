import Mathlib.Tactic.Linarith
import ReviewAgent.Integrations.GitHubClient

/-! A client's breaker over whole sessions: when an outage of GitHub opens it, and how it closes. -/
namespace ReviewAgent

open Effects
open Relation (ReflTransGen)

/-- The request failed with an error that the client retries. -/
def Sent.failsRetryably (sent : Sent) : Bool :=
  match sent.sending with
  | .answered response =>
    match sent.request.statusError response.toReply with
    | .ok _ => false
    | .error e => decide (Retryable gitHubNonRetryableExceptions e)
  | .lost _ e => decide (Retryable gitHubNonRetryableExceptions e)

/-- How many requests in a row, up to the latest one, failed retryably. -/
def streak (log : List Sent) : ℕ := (log.takeWhile Sent.failsRetryably).length

theorem streak_cons_le (sent : Sent) (log : List Sent) :
    streak (sent :: log) ≤ streak log + 1 := by
  simp only [streak, List.takeWhile_cons]
  split <;> simp

theorem streak_cons_of_not {sent : Sent} {log : List Sent} (h : sent.failsRetryably = false) :
    streak (sent :: log) = 0 := by
  simp [streak, h]

/-- What a session's steps are about: the breaker, the calls in progress, the requests made. -/
structure Watch where
  breaker : CircuitBreaker
  running : List (Call GitHubWorld)
  log : List Sent

def watch (k : ℕ) (w : GuardWorld GitHubWorld) : Watch := ⟨w.breaker k, w.running, w.dep.log⟩

namespace Watch

/-- The steps a session takes, one call at a time: what each finds and what it changes. -/
inductive Step (i : ℕ) (now : ℚ) (s : Watch) : Watch → Prop
  | same : Step i now s s
  | admission (found : GitHubWorld) (hidle : s.running = []) (hfound : found.log = s.log) :
    Step i now s
      { s with
        breaker := (s.breaker.admission now).1
        running :=
          if s.breaker.admits now then [⟨i, (s.breaker.admission now).1.state, found⟩] else [] }
  | request (call : Call GitHubWorld) (sent : Sent) (hcall : s.running = [call]) :
    Step i now s { s with log := sent :: s.log }
  | failure (call : Call GitHubWorld) (hcall : s.running = [call])
    (hstreak : streak s.log ≤ s.breaker.consecutiveFailures + 1) :
    Step i now s { s with breaker := s.breaker.recordFailure now, running := [] }
  | success (call : Call GitHubWorld) (hcall : s.running = [call])
    (hentered : call.entered = s.breaker.state) (hstreak : streak s.log = 0)
    (hsent : call.entered = .closed ∨
      ∃ sent, s.log = sent :: call.found.log ∧ sent.succeeds = true) :
    Step i now s { s with breaker := s.breaker.recordSuccess, running := [] }

/-- Every failure in the streak has been counted, a breaker that has counted enough of them is not
closed, and an open one has no call in progress. -/
structure Sound (s : Watch) : Prop where
  counted : s.running = [] → streak s.log ≤ s.breaker.consecutiveFailures
  closed : s.breaker.state = .closed →
    s.breaker.consecutiveFailures < s.breaker.config.failureThreshold
  opened : s.breaker.state = .opened → s.running = []

/-- Since the log was `log`, the breaker has not been closed again without a success. -/
structure Since (log : List Sent) (s : Watch) : Prop where
  grown : log <:+ s.log
  found : ∀ call ∈ s.running, log <:+ call.found.log
  closed : s.breaker.state = .closed → ∃ new, s.log = new ++ log ∧ ∃ sent ∈ new, sent.succeeds

variable {i : ℕ} {now : ℚ} {s s' : Watch}

theorem Sound.step (h : s.Sound) (hs : s.Step i now s') : s'.Sound := by
  cases hs with
  | same => exact h
  | admission found hidle hfound =>
    refine ⟨fun _ => ?_, fun hclosed => ?_, fun hopen => ?_⟩
    · simpa using h.counted hidle
    · simpa using h.closed (CircuitBreaker.admission_state_closed.mp hclosed)
    · dsimp only
      split
      · rename_i hadmits
        exact absurd hopen (CircuitBreaker.admission_state_of_admits hadmits)
      · rfl
  | request call sent hcall => exact ⟨fun hidle => by simp [hcall] at hidle, h.closed, h.opened⟩
  | failure call hcall hstreak =>
    refine ⟨fun _ => by simpa using hstreak, fun hclosed => ?_, fun _ => rfl⟩
    simpa using (CircuitBreaker.recordFailure_closed.mp hclosed).2
  | success call hcall hentered hstreak hsent =>
    exact ⟨fun _ => hstreak.le, fun _ => s.breaker.config.one_le_failureThreshold, fun _ => rfl⟩

theorem Since.step {log : List Sent} (h : s.Since log) (hs : s.Step i now s') :
    s'.Since log := by
  cases hs with
  | same => exact h
  | admission found hidle hfound =>
    refine ⟨h.grown, fun call hcall => ?_, fun hclosed => ?_⟩
    · have hfound' : call.found = found := by
        dsimp only at hcall
        split at hcall <;> simp_all
      rw [hfound', hfound]
      exact h.grown
    · exact h.closed (CircuitBreaker.admission_state_closed.mp hclosed)
  | request call sent hcall =>
    refine ⟨h.grown.trans (List.suffix_cons _ _), h.found, fun hclosed => ?_⟩
    obtain ⟨new, hnew, s₀, hs₀, hsucc⟩ := h.closed hclosed
    exact ⟨sent :: new, by simp [hnew], s₀, List.mem_cons_of_mem _ hs₀, hsucc⟩
  | failure call hcall hstreak =>
    refine ⟨h.grown, by simp, fun hclosed => ?_⟩
    exact h.closed (CircuitBreaker.recordFailure_closed.mp hclosed).1
  | success call hcall hentered hstreak hsent =>
    refine ⟨h.grown, by simp, fun _ => ?_⟩
    rcases hsent with hclosed | ⟨sent, hlog, hsucc⟩
    · exact h.closed (hentered ▸ hclosed)
    · -- the call was admitted after `log`, and its own request succeeded
      obtain ⟨new, hnew⟩ := h.found call (by simp [hcall])
      exact ⟨sent :: new, by simp [hlog, hnew], sent, by simp, hsucc⟩

/-- An open breaker whose window has not elapsed rejects every call. -/
theorem step_of_opened (hopen : s.breaker.state = .opened) {t : ℚ}
    (ht : s.breaker.openedAt = some t)
    (hnow : now < t + s.breaker.config.resetTimeoutSeconds) (hsound : s.Sound)
    (hs : s.Step i now s') : s' = s := by
  have hidle := hsound.opened hopen
  have hdue : s.breaker.due now = false := by
    rw [← Bool.not_eq_true, CircuitBreaker.due_iff]
    rintro ⟨-, t', ht', hle⟩
    obtain rfl : t = t' := Option.some.inj (ht.symm.trans ht')
    linarith
  cases hs with
  | same => rfl
  | admission found _ hfound =>
    have hadmission := CircuitBreaker.admission_of_opened hopen hdue
    simp [CircuitBreaker.admits, hadmission, Except.isOk, Except.toBool, ← hidle]
  | request call sent hcall => simp [hidle] at hcall
  | failure call hcall => simp [hidle] at hcall
  | success call hcall => simp [hidle] at hcall

end Watch

/-- Between two calls. -/
def Watch.Idle (s : Watch) : Prop := s.Sound ∧ s.running = []

/-- Thread `i` is inside the call `call`, in the state it was admitted in. -/
structure Watch.Inside (i : ℕ) (call : Call GitHubWorld) (s : Watch) : Prop where
  sound : s.Sound
  running : s.running = [call]
  thread : call.thread = i
  entered : call.entered = s.breaker.state
  counted : streak call.found.log ≤ s.breaker.consecutiveFailures

/-- Inside a call that has not sent its request yet. -/
def Watch.Admitted (i : ℕ) (s : Watch) : Prop :=
  ∃ call, s.Inside i call ∧ s.log = call.found.log

/-- Inside a call that is about to fail. -/
def Watch.Failing (i : ℕ) (s : Watch) : Prop :=
  ∃ call, s.Inside i call ∧ streak s.log ≤ s.breaker.consecutiveFailures + 1

/-- Inside a call that is about to succeed: on the strength of its own request, or in a closed
breaker with no failure to its name. -/
def Watch.Succeeding (i : ℕ) (s : Watch) : Prop :=
  ∃ call, s.Inside i call ∧ streak s.log = 0 ∧
    (call.entered = .closed ∨ ∃ sent, s.log = sent :: call.found.log ∧ sent.succeeds = true)

/-- After the function that a call runs. -/
def Watch.Ended {α : Type} (i : ℕ) : Except Exc α → Watch → Prop
  | .ok _, s => s.Succeeding i
  | .error e, s => s.Failing i ∧ e.isInstance .exception = true

theorem Watch.Admitted.failing {i : ℕ} {s : Watch} (h : s.Admitted i) : s.Failing i := by
  obtain ⟨call, hin, hlog⟩ := h
  exact ⟨call, hin, by rw [hlog]; exact Nat.le_succ_of_le hin.counted⟩

/-- One session at a time: others move the clocks only. -/
def sessionContract (i k : ℕ) : Contract (GuardWorld GitHubWorld) where
  rely w w' := watch k w' = watch k w ∧ w.clock ≤ w'.clock
  guarantee w w' := (watch k w).Step i w.clock (watch k w') ∧ w.clock ≤ w'.clock

theorem stable_watch {i k : ℕ} (P : Watch → Prop) :
    Stable (sessionContract i k).rely fun w => P (watch k w) := by
  rintro w w' ⟨hwatch, -⟩ h
  simpa only [hwatch] using h

/-- No cached lookup is answered while the breaker is half-open or the latest request failed
retryably; and nobody else uses the breaker. -/
def cachedOnlyWhenHealthy (inst : ℕ → ℕ) : Condition (Guarded GitHubSignature)
    (GuardWorld GitHubWorld) (GuardChoice GitHubChoice) (GuardMove GitHubMove) where
  act i w op _ :=
    match op with
    | .dep (.resolved owner repo) =>
      ((w.dep.clients (inst i)).resolved (owner, repo)).isSome = true →
        (w.breaker (inst i)).state = .closed ∧ streak w.dep.log = 0
    | .dep (.cachedToken installationId) =>
      (freshToken ((w.dep.clients (inst i)).tokens installationId) w.dep.wallClock).isSome = true →
        (w.breaker (inst i)).state = .closed ∧ streak w.dep.log = 0
    | _ => True
  move _ m :=
    match m with
    | .tick _ | .dep _ => True
    | .otherAdmit _ | .otherFailure _ | .otherSuccess _ => False

instance (inst i w op c) : Decidable ((cachedOnlyWhenHealthy inst).act i w op c) := by
  unfold cachedOnlyWhenHealthy
  dsimp only
  split <;> infer_instance

instance (inst w m) : Decidable ((cachedOnlyWhenHealthy inst).move w m) := by
  unfold cachedOnlyWhenHealthy
  dsimp only
  split <;> infer_instance

section

variable {client : RealGitHubClient} {inst : ℕ → ℕ} {i : ℕ}
  {N : Machine (Guarded GitHubSignature) (GuardWorld GitHubWorld) (GuardChoice GitHubChoice)
    (GuardMove GitHubMove)}

/-- An operation on a cache or a clock changes nothing the breaker depends on. -/
theorem quiet_bind (hN : N.Within (gitHubMachine inst)) {α : Type} {op : GitHubOp}
    {k : GitHubSignature.Answer op → Session α} {R : Except Exc α → GuardWorld GitHubWorld → Prop}
    (hop : ∀ request bearer, op ≠ .http request bearer) (P : Watch → Prop)
    (Q : GitHubSignature.Answer op → Watch → Prop)
    (h : ∀ w c w' answer, P (watch (inst i) w) →
      N.perform i w (.dep op) c = some (w', answer) → Q answer (watch (inst i) w))
    (hk : ∀ answer, Triple N i (sessionContract i (inst i))
      (fun w => Q answer (watch (inst i) w)) (k answer) R) :
    Triple N i (sessionContract i (inst i)) (fun w => P (watch (inst i) w))
      (dep op >>= k) R := by
  show Triple N i _ _ (.step (.dep op : GuardOp GitHubSignature) k) _
  apply Triple.step (stable_watch P) _ hk
  intro w c w' answer hw hp
  obtain ⟨c', d, rfl, hd, rfl⟩ := perform_dep (hN.perform _ _ _ _ _ hp)
  have hsame : watch (inst i) { w with dep := d } = watch (inst i) w := by
    simp [watch, (gitHub_quiet hd hop).2]
  exact ⟨⟨hsame ▸ .same, le_rfl⟩, by rw [hsame]; exact h _ _ _ _ hw hp⟩

/-- What the answer to a call's request leaves behind. -/
def Replied (inst : ℕ → ℕ) (i : ℕ) {request : GitHubRequest} (bearer : String)
    (response : Response request.Content) (s : Watch) : Prop :=
  onlyExceptions response.json = true ∧ ∃ call, s.Inside i call ∧
    s.log = ⟨i, inst i, request, bearer, .answered response⟩ :: call.found.log

theorem Watch.Inside.request {call : Call GitHubWorld} {s : Watch} (h : s.Inside i call)
    (sent : Sent) : ({ s with log := sent :: s.log } : Watch).Inside i call :=
  ⟨h.sound.step (show s.Step i 0 _ from .request call sent h.running), h.running, h.thread,
    h.entered, h.counted⟩

theorem http_triple (hN : N.Within (gitHubMachine inst)) {request : GitHubRequest}
    {bearer : String} :
    Triple N i (sessionContract i (inst i)) (fun w => (watch (inst i) w).Admitted i) (http request bearer)
      fun r w => match r with
        | .ok response => Replied inst i bearer response (watch (inst i) w)
        | .error e => (watch (inst i) w).Failing i ∧ e.isInstance .exception = true := by
  show Triple N i _ _ (.step (.dep (.http request bearer) : GuardOp GitHubSignature)
    fun answer : Except Exc (Response request.Content) => .done answer) _
  let Ends (answer : Except Exc (Response request.Content)) (s : Watch) : Prop :=
    match answer with
    | .ok response => Replied inst i bearer response s
    | .error e => s.Failing i ∧ e.isInstance .exception = true
  apply Triple.step (A := fun (answer : Except Exc (Response request.Content)) w =>
    Ends answer (watch (inst i) w)) (stable_watch (Watch.Admitted i))
  · rintro w c w' answer ⟨call, hin, hlog⟩ hp
    obtain ⟨c', d, rfl, hd, rfl⟩ := perform_dep (hN.perform _ _ _ _ _ hp)
    obtain ⟨sending, rfl, hwell, -, rfl⟩ := perform_http hd
    refine ⟨⟨.request call ⟨i, inst i, request, bearer, sending⟩ hin.running, le_rfl⟩, ?_⟩
    cases sending with
    | answered response =>
      exact ⟨hwell, call, hin.request _, congrArg (List.cons _) hlog⟩
    | lost applied e =>
      refine ⟨⟨call, hin.request _, ?_⟩, Exc.isInstance_of_isSubclass hwell rfl⟩
      calc streak (_ :: w.dep.log) ≤ streak w.dep.log + 1 := streak_cons_le _ _
        _ = streak call.found.log + 1 := by rw [show w.dep.log = call.found.log from hlog]
        _ ≤ (w.breaker (inst i)).consecutiveFailures + 1 := Nat.succ_le_succ hin.counted
  · intro answer
    exact Triple.done (stable_watch (Ends answer)) fun _ hw => by cases answer <;> exact hw

theorem Replied.failing {request : GitHubRequest} {bearer : String}
    {response : Response request.Content} {s : Watch} (h : Replied inst i bearer response s) :
    s.Failing i := by
  obtain ⟨-, call, hin, hlog⟩ := h
  refine ⟨call, hin, ?_⟩
  rw [hlog]
  exact (streak_cons_le _ _).trans (Nat.succ_le_succ hin.counted)

/-- A request that the code accepts ends the streak. -/
theorem Replied.succeeding {request : GitHubRequest} {bearer : String}
    {response : Response request.Content} {s : Watch} (h : Replied inst i bearer response s)
    (hok : request.statusError response.toReply = .ok ()) : s.Succeeding i := by
  obtain ⟨-, call, hin, hlog⟩ := h
  refine ⟨call, hin, ?_, Or.inr ⟨_, hlog, ?_⟩⟩
  · rw [hlog]
    exact streak_cons_of_not (by simp [Sent.failsRetryably, hok])
  · simpa [Sent.succeeds] using GitHubRequest.statusError_ok.mp hok

/-- Inside a call, an exception that is raised at once. -/
theorem raise_triple {α : Type} {P : Watch → Prop} {e : Exc} (h : ∀ s, P s → s.Failing i)
    (he : e.isInstance .exception = true) :
    Triple N i (sessionContract i (inst i)) (fun w => P (watch (inst i) w))
      (.done (.error e) : Session α) fun r w => (watch (inst i) w).Ended i r :=
  Triple.done (stable_watch P) fun _ hw => ⟨h _ hw, he⟩

/-- `do` closures: the call succeeds when the status is accepted. -/
theorem attempt_triple (hN : N.Within (gitHubMachine inst)) {request : GitHubRequest}
    {bearer : String} :
    Triple N i (sessionContract i (inst i)) (fun w => (watch (inst i) w).Admitted i)
      (RealGitHubClient.attempt request bearer) fun r w => (watch (inst i) w).Ended i r := by
  apply (http_triple hN).bind _ fun e w hw => hw
  intro response
  cases hstatus : request.statusError response.toReply with
  | error e =>
    exact raise_triple (P := Replied inst i bearer response) (fun s hs => hs.failing)
      (GitHubRequest.statusError_exception hstatus)
  | ok u =>
    exact Triple.done (stable_watch (Replied inst i bearer response)) fun w hw =>
      hw.succeeding hstatus

/-- The end of the two authentication requests: check the status, then read the body. -/
theorem read_triple {request : GitHubRequest} {bearer : String}
    {response : Response request.Content} {status : Except Exc Unit}
    (hok : status = .ok () → request.statusError response.toReply = .ok ())
    (herror : ∀ e, status = .error e → e.isInstance .exception = true) :
    Triple N i (sessionContract i (inst i))
      (fun w => Replied inst i bearer response (watch (inst i) w))
      (Program.ofExcept status >>= fun _ => Program.ofExcept response.json)
      fun r w => (watch (inst i) w).Ended i r := by
  cases hstatus : status with
  | error e =>
    exact raise_triple (P := Replied inst i bearer response) (fun s hs => hs.failing)
      (herror e hstatus)
  | ok u =>
    show Triple N i _ _ (.done response.json) _
    cases hjson : response.json with
    | error e =>
      refine Triple.done (stable_watch (Replied inst i bearer response)) fun w hw =>
        ⟨hw.failing, ?_⟩
      simpa [hjson, onlyExceptions] using hw.1
    | ok a =>
      exact Triple.done (stable_watch (Replied inst i bearer response)) fun w hw =>
        hw.succeeding (hok hstatus)

theorem discover_triple (hN : N.Within (gitHubMachine inst)) {owner repo appJwt : String} :
    Triple N i (sessionContract i (inst i)) (fun w => (watch (inst i) w).Admitted i)
      (discoverInstallationId owner repo appJwt) fun r w => (watch (inst i) w).Ended i r := by
  apply (http_triple hN).bind _ fun e w hw => hw
  intro response
  apply read_triple
  · intro h
    simp [GitHubRequest.statusError, h, Except.mapError]
  · intro e h
    unfold installationStatusError at h
    split at h <;> cases h
    rfl

theorem exchange_triple (hN : N.Within (gitHubMachine inst)) {appJwt : String}
    {installationId : ℤ} :
    Triple N i (sessionContract i (inst i)) (fun w => (watch (inst i) w).Admitted i)
      (exchangeJwtForInstallationToken appJwt installationId)
      fun r w => (watch (inst i) w).Ended i r := by
  apply (http_triple hN).bind _ fun e w hw => hw
  intro response
  exact read_triple (fun h => h) fun e h =>
    @GitHubRequest.statusError_exception (.accessToken installationId) _ e h

/-- Minting a JWT needs no request; it can fail. -/
theorem mint_triple (hN : N.Within (gitHubMachine inst)) {appId : String} {now : ℚ}
    (P : Watch → Prop) :
    Triple N i (sessionContract i (inst i)) (fun w => P (watch (inst i) w)) (mintAppJwt appId now)
      fun r w => P (watch (inst i) w) ∧ onlyExceptions r = true := by
  apply quiet_bind hN (by simp) P fun outcome s => P s ∧ onlyExceptions outcome = true
  · intro w c w' outcome hw h
    obtain ⟨c', d, rfl, hd, rfl⟩ := perform_dep (hN.perform _ _ _ _ _ h)
    refine ⟨hw, ?_⟩
    cases c' <;> simp only [gitHub] at hd <;> try cases hd
    split at hd <;> cases hd
    assumption
  · intro outcome w hw
    cases outcome with
    | ok jwt => exact Triple.pure (stable_watch P) (fun w hw => ⟨hw, rfl⟩) w hw.1
    | error e =>
      dsimp only
      split
      · exact Triple.throw (stable_watch P) (fun w hw => ⟨hw, rfl⟩) w hw.1
      · exact Triple.throw (stable_watch P) (fun w h => ⟨h, hw.2⟩) w hw.1

/-- A cached lookup that is answered counts as a success, which it may be in a healthy breaker. -/
theorem Watch.Admitted.succeeding {s : Watch} (h : s.Admitted i)
    (hclosed : s.breaker.state = .closed) (hstreak : streak s.log = 0) : s.Succeeding i := by
  obtain ⟨call, hin, -⟩ := h
  exact ⟨call, hin, hstreak, Or.inl (hin.entered.trans hclosed)⟩

/-- What a cache of the client gave to a call. -/
def Watch.Looked {α : Type} (i : ℕ) (cached : Option α) (s : Watch) : Prop :=
  match cached with
  | some _ => s.Succeeding i
  | none => s.Admitted i

theorem authorize_triple {owner repo appJwt : String} :
    Triple ((gitHubMachine inst).under (cachedOnlyWhenHealthy inst)) i (sessionContract i (inst i))
      (fun w => (watch (inst i) w).Admitted i) (authorize owner repo appJwt)
      fun r w => (watch (inst i) w).Ended i r := by
  have hN := (gitHubMachine inst).under_within (cachedOnlyWhenHealthy inst)
  apply quiet_bind hN (by simp) (Watch.Admitted i) (Watch.Looked i)
  · intro w c w' cached hw h
    obtain ⟨hcond, h⟩ := Machine.perform_under.mp h
    obtain ⟨c', d, rfl, hd, -⟩ := perform_dep h
    cases c' <;> cases hd
    cases hcached : (w.dep.clients (inst i)).resolved (owner, repo) with
    | none => exact hw
    | some installationId =>
      obtain ⟨hclosed, hstreak⟩ := hcond (by simp [hcached])
      exact hw.succeeding hclosed hstreak
  · rintro (_ | installationId)
    · apply Triple.bind (R := fun r w => (watch (inst i) w).Ended i r)
      · apply (discover_triple hN).tryCatch fun a w hw => hw
        intro e w hw
        exact Triple.throw (stable_watch (Watch.Failing i))
          (fun w h => ⟨h, notFoundAsUnauthorized_exception hw.2⟩) w hw.1
      · intro installationId
        exact quiet_bind hN (by simp) (Watch.Succeeding i) (fun _ => Watch.Succeeding i)
          (fun _ _ _ _ h _ => h) fun _ => Triple.pure (stable_watch (Watch.Succeeding i))
            fun w hw => hw
      · exact fun e w hw => hw
    · exact Triple.pure (stable_watch (Watch.Succeeding i)) fun w hw => hw

theorem getToken_triple {appId : String} {installationId : ℤ} :
    Triple ((gitHubMachine inst).under (cachedOnlyWhenHealthy inst)) i (sessionContract i (inst i))
      (fun w => (watch (inst i) w).Admitted i) (getToken appId installationId)
      fun r w => (watch (inst i) w).Ended i r := by
  have hN := (gitHubMachine inst).under_within (cachedOnlyWhenHealthy inst)
  apply quiet_bind hN (by simp) (Watch.Admitted i)
    fun entry : Option InstallationToken × ℚ => Watch.Looked i (freshToken entry.1 entry.2)
  · intro w c w' entry hw h
    obtain ⟨hcond, h⟩ := Machine.perform_under.mp h
    obtain ⟨c', d, rfl, hd, -⟩ := perform_dep h
    cases c' <;> cases hd
    show Watch.Looked i (freshToken ((w.dep.clients (inst i)).tokens installationId)
      w.dep.wallClock) _
    cases hcached : freshToken ((w.dep.clients (inst i)).tokens installationId)
        w.dep.wallClock with
    | none => exact hw
    | some token =>
      obtain ⟨hclosed, hstreak⟩ := hcond (by simp [hcached])
      exact hw.succeeding hclosed hstreak
  · intro entry
    cases hfresh : freshToken entry.1 entry.2 with
    | some token => exact Triple.pure (stable_watch (Watch.Succeeding i)) fun w hw => hw
    | none =>
      apply (mint_triple hN (Watch.Admitted i)).bind
      · intro appJwt
        apply ((exchange_triple hN).pre fun w hw => hw.1).bind
        · intro token
          exact quiet_bind hN (by simp) (Watch.Succeeding i) (fun _ => Watch.Succeeding i)
            (fun _ _ _ _ h _ => h) fun _ => Triple.pure (stable_watch (Watch.Succeeding i))
              fun w hw => hw
        · exact fun e w hw => hw
      · exact fun e w hw => ⟨hw.1.failing, hw.2⟩

theorem watch_admission {w : GuardWorld GitHubWorld} (hidle : w.running = []) :
    watch (inst i) (w.admission i (inst i)) =
      { watch (inst i) w with
        breaker := ((w.breaker (inst i)).admission w.clock).1
        running := if (w.breaker (inst i)).admits w.clock then
          [⟨i, ((w.breaker (inst i)).admission w.clock).1.state, w.dep⟩] else [] } := by
  unfold GuardWorld.admission watch
  split <;> simp [hidle]

/-- Asking the breaker for admission, between two calls. -/
theorem enter_triple (hN : N.Within (gitHubMachine inst)) :
    Triple N i (sessionContract i (inst i)) (fun w => (watch (inst i) w).Idle)
      (enterBreaker (D := GitHubSignature)) fun r w =>
        match r with
        | .ok _ => (watch (inst i) w).Admitted i
        | .error _ => (watch (inst i) w).Idle := by
  let Entered (answer : Except Exc Unit) (s : Watch) : Prop :=
    match answer with
    | .ok _ => s.Admitted i
    | .error _ => s.Idle
  show Triple N i _ _ (.step (.admission : GuardOp GitHubSignature)
    fun answer : Except Exc Unit => .done answer) _
  apply Triple.step (A := fun (answer : Except Exc Unit) w => Entered answer (watch (inst i) w))
    (stable_watch Watch.Idle)
  · rintro w c w' answer ⟨hsound, hidle⟩ hp
    obtain ⟨rfl, rfl⟩ := perform_admission (hN.perform _ _ _ _ _ hp)
    have hstep : (watch (inst i) w).Step i w.clock (watch (inst i) (w.admission i (inst i))) := by
      rw [watch_admission hidle]
      exact .admission w.dep hidle rfl
    have hsound' := hsound.step hstep
    refine ⟨⟨hstep, by simp⟩, ?_⟩
    rw [watch_admission hidle] at hsound' ⊢
    cases hanswer : ((w.breaker (inst i)).admission w.clock).2 with
    | error e =>
      refine ⟨hsound', ?_⟩
      simp [CircuitBreaker.admits, hanswer, Except.isOk, Except.toBool]
    | ok u =>
      refine ⟨⟨i, ((w.breaker (inst i)).admission w.clock).1.state, w.dep⟩,
        ⟨hsound', ?_, rfl, rfl, ?_⟩, rfl⟩
      · simp [CircuitBreaker.admits, hanswer, Except.isOk, Except.toBool]
      · simpa [watch] using hsound.counted hidle
  · intro answer
    exact Triple.done (stable_watch (Entered answer)) fun _ hw => by cases answer <;> exact hw

/-- Recording the outcome of a call. -/
theorem note_triple (hN : N.Within (gitHubMachine inst)) {op : GuardOp GitHubSignature}
    {P : Watch → Prop} (after : Watch → ℚ → Watch)
    (hop : ∀ w c w' answer, P (watch (inst i) w) →
      (gitHubMachine inst).perform i w op c = some (w', answer) →
      watch (inst i) w' = after (watch (inst i) w) w.clock ∧ w'.clock = w.clock)
    (hstep : ∀ s now, P s → s.Sound ∧ s.Step i now (after s now) ∧ (after s now).running = []) :
    Triple N i (sessionContract i (inst i)) (fun w => P (watch (inst i) w))
      (Program.perform op : Session _) (Returns fun w => (watch (inst i) w).Idle) := by
  apply Triple.perform (stable_watch P)
  · intro w c w' answer hw hp
    obtain ⟨hwatch, hclock⟩ := hop w c w' answer hw (hN.perform _ _ _ _ _ hp)
    obtain ⟨hsound, hs, hidle⟩ := hstep (watch (inst i) w) w.clock hw
    rw [← hwatch] at hs hidle
    exact ⟨⟨hs, hclock.ge⟩, by simpa using ⟨hsound.step hs, hidle⟩⟩
  · exact fun _ => (stable_watch Watch.Idle).returns

theorem noteFailure_triple (hN : N.Within (gitHubMachine inst)) :
    Triple N i (sessionContract i (inst i)) (fun w => (watch (inst i) w).Failing i)
      (noteFailure (D := GitHubSignature)) (Returns fun w => (watch (inst i) w).Idle) := by
  apply note_triple hN fun s now =>
    { s with breaker := s.breaker.recordFailure now, running := [] }
  · rintro w c w' answer ⟨call, hin, -⟩ h
    cases c <;> cases h
    have hrun : w.running = [call] := hin.running
    exact ⟨by simp [watch, GuardWorld.settle, GuardWorld.setBreaker, hrun, hin.thread], rfl⟩
  · rintro s now ⟨call, hin, hstreak⟩
    exact ⟨hin.sound, .failure call hin.running hstreak, rfl⟩

theorem noteSuccess_triple (hN : N.Within (gitHubMachine inst)) :
    Triple N i (sessionContract i (inst i)) (fun w => (watch (inst i) w).Succeeding i)
      (noteSuccess (D := GitHubSignature)) (Returns fun w => (watch (inst i) w).Idle) := by
  apply note_triple hN fun s _ =>
    { s with breaker := s.breaker.recordSuccess, running := [] }
  · rintro w c w' answer ⟨call, hin, -⟩ h
    cases c <;> cases h
    have hrun : w.running = [call] := hin.running
    exact ⟨by simp [watch, GuardWorld.settle, GuardWorld.setBreaker, hrun, hin.thread], rfl⟩
  · rintro s now ⟨call, hin, hstreak, hsent⟩
    exact ⟨hin.sound, .success call hin.running hin.entered hstreak hsent, rfl⟩

/-- A call leaves the breaker idle again, whatever becomes of it. -/
theorem idle_call_triple {α : Type} (hN : N.Within (gitHubMachine inst)) {func : Session α}
    (hfunc : Triple N i (sessionContract i (inst i)) (fun w => (watch (inst i) w).Admitted i) func
      fun r w => (watch (inst i) w).Ended i r) :
    Triple N i (sessionContract i (inst i)) (fun w => (watch (inst i) w).Idle)
      (CircuitBreaker.call func) fun _ w => (watch (inst i) w).Idle := by
  apply call_steps (E := fun w => (watch (inst i) w).Admitted i)
    (R := fun _ w => (watch (inst i) w).Idle) (fun _ => stable_watch Watch.Idle)
    (enter_triple hN) hfunc
  · rintro e w ⟨hfail, hexc⟩
    rw [noteRaised, if_pos hexc]
    exact noteFailure_triple hN w hfail
  · exact fun a => noteSuccess_triple hN

/-- Programs that start and end between two calls. -/
def Idles {α : Type} (inst : ℕ → ℕ) (i : ℕ) (p : Session α) : Prop :=
  Triple ((gitHubMachine inst).under (cachedOnlyWhenHealthy inst)) i (sessionContract i (inst i))
    (fun w => (watch (inst i) w).Idle) p fun _ w => (watch (inst i) w).Idle

theorem idles_done {α : Type} (r : Except Exc α) : Idles inst i (.done r) :=
  Triple.done (stable_watch Watch.Idle) fun _ hw => hw

theorem Idles.bind {α β : Type} {p : Session α} {f : α → Session β} (hp : Idles inst i p)
    (hf : ∀ a, Idles inst i (f a)) : Idles inst i (p >>= f) :=
  Triple.bind hp hf fun _ _ hw => hw

theorem idles_quiet {α : Type} {op : GitHubOp} {k : GitHubSignature.Answer op → Session α}
    (hop : ∀ request bearer, op ≠ .http request bearer) (hk : ∀ answer, Idles inst i (k answer)) :
    Idles inst i (dep op >>= k) :=
  quiet_bind (Machine.under_within _ _) hop Watch.Idle (fun _ => Watch.Idle)
    (fun _ _ _ _ h _ => h) hk

/-- An operation between calls that leaves the breaker alone. -/
theorem idles_pause (hN : N.Within (gitHubMachine inst)) {op : GuardOp GitHubSignature}
    (hop : ∀ w c w' answer, (gitHubMachine inst).perform i w op c = some (w', answer) →
      watch (inst i) w' = watch (inst i) w ∧ w.clock ≤ w'.clock) :
    Triple N i (sessionContract i (inst i)) (fun w => (watch (inst i) w).Idle)
      (Program.perform op : Session _) (Returns fun w => (watch (inst i) w).Idle) := by
  apply Triple.perform (stable_watch Watch.Idle)
  · intro w c w' answer hw hp
    obtain ⟨hwatch, hclock⟩ := hop w c w' answer (hN.perform _ _ _ _ _ hp)
    exact ⟨⟨hwatch ▸ .same, hclock⟩, by simpa [hwatch] using hw⟩
  · exact fun _ => (stable_watch Watch.Idle).returns

theorem idles_reliably {α : Type} {func : Session α}
    (hfunc : Triple ((gitHubMachine inst).under (cachedOnlyWhenHealthy inst)) i
      (sessionContract i (inst i)) (fun w => (watch (inst i) w).Admitted i) func
      fun r w => (watch (inst i) w).Ended i r) : Idles inst i (client.callReliably func) := by
  have hN := (gitHubMachine inst).under_within (cachedOnlyWhenHealthy inst)
  apply callReliably_invariant (stable_watch Watch.Idle) _ _ (idle_call_triple hN hfunc)
  · intro seconds hpos
    apply idles_pause hN
    intro w c w' answer h
    cases c <;> cases h
    exact ⟨rfl, by simpa using hpos.le⟩
  · apply idles_pause hN
    intro w c w' answer h
    cases c <;> simp only [guarded, guardPerform] at h <;> try cases h
    split at h <;> cases h
    exact ⟨rfl, le_rfl⟩

theorem idles_attempt {request : GitHubRequest} {bearer : String} :
    Idles inst i (client.callReliably (RealGitHubClient.attempt request bearer)) :=
  idles_reliably (attempt_triple (Machine.under_within _ _))

theorem idles_installationHeaders {owner repo : String} :
    Idles inst i (client.installationHeaders owner repo) := by
  apply idles_quiet (by simp)
  intro now
  apply Idles.bind
  · exact (mint_triple (Machine.under_within _ _) Watch.Idle).consequence (fun _ h => h)
      fun _ _ h => h.1
  · intro appJwt
    apply (idles_reliably authorize_triple).bind
    exact fun installationId => idles_reliably getToken_triple

theorem idles_changedFilesFrom {pr : PullRequest} {headers : String} (remaining page : ℕ)
    (files : List ChangedFile) :
    Idles inst i (client.changedFilesFrom pr headers remaining page files) := by
  induction remaining generalizing page files with
  | zero =>
    apply Triple.step (A := fun _ _ => False) (stable_watch Watch.Idle)
    · intro w c w' answer
      exact answer.elim
    · exact fun answer => answer.elim
  | succ remaining ih =>
    apply idles_attempt.bind
    intro response
    apply (idles_done _).bind
    intro batch
    split
    · exact idles_done _
    · split
      · exact idles_done _
      · exact ih _ _

theorem idles_getChangedFiles {pr : PullRequest} {headers : String} :
    Idles inst i (client.getChangedFiles pr headers) :=
  idles_quiet (by simp) fun rounds => idles_changedFilesFrom rounds 1 []

theorem idles_getDiffAndFiles {pr : PullRequest} {headSha : String} :
    Idles inst i (client.getDiffAndFiles pr headSha) := by
  apply idles_quiet (by simp)
  rintro (_ | value)
  · apply idles_installationHeaders.bind
    intro headers
    apply idles_attempt.bind
    intro response
    apply idles_getChangedFiles.bind
    exact fun changedFiles => idles_quiet (by simp) fun _ => idles_done _
  · exact idles_done _

theorem idles_postReviewComment {review : Review} :
    Idles inst i (client.postReviewComment review) := by
  apply idles_installationHeaders.bind
  intro headers
  apply Idles.bind
  · apply idles_attempt.bind
    exact fun response => (idles_done _).bind fun existing => idles_done _
  · rintro (_ | _)
    · apply idles_getDiffAndFiles.bind
      intro value
      apply (idles_done _).bind
      intro requestBody
      apply idles_attempt.bind
      exact fun response => (idles_done _).bind fun _ => idles_done _
    · exact idles_done _

theorem idles_operation (op : GitHubOperation) : Idles inst i (client.operation op) := by
  cases op with
  | getPrMetadata pr =>
    apply Idles.bind _ fun _ => idles_done _
    apply idles_installationHeaders.bind
    exact fun headers => idles_attempt.bind fun response => idles_done _
  | fetchDiff pr headSha =>
    apply Idles.bind _ fun _ => idles_done _
    exact idles_getDiffAndFiles.bind fun value => idles_done _
  | postReviewComment review => exact idles_postReviewComment

theorem idles_session (ops : List GitHubOperation) : Idles inst i (client.session ops) := by
  induction ops with
  | nil => exact idles_done _
  | cons op ops ih =>
    apply Idles.bind _ fun _ => ih
    exact (Triple.attempt (idles_operation op)).consequence (fun _ h => h)
      fun _ _ ⟨_, _, h⟩ => h

/-- The steps of a session, as its environment and the session itself make them. -/
def Moves (inst : ℕ → ℕ) (i : ℕ) (w w' : GuardWorld GitHubWorld) : Prop :=
  (sessionContract i (inst i)).rely w w' ∨ (sessionContract i (inst i)).guarantee w w'

theorem Moves.step {w w' : GuardWorld GitHubWorld} (h : Moves inst i w w') :
    (watch (inst i) w).Step i w.clock (watch (inst i) w') ∧ w.clock ≤ w'.clock := by
  rcases h with ⟨hwatch, hclock⟩ | h
  · exact ⟨hwatch ▸ .same, hclock⟩
  · exact h

theorem Watch.Sound.moves {w w' : GuardWorld GitHubWorld} (h : (watch (inst i) w).Sound)
    (hs : ReflTransGen (Moves inst i) w w') : (watch (inst i) w').Sound := by
  induction hs with
  | refl => exact h
  | tail _ hstep ih => exact ih.step hstep.step.1

theorem Watch.Since.moves {log : List Sent} {w w' : GuardWorld GitHubWorld}
    (h : (watch (inst i) w).Since log) (hs : ReflTransGen (Moves inst i) w w') :
    (watch (inst i) w').Since log := by
  induction hs with
  | refl => exact h
  | tail _ hstep ih => exact ih.step hstep.step.1

/-- Until the reset window has elapsed, an open breaker and the requests stay as they are. -/
theorem watch_of_opened {w w' : GuardWorld GitHubWorld} {t : ℚ}
    (hsound : (watch (inst i) w).Sound) (hopen : (w.breaker (inst i)).state = .opened)
    (ht : (w.breaker (inst i)).openedAt = some t)
    (hs : ReflTransGen (Moves inst i) w w')
    (hnow : w'.clock < t + (w.breaker (inst i)).config.resetTimeoutSeconds) :
    watch (inst i) w' = watch (inst i) w := by
  induction hs with
  | refl => rfl
  | tail _ hstep ih =>
    obtain ⟨hs, hclock⟩ := hstep.step
    have hsame := ih (hclock.trans_lt hnow)
    rw [hsame] at hs
    exact Watch.step_of_opened hopen ht (hclock.trans_lt hnow) hsound hs

/-- What an unused client's breaker looks like. -/
structure Watch.Fresh (s : Watch) : Prop where
  state : s.breaker.state = .closed
  consecutiveFailures : s.breaker.consecutiveFailures = 0
  running : s.running = []
  log : s.log = []

theorem Watch.Fresh.idle {s : Watch} (h : s.Fresh) : s.Idle := by
  refine ⟨⟨fun _ => ?_, fun _ => ?_, fun _ => h.running⟩, h.running⟩
  · simp [h.log, streak]
  · rw [h.consecutiveFailures]
    exact s.breaker.config.one_le_failureThreshold

theorem cachedOnlyWhenHealthy_rely {w w' : GuardWorld GitHubWorld} {m : GuardMove GitHubMove}
    (h : ((gitHubMachine inst).under (cachedOnlyWhenHealthy inst)).move w m = some w') :
    (sessionContract i (inst i)).rely w w' := by
  obtain ⟨hcond, h⟩ := Machine.move_under.mp h
  cases m with
  | tick seconds =>
    simp only [guarded, guardMove] at h
    split at h <;> cases h
    exact ⟨rfl, by simpa⟩
  | dep m =>
    obtain ⟨now⟩ := m
    cases h
    exact ⟨rfl, le_rfl⟩
  | _ => exact hcond.elim

/-- Over a whole session that takes nothing from a cache while the breaker is half-open or the
latest request failed retryably: a streak of failures as long as the threshold has opened the
breaker; once open, it lets no request pass until its window has elapsed, and it is closed again
only after a request that succeeded. -/
theorem circuit_opens {ops : List GitHubOperation} {w w₁ w₂ : GuardWorld GitHubWorld}
    {p₁ p₂ : Session Unit} {es₁ es₂ : List SessionEvent}
    (hfresh : (watch (inst i) w).Fresh)
    (hrun₁ : (gitHubMachine inst).run i w (client.session ops) es₁ = some (w₁, p₁))
    (hobey₁ : (gitHubMachine inst).Obeys (cachedOnlyWhenHealthy inst) i w (client.session ops) es₁)
    (hrun₂ : (gitHubMachine inst).run i w₁ p₁ es₂ = some (w₂, p₂))
    (hobey₂ : (gitHubMachine inst).Obeys (cachedOnlyWhenHealthy inst) i w₁ p₁ es₂) :
    (w₁.running = [] →
      (w₁.breaker (inst i)).config.failureThreshold ≤ streak w₁.dep.log →
        (w₁.breaker (inst i)).state ≠ .closed) ∧
      ((w₁.breaker (inst i)).state = .opened →
        (∀ t, (w₁.breaker (inst i)).openedAt = some t →
          w₂.clock < t + (w₁.breaker (inst i)).config.resetTimeoutSeconds →
            w₂.dep.log = w₁.dep.log) ∧
        ((w₂.breaker (inst i)).state = .closed →
          ∃ new, w₂.dep.log = new ++ w₁.dep.log ∧ ∃ sent ∈ new, sent.succeeds)) := by
  have hmove : ∀ v m v', ((gitHubMachine inst).under (cachedOnlyWhenHealthy inst)).move v m =
      some v' → (sessionContract i (inst i)).rely v v' := fun _ _ _ => cachedOnlyWhenHealthy_rely
  have hidle := hfresh.idle
  obtain ⟨hsafe₁, hmoves₁⟩ :=
    (idles_session ops w hidle).run hmove (Machine.run_under hrun₁ hobey₁)
  obtain ⟨-, hmoves₂⟩ := hsafe₁.run hmove (Machine.run_under hrun₂ hobey₂)
  have hsound := hidle.1.moves hmoves₁
  refine ⟨fun hrunning hstreak hclosed => ?_, fun hopen => ⟨fun t ht hnow => ?_, fun hclosed => ?_⟩⟩
  · have := hsound.counted hrunning
    have := hsound.closed hclosed
    simp only [watch] at *
    omega
  · exact congrArg Watch.log (watch_of_opened hsound hopen ht hmoves₂ hnow)
  · have hsince : (watch (inst i) w₁).Since w₁.dep.log :=
      ⟨List.suffix_refl _, by simp [hsound.opened hopen], fun h => by simp_all [watch]⟩
    exact (hsince.moves hmoves₂).closed hclosed

end

/-- The schedule of one request that times out; a retry follows at once. -/
def requestTimesOut : List SessionEvent :=
  [.act .go, .act (.dep (.lost false timeout)), .act .go, .act (.rand 0)]

/-- An operation of a warm client during an outage: two lookups, three timeouts. -/
def warmOutage : List SessionEvent :=
  mintsJwt ++ lookupHits ++ lookupHits ++ requestTimesOut ++ requestTimesOut ++
    [.act .go, .act (.dep (.lost false timeout)), .act .go]

/-- Two operations of a warm client fail six times in a row, and its breaker is still closed. -/
theorem warm_client_stays_closed :
    ∃ w r, (gitHubMachine id).run 0 warmWorld
        ((RealGitHubClient.default "1").session [.getPrMetadata .sample, .getPrMetadata .sample])
        (warmOutage ++ warmOutage) = some (w, .done r) ∧
      (w.running.isEmpty ∧ (w.breaker 0).config.failureThreshold ≤ streak w.dep.log ∧
        (w.breaker 0).state = .closed) := by
  have hfin : (gitHubMachine id).finishes 0 warmWorld
      ((RealGitHubClient.default "1").session [.getPrMetadata .sample, .getPrMetadata .sample])
      (warmOutage ++ warmOutage) (fun _ w => decide (w.running.isEmpty ∧
        (w.breaker 0).config.failureThreshold ≤ streak w.dep.log ∧
        (w.breaker 0).state = .closed)) = true := by
    decide +kernel
  obtain ⟨w, r, hrun, hcheck⟩ := Machine.exists_of_finishes hfin
  exact ⟨w, r, hrun, of_decide_eq_true hcheck⟩

/-- The schedule of an installation lookup that times out; a retry follows at once. -/
def discoveryTimesOut : List SessionEvent :=
  [.act .go, .act (.dep .go), .act (.dep (.lost false timeout)), .act .go, .act (.rand 0)]

/-- An outage that a cold client meets: five failed lookups open the breaker in the middle of the
second operation. -/
def coldOutage : List SessionEvent :=
  mintsJwt ++ discoveryTimesOut ++ discoveryTimesOut ++ discoveryTimesOut.dropLast ++
    mintsJwt ++ discoveryTimesOut ++ discoveryTimesOut ++ [.act .go]

/-- After the reset window the third operation's lookup is answered. -/
def recovery : List SessionEvent :=
  .move (.tick 30) :: mintsJwt ++
    [.act .go, .act (.dep .go), .act (.dep .healthy), .act (.dep .go), .act .go]

theorem circuit_opens_coldOutage :
    ∃ w₁ p₁ w₂ p₂,
      (gitHubMachine id).run 0 coldWorld ((RealGitHubClient.default "1").session
        [.getPrMetadata .sample, .getPrMetadata .sample, .getPrMetadata .sample]) coldOutage =
          some (w₁, p₁) ∧
      (gitHubMachine id).run 0 w₁ p₁ recovery = some (w₂, p₂) ∧
      (w₁.breaker 0).state ≠ .closed ∧ (w₂.breaker 0).state = .closed ∧
      ∃ new, w₂.dep.log = new ++ w₁.dep.log ∧ ∃ sent ∈ new, sent.succeeds := by
  have hreach : ((gitHubMachine id).run 0 coldWorld ((RealGitHubClient.default "1").session
      [.getPrMetadata .sample, .getPrMetadata .sample, .getPrMetadata .sample])
      coldOutage).any (fun x => decide (x.1.running.isEmpty ∧
        (x.1.breaker 0).config.failureThreshold ≤ streak x.1.dep.log ∧
        (x.1.breaker 0).state = .opened ∧
        (gitHubMachine id).Obeys (cachedOnlyWhenHealthy id) 0 x.1 x.2 recovery) &&
      ((gitHubMachine id).run 0 x.1 x.2 recovery).any fun y =>
        decide ((y.1.breaker 0).state = .closed)) = true := by
    decide +kernel
  obtain ⟨⟨w₁, p₁⟩, hrun₁, hcheck⟩ := (Option.any_eq_true _ _).mp hreach
  obtain ⟨hcheck₁, hcheck₂⟩ := (Bool.and_eq_true _ _).mp hcheck
  obtain ⟨hidle, hstreak, hopen, hobey₂⟩ := of_decide_eq_true hcheck₁
  obtain ⟨⟨w₂, p₂⟩, hrun₂, hclosed⟩ := (Option.any_eq_true _ _).mp hcheck₂
  have hresult := circuit_opens ⟨rfl, rfl, rfl, rfl⟩ hrun₁ (by decide +kernel)
    hrun₂ hobey₂
  exact ⟨w₁, p₁, w₂, p₂, hrun₁, hrun₂,
    hresult.1 (List.isEmpty_iff.mp hidle) hstreak, of_decide_eq_true hclosed,
    (hresult.2 hopen).2 (of_decide_eq_true hclosed)⟩

end ReviewAgent
