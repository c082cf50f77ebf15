import ReviewAgent.JobQueue.RedisArq
import ReviewAgent.Reliability.GuardedHistories

/-! A call through the queue's retry and breaker: what it does with every outcome of its function,
in whatever states it finds the breaker. -/
namespace ReviewAgent

open Effects

/-- A dependency that is one function. -/
abbrev FuncSignature (T : Type) : Signature where
  Op := Unit
  Answer _ := Except Exc T

section

variable {T : Type}

/-- Run the function once. -/
def invokeFunc : Program (Guarded (FuncSignature T)) Exc T := do
  let outcome ← dep (D := FuncSignature T) ()
  Program.ofExcept outcome

/-- The function ends as the environment decides, and leaves nothing behind. -/
def funcMachine (T : Type) : Machine (FuncSignature T) Unit (Except Exc T) Empty where
  perform _ w _ outcome := some (w, outcome)
  move _ m := m.elim

/-- Callers of the function, each through the breaker of its client. -/
abbrev funcCalls (T : Type) (inst : ℕ → ℕ) :
    Machine (Guarded (FuncSignature T)) (GuardWorld Unit) (GuardChoice (Except Exc T))
      (GuardMove Empty) :=
  guarded (funcMachine T) inst

/-- What a call has seen of breaker, function, clock and draws, newest first. -/
abbrev CallHistory (T : Type) : Type := List (Occurrence (Guarded (FuncSignature T)))

/-- The function is invoked. -/
def invokes (o : Occurrence (Guarded (FuncSignature T))) : Bool :=
  match o.op with
  | .dep _ => true
  | _ => false

/-- What an attempt raises, whether the breaker does or the function. -/
def raised? : Occurrence (Guarded (FuncSignature T)) → Option Exc
  | ⟨.admission, .error e⟩ => some e
  | ⟨.dep _, .error e⟩ => some e
  | _ => none

def funcInvocations (h : CallHistory T) : ℕ := h.countP invokes

/-- An attempt failed, and the queue's calls go on after it, attempts permitting. -/
def failsRetryably (o : Occurrence (Guarded (FuncSignature T))) : Bool :=
  (raised? o).any fun e => decide (Retryable queueNonRetryableExceptions e)

def retryableFailures (h : CallHistory T) : ℕ := h.countP failsRetryably

/-- All attempts up to the one whose delay overflows have failed, and the policy allows more. -/
def Overflowed (policy : RetryPolicy) (h : CallHistory T) : Prop :=
  maxFloatExponent + 2 < policy.maxAttempts ∧ maxFloatExponent + 2 ≤ retryableFailures h

/-- An attempt has raised what the queue's calls do not go on after. -/
def Ended (h : CallHistory T) : Prop :=
  ∃ o ∈ h, ∃ e, raised? o = some e ∧ ¬ Retryable queueNonRetryableExceptions e

/-- What a call may do next: ask the breaker first, record at most after its last attempt, and
invoke the function no more often than the policy says. -/
def MayDo (policy : RetryPolicy) (h : CallHistory T) (op : GuardOp (FuncSignature T)) : Prop :=
  (h = [] → op = .admission) ∧ (Ended h → op = .recordFailure) ∧
    ∀ u, op = .dep u → funcInvocations h < policy.maxAttempts

/-- Before attempt `n`. -/
structure Attempting (n : ℕ) (h : CallHistory T) : Prop where
  failures : retryableFailures h + 1 = n
  invocations : funcInvocations h < n
  running : ¬ Ended h

/-- After attempt `n`, which ended so. -/
def Attempted (n : ℕ) : Except Exc T → CallHistory T → Prop
  | .ok a, h => (⟨.dep (), .ok a⟩ : Occurrence (Guarded (FuncSignature T))) ∈ h ∧
      retryableFailures h + 1 = n
  | .error e, h =>
    if Retryable queueNonRetryableExceptions e then Attempting (n + 1) h
    else retryableFailures h + 1 = n ∧ ∃ o ∈ h, raised? o = some e

variable {policy : RetryPolicy} {n : ℕ} {h : CallHistory T}
  {o : Occurrence (Guarded (FuncSignature T))}

theorem ended_cons : Ended (o :: h) ↔
    (∃ e, raised? o = some e ∧ ¬ Retryable queueNonRetryableExceptions e) ∨ Ended h := by
  simp [Ended]

theorem retryableFailures_cons : retryableFailures (o :: h) =
    retryableFailures h + if failsRetryably o then 1 else 0 := by
  simp [retryableFailures, List.countP_cons]

theorem funcInvocations_cons : funcInvocations (o :: h) =
    funcInvocations h + if invokes o then 1 else 0 := by
  simp [funcInvocations, List.countP_cons]

/-- What raises nothing changes nothing before the next attempt but the invocations. -/
theorem Attempting.cons (hh : Attempting n h) (hraised : raised? o = none)
    (hinvokes : invokes o = false) : Attempting n (o :: h) where
  failures := by
    rw [retryableFailures_cons, failsRetryably, hraised]
    exact hh.failures
  invocations := by
    rw [funcInvocations_cons, hinvokes]
    exact hh.invocations
  running := by
    rw [ended_cons, hraised]
    simpa using hh.running

/-- An attempt that raises `e` has been made. -/
theorem Attempting.raises {e : Exc} (hh : Attempting n h) (hraised : raised? o = some e) :
    Attempted (T := T) n (.error e) (o :: h) := by
  simp only [Attempted]
  have hinvocations := hh.invocations
  have hfailures := hh.failures
  split
  · rename_i hretry
    have hcounts : failsRetryably o = true := by simp [failsRetryably, hraised, hretry]
    refine ⟨?_, ?_, ?_⟩
    · rw [retryableFailures_cons, hcounts]
      simpa using hfailures
    · rw [funcInvocations_cons]
      split <;> omega
    · rw [ended_cons, hraised]
      simpa [hretry] using hh.running
  · rename_i hnot
    refine ⟨?_, o, List.mem_cons_self, hraised⟩
    rw [retryableFailures_cons, failsRetryably, hraised]
    simpa [hnot] using hfailures

/-- Recording an outcome changes nothing of it. -/
theorem Attempted.recorded {r : Except Exc T} (hr : Attempted n r h) (hraised : raised? o = none)
    (hinvokes : invokes o = false) : Attempted n r (o :: h) := by
  have hsame : retryableFailures (o :: h) = retryableFailures h := by
    rw [retryableFailures_cons, failsRetryably, hraised]
    rfl
  cases r with
  | ok a => exact ⟨List.mem_cons_of_mem _ hr.1, hsame ▸ hr.2⟩
  | error e =>
    simp only [Attempted] at hr ⊢
    split
    · rename_i hretry
      rw [if_pos hretry] at hr
      exact hr.cons hraised hinvokes
    · rename_i hnot
      rw [if_neg hnot] at hr
      obtain ⟨hfailures, o', ho', he⟩ := hr
      exact ⟨hsame ▸ hfailures, o', List.mem_cons_of_mem _ ho', he⟩

/-- Attempt `n`: the breaker is asked, the function invoked once at most, its outcome recorded. -/
theorem attempt_follows (hh : Attempting n h) (hn : n ≤ policy.maxAttempts) :
    (CircuitBreaker.call (invokeFunc (T := T))).Follows (MayDo policy) (Attempted n) h := by
  have hrunning := hh.running
  refine ⟨⟨fun _ => rfl, fun hended => absurd hended hrunning, by simp⟩, ?_⟩
  rintro (e | u)
  · exact hh.raises rfl
  have hentered : Attempting n (⟨.admission, .ok u⟩ :: h : CallHistory T) := hh.cons rfl rfl
  refine ⟨⟨by simp, fun hended => absurd hended hentered.running, ?_⟩, ?_⟩
  · intro u' _
    exact lt_of_lt_of_le hentered.invocations hn
  rintro (e | a)
  · have hraises : Attempted (T := T) n (.error e)
        (⟨.dep (), .error e⟩ :: ⟨.admission, .ok u⟩ :: h) := hentered.raises rfl
    change Program.Follows _ _ _ ((noteRaised (D := FuncSignature T) e >>= fun _ =>
      (throw e : Program (Guarded (FuncSignature T)) Exc T)) >>= fun result =>
        noteSuccess >>= fun _ => pure result)
    unfold noteRaised
    split
    · exact ⟨⟨by simp, fun _ => rfl, by simp⟩, fun _ => hraises.recorded rfl rfl⟩
    · exact hraises
  · have hreturned : Attempted n (.ok a) (⟨.dep (), .ok a⟩ :: ⟨.admission, .ok u⟩ :: h) := by
      refine ⟨List.mem_cons_self, ?_⟩
      rw [retryableFailures_cons]
      exact hentered.failures
    have hrunning' : ¬ Ended (⟨.dep (), .ok a⟩ :: ⟨.admission, .ok u⟩ :: h : CallHistory T) := by
      rw [ended_cons]
      simpa [raised?] using hentered.running
    exact ⟨⟨by simp, fun hended => absurd hended hrunning', by simp⟩,
      fun _ => hreturned.recorded rfl rfl⟩

/-- Before a later attempt the call draws and sleeps, unless the delay overflows. -/
theorem backoff_follows (hh : Attempting n h) :
    (backoff policy (sleep (D := FuncSignature T)) rand n).Follows (MayDo policy)
      (fun r h' => Attempting n h' ∧
        match r with
        | .ok _ => n ≤ maxFloatExponent + 2
        | .error e => policy.delayForAttempt n = .error e) h := by
  unfold backoff
  split
  · rename_i hlater
    have hmay : ∀ h' : CallHistory T, Attempting n h' → ∀ op, (∀ u, op ≠ .dep u) →
        MayDo policy h' op := by
      intro h' hh' op hop
      refine ⟨?_, fun hended => absurd hended hh'.running, fun u hu => absurd hu (hop u)⟩
      rintro rfl
      have : (0 : ℕ) + 1 = n := hh'.failures
      omega
    cases hdelay : policy.delayForAttempt n with
    | error e => exact ⟨hh, rfl⟩
    | ok delay =>
      have hlimit := RetryPolicy.delayForAttempt_ok hdelay
      have hjitter : (jittered policy (rand (D := FuncSignature T)) delay).Follows (MayDo policy)
          (fun r h' => Attempting n h' ∧ r.isOk = true) h := by
        unfold jittered
        split
        · exact ⟨hmay h hh .rand (by simp), fun u => ⟨hh.cons rfl rfl, rfl⟩⟩
        · exact ⟨hh, rfl⟩
      refine Program.Follows.bind (R := fun r h' => h' = h ∧ r = .ok delay) ⟨rfl, rfl⟩ ?_ (by simp)
      rintro delay' h' ⟨rfl, hsame⟩
      obtain rfl := Except.ok.inj hsame
      refine hjitter.bind ?_ ?_
      · rintro seconds h'' ⟨hh'', -⟩
        split
        · exact ⟨hmay h'' hh'' (.sleep seconds) (by simp), fun u => ⟨hh''.cons rfl rfl, hlimit⟩⟩
        · exact ⟨hh'', hlimit⟩
      · rintro e h'' ⟨-, hok⟩
        cases hok
  · rename_i hfirst
    exact ⟨hh, by omega⟩

/-- How the retry loop ends: with a value, with what it does not go on after, with all attempts
used, or with a delay that overflows. -/
def Concluded (policy : RetryPolicy) : Except Exc T → CallHistory T → Prop
  | .ok _, h => ¬ Overflowed policy h
  | .error e, h =>
    (¬ Overflowed policy h ∧ ((∃ last, e = .retryExhausted policy.maxAttempts last) ∨
      (¬ Retryable queueNonRetryableExceptions e ∧ ∃ o ∈ h, raised? o = some e))) ∨
    (Overflowed policy h ∧ e.cls = .overflowError)

theorem delayForAttempt_overflows {e : Exc} (h : policy.delayForAttempt n = .error e) :
    e.cls = .overflowError := by
  unfold RetryPolicy.delayForAttempt at h
  split at h
  · cases h
  · split at h
    · obtain rfl := Except.error.inj h
      rfl
    · cases h

theorem retryable_of_overflows {e : Exc} (h : e.cls = .overflowError) :
    Retryable queueNonRetryableExceptions e := by
  simp [Retryable, Exc.isInstanceOfAny, queueNonRetryableExceptions, Exc.isInstance, h]
  decide

theorem attemptsFrom_follows (remaining : ℕ) (hremaining : remaining + n = policy.maxAttempts + 1)
    (hn : n ≤ policy.maxAttempts) (hh : Attempting n h) :
    (attemptsFrom (CircuitBreaker.call (invokeFunc (T := T))) policy queueNonRetryableExceptions
      sleep rand remaining n).Follows (MayDo policy) (Concluded policy) h := by
  induction remaining generalizing n h with
  | zero => omega
  | succ remaining ih =>
    refine (backoff_follows hh).bind ?_ ?_
    · rintro _ h' ⟨hh', hlimit⟩
      refine (attempt_follows hh' hn).tryCatch ?_ ?_
      · rintro a h'' ⟨-, hfailures⟩ ⟨-, hle⟩
        omega
      · intro e h'' hraised
        simp only [Attempted] at hraised
        split
        · rename_i hnon
          have hnot : ¬ Retryable queueNonRetryableExceptions e := by simp [Retryable, hnon]
          rw [if_neg hnot] at hraised
          exact Or.inl ⟨fun hover => by have := hover.2; omega, Or.inr ⟨hnot, hraised.2⟩⟩
        · rename_i hnon
          split
          · rename_i hexc
            have hretry : Retryable queueNonRetryableExceptions e := ⟨by simpa using hnon, hexc⟩
            rw [if_pos hretry] at hraised
            split
            · rename_i hlast
              obtain rfl : n = policy.maxAttempts := by omega
              exact Or.inl ⟨fun hover => by have := hover.1; omega, Or.inl ⟨e, rfl⟩⟩
            · exact ih (by omega) (by omega) hraised
          · rename_i hexc
            have hnot : ¬ Retryable queueNonRetryableExceptions e := by simp [Retryable, hexc]
            rw [if_neg hnot] at hraised
            exact Or.inl ⟨fun hover => by have := hover.2; omega, Or.inr ⟨hnot, hraised.2⟩⟩
    · rintro e h' ⟨hh', he⟩
      have hlimit := RetryPolicy.delayForAttempt_error he
      have hfailures := hh'.failures
      exact Or.inr ⟨⟨by omega, by omega⟩, delayForAttempt_overflows he⟩

/-- What leaves a call of the queue. -/
def Leaves (policy : RetryPolicy) : Except Exc T → CallHistory T → Prop
  | .ok _, h => ¬ Overflowed policy h
  | .error e, h =>
    (¬ Overflowed policy h ∧ (e.cls = .queueUnavailableError ∨
      (¬ Retryable queueNonRetryableExceptions e ∧
        ¬ e.isInstanceOfAny [.retryExhaustedError, .circuitOpenError] = true ∧
        ∃ o ∈ h, raised? o = some e))) ∨
    (Overflowed policy h ∧ e.cls = .overflowError)

theorem callReliably_follows (queue : RedisJobQueue) :
    (queue.callReliably (invokeFunc (T := T))).Follows (MayDo queue.retryPolicy)
      (Leaves queue.retryPolicy) [] := by
  have hstart : Attempting 1 ([] : CallHistory T) := ⟨rfl, Nat.zero_lt_one, by simp [Ended]⟩
  refine (attemptsFrom_follows queue.retryPolicy.maxAttempts rfl
    queue.retryPolicy.one_le_maxAttempts hstart).tryCatch (fun a h' ha => ha) ?_
  rintro e h' (⟨hnot, ⟨last, rfl⟩ | ⟨hfinal, hraised⟩⟩ | ⟨hover, he⟩)
  · exact Or.inl ⟨hnot, Or.inl rfl⟩
  · refine Or.inl ⟨hnot, ?_⟩
    unfold outward
    split
    · exact Or.inl rfl
    · rename_i hother
      exact Or.inr ⟨hfinal, hother, hraised⟩
  · have hother : ¬ e.isInstanceOfAny [.retryExhaustedError, .circuitOpenError] = true := by
      simp [Exc.isInstanceOfAny, Exc.isInstance, he]
      decide
    refine Or.inr ⟨hover, ?_⟩
    rw [outward, if_neg hother]
    exact he

/-- The call sees the breaker open: the breaker raises it, or the function does. -/
def ObservesOpen (o : Occurrence (Guarded (FuncSignature T))) : Prop :=
  ∃ e, raised? o = some e ∧ e.isInstance .circuitOpenError = true

/-- What is promised of a call of thread `i` from `w` on, which has seen `h` (newest first) and has
the program `rest` left. -/
structure Composes (queue : RedisJobQueue) (inst : ℕ → ℕ) (i : ℕ) (w : GuardWorld Unit)
    (es : List (Machine.Event (GuardChoice (Except Exc T)) (GuardMove Empty)))
    (h : CallHistory T) (rest : Program (Guarded (FuncSignature T)) Exc T) : Prop where
  attempts : funcInvocations h ≤ queue.retryPolicy.maxAttempts
  entry : (w.breaker (inst i)).state = .opened → (w.breaker (inst i)).due w.clock = false →
    (∃ choice es', es = .act choice :: es') →
      funcInvocations h = 0 ∧ ∀ o ∈ h, ∀ seconds, o.op ≠ .sleep seconds
  quiet : ∀ later o earlier, h = later ++ o :: earlier → ObservesOpen o →
    ∀ o' ∈ later, o'.op = .recordFailure
  escapes : ∀ e, rest = .done (.error e) → e.cls = .queueUnavailableError ∨
    (¬ Retryable queueNonRetryableExceptions e ∧
      ¬ e.isInstanceOfAny [.retryExhaustedError, .circuitOpenError] = true ∧
      (⟨.dep (), .error e⟩ : Occurrence (Guarded (FuncSignature T))) ∈ h)

variable {queue : RedisJobQueue} {inst : ℕ → ℕ} {i : ℕ} {w w' : GuardWorld Unit}
  {es : List (Machine.Event (GuardChoice (Except Exc T)) (GuardMove Empty))}
  {p : Program (Guarded (FuncSignature T)) Exc T}

theorem funcInvocations_le (hkept : Machine.Kept (MayDo policy) h) :
    funcInvocations h ≤ policy.maxAttempts := by
  induction h with
  | nil => exact Nat.zero_le _
  | cons o h ih =>
    obtain ⟨⟨-, -, hfew⟩, hrest⟩ := Machine.kept_cons_iff.mp hkept
    have hle := ih hrest
    rw [funcInvocations_cons]
    split
    · rename_i hinvokes
      obtain ⟨u, hu⟩ : ∃ u, o.op = .dep u := by
        unfold invokes at hinvokes
        split at hinvokes
        · rename_i u hu
          exact ⟨u, hu⟩
        · cases hinvokes
      have := hfew u hu
      omega
    · omega

/-- Once the call sees the breaker open, it records a failure at most. -/
theorem quiet_of_kept (hkept : Machine.Kept (MayDo policy) h)
    {later earlier : CallHistory T} (hsplit : h = later ++ o :: earlier) (hopen : ObservesOpen o)
    {o' : Occurrence (Guarded (FuncSignature T))} (ho' : o' ∈ later) : o'.op = .recordFailure := by
  obtain ⟨l₁, l₂, rfl⟩ := List.append_of_mem ho'
  obtain ⟨-, hended, -⟩ := hkept l₁ o' (l₂ ++ o :: earlier) (by simp [hsplit])
  obtain ⟨e, he, hcls⟩ := hopen
  refine hended ⟨o, by simp, e, he, fun hretry => ?_⟩
  have hnon := hretry.1
  simp [Exc.isInstanceOfAny, queueNonRetryableExceptions, hcls] at hnon

/-- A call that finds the breaker open within its window is turned away by it. -/
theorem occurrences_of_opened {choice : GuardChoice (Except Exc T)} {Q}
    (hp : p.Follows (MayDo policy) Q []) {rest : Program (Guarded (FuncSignature T)) Exc T}
    (hrun : (funcCalls T inst).run i w p (.act choice :: es) = some (w', rest))
    (hs : (w.breaker (inst i)).state = .opened)
    (hdue : (w.breaker (inst i)).due w.clock = false) :
    ∃ later o, (funcCalls T inst).occurrences i w p (.act choice :: es) = later ++ [o] ∧
      o.op = .admission ∧ ObservesOpen o := by
  cases p with
  | done r => simp [Machine.run] at hrun
  | step op next =>
    obtain rfl : op = .admission := hp.1.1 rfl
    simp only [Machine.run, Machine.occurrences] at hrun ⊢
    cases hw : (funcCalls T inst).perform i w .admission choice with
    | none => simp [hw] at hrun
    | some x =>
      obtain ⟨v, answer⟩ := x
      obtain ⟨-, rfl⟩ := perform_admission hw
      rw [CircuitBreaker.admission_of_opened hs hdue]
      refine ⟨_, _, rfl, rfl, _, rfl, ?_⟩
      simp [CircuitBreaker.circuitOpenError, Exc.isInstance]

/-- What the breaker raises says that it is open. -/
theorem raised_by_func {e : Exc} (ho : o ∈ (funcCalls T inst).occurrences i w p es)
    (he : raised? o = some e)
    (hother : ¬ e.isInstanceOfAny [.retryExhaustedError, .circuitOpenError] = true) :
    o = ⟨.dep (), .error e⟩ := by
  obtain ⟨v, choice, v', hperform⟩ := Machine.performed_of_mem_occurrences ho
  obtain ⟨op, answer⟩ := o
  cases op with
  | admission =>
    obtain ⟨-, rfl⟩ := perform_admission hperform
    cases hanswer : ((v.breaker (inst i)).admission v.clock).2 with
    | ok u => simp [raised?, hanswer] at he
    | error e' =>
      have hsame : e' = e := by simpa [raised?, hanswer] using he
      have hcls := CircuitBreaker.admission_error hanswer
      rw [hsame] at hcls
      simp [Exc.isInstanceOfAny, Exc.isInstance, hcls] at hother
  | dep u =>
    cases answer with
    | ok a => cases he
    | error e' => rw [Option.some.inj he]
  | recordFailure => cases he
  | recordSuccess => cases he
  | sleep seconds => cases he
  | rand => cases he

/-- A call keeps its promise in every run, unless it ends with all delays short of overflow used
up. -/
theorem composes_iff (queue : RedisJobQueue) (inst : ℕ → ℕ) (i : ℕ) (w w' : GuardWorld Unit)
    (es : List (Machine.Event (GuardChoice (Except Exc T)) (GuardMove Empty)))
    (rest : Program (Guarded (FuncSignature T)) Exc T)
    (hrun : (funcCalls T inst).run i w (queue.callReliably invokeFunc) es = some (w', rest)) :
    Composes queue inst i w es
        ((funcCalls T inst).occurrences i w (queue.callReliably invokeFunc) es) rest ↔
      ∀ r, rest = .done r → ¬ Overflowed queue.retryPolicy
        ((funcCalls T inst).occurrences i w (queue.callReliably invokeFunc) es) := by
  obtain ⟨hfollows, hkept⟩ :=
    Machine.run_follows (callReliably_follows queue) Machine.kept_nil hrun
  rw [List.append_nil] at hfollows hkept
  constructor
  · rintro hcomposes r rfl hover
    cases r with
    | ok a => exact hfollows hover
    | error e =>
      obtain ⟨hnot, -⟩ | ⟨-, hcls⟩ := hfollows
      · exact hnot hover
      rcases hcomposes.escapes e rfl with hunavailable | ⟨hfinal, -⟩
      · cases hcls.symm.trans hunavailable
      · exact hfinal (retryable_of_overflows hcls)
  · intro hnot
    refine ⟨funcInvocations_le hkept, ?_, ?_, ?_⟩
    · rintro hs hdue ⟨choice, es', rfl⟩
      obtain ⟨later, o, hh, ho, hopen⟩ :=
        occurrences_of_opened (callReliably_follows queue) hrun hs hdue
      have hquiet : ∀ o' ∈ later, o'.op = .recordFailure := fun o' ho' =>
        quiet_of_kept hkept hh hopen ho'
      have hops : ∀ o' ∈ (funcCalls T inst).occurrences i w (queue.callReliably invokeFunc)
          (.act choice :: es'), o'.op = .recordFailure ∨ o'.op = .admission := by
        intro o' ho'
        rw [hh] at ho'
        rcases List.mem_append.mp ho' with ho' | ho'
        · exact Or.inl (hquiet o' ho')
        · obtain rfl := List.mem_singleton.mp ho'
          exact Or.inr ho
      constructor
      · refine List.countP_eq_zero.mpr fun o' ho' => ?_
        rcases hops o' ho' with hop | hop <;> simp [invokes, hop]
      · intro o' ho' seconds
        rcases hops o' ho' with hop | hop <;> simp [hop]
    · exact fun later o earlier hsplit hopen o' ho' => quiet_of_kept hkept hsplit hopen ho'
    · rintro e rfl
      obtain ⟨-, hunavailable | ⟨hfinal, hother, o, ho, he⟩⟩ | ⟨hover, -⟩ := hfollows
      · exact Or.inl hunavailable
      · exact Or.inr ⟨hfinal, hother, raised_by_func ho he hother ▸ ho⟩
      · exact absurd hover (hnot _ rfl)

end

/-- The default queue, but that a call may make 1026 attempts. -/
def RedisJobQueue.persistent : RedisJobQueue :=
  { RedisJobQueue.default with
    retryPolicy := ⟨1026, 1 / 10, 2, true, by decide, defaultBaseDelay_nonneg, defaultBaseDelay_le⟩ }

def unreachable : Exc := .plain .osError "Redis is unreachable"

abbrev CallEvent : Type := Machine.Event (GuardChoice (Except Exc Unit)) (GuardMove Empty)

/-- An attempt is let through and fails; then another caller's success is recorded. -/
def failsOnce : List CallEvent :=
  [.act .go, .act (.dep (.error unreachable)), .act .go, .move (.otherSuccess 0)]

/-- The call's next attempt, at once. -/
def failsAgain : List CallEvent := .act (.rand 0) :: failsOnce

/-- Where such an attempt leaves the breaker. -/
def afterFailure (w : GuardWorld Unit) : GuardWorld Unit :=
  let entered := w.admission 0 0
  let failed := (entered.setBreaker 0 ((entered.breaker 0).recordFailure entered.clock)).settle 0
  failed.setBreaker 0 (failed.breaker 0).recordSuccess

theorem afterFailure_closed (w : GuardWorld Unit) :
    ((afterFailure w).breaker 0).state = .closed := by
  simp [afterFailure, CircuitBreaker.recordSuccess]

theorem run_failsOnce {w : GuardWorld Unit} (hs : (w.breaker 0).state = .closed)
    (h₁ h₂ : Exc → Program (Guarded (FuncSignature Unit)) Exc Unit) (es : List CallEvent) :
    (funcCalls Unit id).run 0 w
        (tryCatch (tryCatch (CircuitBreaker.call invokeFunc) h₁) h₂) (failsOnce ++ es) =
      (funcCalls Unit id).run 0 (afterFailure w) (tryCatch (h₁ unreachable) h₂) es := by
  obtain ⟨next, next', hcall, hentered, hfailed⟩ :
      ∃ next next' : Except Exc Unit → Program (Guarded (FuncSignature Unit)) Exc Unit,
        tryCatch (tryCatch (CircuitBreaker.call invokeFunc) h₁) h₂ =
          .step (.admission : GuardOp (FuncSignature Unit)) next ∧
        next (.ok ()) = .step (.dep () : GuardOp (FuncSignature Unit)) next' ∧
        next' (.error unreachable) = .step (.recordFailure : GuardOp (FuncSignature Unit))
          fun _ => tryCatch (h₁ unreachable) h₂ :=
    ⟨_, _, rfl, rfl, rfl⟩
  have hadmitted : ((w.breaker 0).admission w.clock).2 = .ok () := by
    rw [CircuitBreaker.admission_of_closed hs]
  rw [hcall]
  simp only [failsOnce, List.cons_append, List.nil_append, Machine.run, guarded, guardPerform,
    guardMove, id, hadmitted, hentered, funcMachine, Option.map_some, hfailed]
  rfl

abbrev persistentPolicy : RetryPolicy := RedisJobQueue.persistent.retryPolicy

/-- The loop from attempt `n` on, and what is made of its end. -/
abbrev persistentAttempts (remaining n : ℕ) : Program (Guarded (FuncSignature Unit)) Exc Unit :=
  tryCatch (attemptsFrom (CircuitBreaker.call invokeFunc) persistentPolicy
    queueNonRetryableExceptions sleep rand remaining n)
    fun e => throw (outward queueUnavailable e)

/-- What the loop makes of an exception of attempt `n`. -/
abbrev persistentHandler (remaining n : ℕ) (e : Exc) :
    Program (Guarded (FuncSignature Unit)) Exc Unit :=
  if e.isInstanceOfAny queueNonRetryableExceptions then throw e
  else if e.isInstance .exception then
    if persistentPolicy.maxAttempts ≤ n then throw (.retryExhausted n e)
    else attemptsFrom (CircuitBreaker.call invokeFunc) persistentPolicy
      queueNonRetryableExceptions sleep rand remaining (n + 1)
  else throw e

theorem persistentHandler_unreachable {remaining n : ℕ} (hn : n < 1026) :
    persistentHandler remaining n unreachable =
      attemptsFrom (CircuitBreaker.call invokeFunc) persistentPolicy
        queueNonRetryableExceptions sleep rand remaining (n + 1) := by
  have hmore : ¬ persistentPolicy.maxAttempts ≤ n := by
    change ¬ 1026 ≤ n
    omega
  rw [persistentHandler, if_neg (by decide), if_pos (by decide), if_neg hmore]

theorem persistentAttempts_first (remaining : ℕ) : persistentAttempts (remaining + 1) 1 =
    tryCatch (tryCatch (CircuitBreaker.call invokeFunc) (persistentHandler remaining 1))
      fun e => throw (outward queueUnavailable e) := by
  rw [persistentAttempts, attemptsFrom]
  rfl

/-- The call's next attempt follows at once, and fails too. -/
theorem run_failsAgain {w : GuardWorld Unit} (hs : (w.breaker 0).state = .closed)
    {remaining n : ℕ} (hn : n + 2 < 1026) (es : List CallEvent) :
    (funcCalls Unit id).run 0 w (persistentAttempts (remaining + 1) (n + 2))
        (failsAgain ++ es) =
      (funcCalls Unit id).run 0 (afterFailure w) (persistentAttempts remaining (n + 3)) es := by
  let d := min (persistentPolicy.baseDelaySeconds * 2 ^ n) persistentPolicy.maxDelaySeconds
  have hd : persistentPolicy.delayForAttempt (n + 2) = .ok d := by
    rw [RetryPolicy.delayForAttempt, if_neg (by omega), if_neg (by simp [maxFloatExponent]; omega)]
    rfl
  have hpause : backoff persistentPolicy (sleep (D := FuncSignature Unit)) rand (n + 2) =
      (do
        let u ← rand
        if 0 < d * u then sleep (d * u)) := by
    rw [backoff, if_pos (by omega), hd]
    rfl
  rw [persistentAttempts, attemptsFrom, hpause]
  have hdraw : ∀ k : Unit → Program (Guarded (FuncSignature Unit)) Exc Unit,
      (funcCalls Unit id).run 0 w (tryCatch ((do
        let u ← rand (D := FuncSignature Unit)
        if 0 < d * u then sleep (d * u)) >>= k) fun e => throw (outward queueUnavailable e))
          (failsAgain ++ es) =
        (funcCalls Unit id).run 0 w
          (tryCatch (k ()) fun e => throw (outward queueUnavailable e)) (failsOnce ++ es) := by
    intro k
    obtain ⟨next, hrand, hnext⟩ :
        ∃ next : ℚ → Program (Guarded (FuncSignature Unit)) Exc Unit,
          (tryCatch ((do
            let u ← rand (D := FuncSignature Unit)
            if 0 < d * u then sleep (d * u)) >>= k) fun e => throw (outward queueUnavailable e)) =
            .step (.rand : GuardOp (FuncSignature Unit)) next ∧
          ∀ u, next u = tryCatch ((if 0 < d * u then sleep (d * u) else pure ()) >>= k)
            fun e => throw (outward queueUnavailable e) :=
      ⟨_, rfl, fun _ => rfl⟩
    have hzero : next 0 = tryCatch (k ()) fun e => throw (outward queueUnavailable e) := by
      rw [hnext, mul_zero, if_neg (lt_irrefl 0)]
      rfl
    rw [hrand]
    simp [failsAgain, Machine.run, guarded, guardPerform, hzero]
  rw [hdraw, run_failsOnce hs]
  exact congrArg (fun p => (funcCalls Unit id).run 0 (afterFailure w)
    (tryCatch p fun e => throw (outward queueUnavailable e)) es) (persistentHandler_unreachable hn)

/-- So the call goes on, for as long as its delays can be computed. -/
theorem run_failures (k : ℕ) : ∀ (w : GuardWorld Unit) (remaining n : ℕ),
    (w.breaker 0).state = .closed → n + k + 1 < 1026 →
      ∃ w', (w'.breaker 0).state = .closed ∧
        (funcCalls Unit id).run 0 w (persistentAttempts (remaining + k) (n + 2))
            (List.replicate k failsAgain).flatten =
          some (w', persistentAttempts remaining (n + k + 2)) := by
  induction k with
  | zero => exact fun w remaining n hs _ => ⟨w, hs, rfl⟩
  | succ k ih =>
    intro w remaining n hs hn
    obtain ⟨w', hs', hrun⟩ := ih (afterFailure w) remaining (n + 1) (afterFailure_closed w)
      (by omega)
    refine ⟨w', hs', ?_⟩
    rw [List.replicate_succ, List.flatten_cons, ← Nat.add_assoc, run_failsAgain hs (by omega)]
    rw [hrun, Nat.add_right_comm n 1 k]
    rfl

/-- The queue's breaker before its first call. -/
def unused : GuardWorld Unit where
  breaker _ := RedisJobQueue.defaultBreaker
  clock := 0
  running := []
  dep := ()

/-- The first attempt and all later ones that can be made fail. -/
def allFail : List CallEvent := failsOnce ++ (List.replicate 1024 failsAgain).flatten

theorem run_allFail : ∃ w' e, e.cls = .overflowError ∧
    (funcCalls Unit id).run 0 unused (RedisJobQueue.persistent.callReliably invokeFunc) allFail =
      some (w', .done (.error e)) := by
  obtain ⟨w', -, hrun⟩ := run_failures 1024 (afterFailure unused) 1 0 (afterFailure_closed _)
    (by decide)
  have hfirst := run_failsOnce (w := unused) rfl (persistentHandler 1025 1)
    (fun e => throw (outward queueUnavailable e)) (List.replicate 1024 failsAgain).flatten
  rw [persistentHandler_unreachable (by decide)] at hfirst
  have hlast : persistentAttempts 1 1026 =
      .done (.error (.plain .overflowError "int too large to convert to float")) := by
    have hdelay : persistentPolicy.delayForAttempt 1026 =
        .error (.plain .overflowError "int too large to convert to float") := by
      rw [RetryPolicy.delayForAttempt, if_neg (by decide), if_pos (by decide)]
    rw [persistentAttempts, attemptsFrom, backoff, if_pos (by decide), hdelay]
    rfl
  have hcall : RedisJobQueue.persistent.callReliably invokeFunc =
      persistentAttempts (1025 + 1) 1 := rfl
  refine ⟨w', .plain .overflowError "int too large to convert to float", rfl, ?_⟩
  rw [hcall, persistentAttempts_first, allFail, hfirst, ← hlast]
  exact hrun

/-- A call that may make 1026 attempts, and whose 1025 first fail, ends with an `OverflowError`. -/
theorem overflow_escapes : ¬ ∀ (queue : RedisJobQueue) (w w' : GuardWorld Unit)
    (es : List CallEvent) (rest : Program (Guarded (FuncSignature Unit)) Exc Unit),
    (funcCalls Unit id).run 0 w (queue.callReliably invokeFunc) es = some (w', rest) →
      Composes queue id 0 w es
        ((funcCalls Unit id).occurrences 0 w (queue.callReliably invokeFunc) es) rest := by
  intro h
  obtain ⟨w', e, hcls, hrun⟩ := run_allFail
  rcases (h _ _ _ _ _ hrun).escapes e rfl with hunavailable | ⟨hfinal, -⟩
  · cases hcls.symm.trans hunavailable
  · exact hfinal (retryable_of_overflows hcls)

/-- An attempt that fails, a pause, and an attempt that is answered. -/
def answersSecond : List CallEvent :=
  [.act .go, .act (.dep (.error unreachable)), .act .go, .act (.rand (1 / 2)), .act .go,
    .act .go, .act (.dep (.ok ())), .act .go]

/-- A call that pauses and tries again composes as it should. -/
theorem composes_answersSecond : ∃ w',
    (funcCalls Unit id).run 0 unused (RedisJobQueue.default.callReliably invokeFunc) answersSecond =
        some (w', .done (.ok ())) ∧
      funcInvocations ((funcCalls Unit id).occurrences 0 unused
        (RedisJobQueue.default.callReliably invokeFunc) answersSecond) = 2 ∧
      Composes RedisJobQueue.default id 0 unused answersSecond
        ((funcCalls Unit id).occurrences 0 unused
          (RedisJobQueue.default.callReliably invokeFunc) answersSecond) (.done (.ok ())) := by
  have hreturns : (funcCalls Unit id).returns 0 unused
      (RedisJobQueue.default.callReliably invokeFunc) answersSecond (fun _ _ => true) = true := by
    decide +kernel
  obtain ⟨w', u, hrun, -⟩ := Machine.exists_of_returns hreturns
  refine ⟨w', hrun, by decide +kernel, ?_⟩
  apply (composes_iff .default id 0 unused w' answersSecond _ hrun).mpr
  rintro r - ⟨hmany, -⟩
  exact absurd hmany (by decide)

end ReviewAgent
