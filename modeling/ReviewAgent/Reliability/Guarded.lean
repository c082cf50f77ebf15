import ReviewAgent.Reliability.CircuitBreaker
import ReviewAgent.Reliability.Retry

/-! Calls through retry, breaker and a dependency: the programs, the world they run in, and the
rules that reduce them to the dependency alone. -/
namespace ReviewAgent

open Effects
open Relation (ReflTransGen)

/-- The points at which a guarded call meets the outside: the three critical sections of the
breaker, the sleep and the draw of the retry loop, and the dependency itself. -/
inductive GuardOp (D : Signature) where
  | admission | recordFailure | recordSuccess
  | sleep (seconds : ℚ)
  | rand
  | dep (op : D.Op)

abbrev Guarded (D : Signature) : Signature where
  Op := GuardOp D
  Answer
    | .admission => Except Exc Unit
    | .recordFailure | .recordSuccess | .sleep _ => Unit
    | .rand => ℚ
    | .dep op => D.Answer op

section

variable {D : Signature} {T : Type}

/-- One operation on the dependency. -/
def dep (op : D.Op) : Program (Guarded D) Exc (D.Answer op) :=
  Program.perform (S := Guarded D) (.dep op)

def sleep (seconds : ℚ) : Program (Guarded D) Exc Unit :=
  Program.perform (S := Guarded D) (.sleep seconds)

def rand : Program (Guarded D) Exc ℚ := Program.perform (S := Guarded D) .rand

/-- Ask the breaker, raising what it raises. -/
def enterBreaker : Program (Guarded D) Exc Unit :=
  .step (.admission : GuardOp D) fun answer => .done answer

def noteFailure : Program (Guarded D) Exc Unit := Program.perform (S := Guarded D) .recordFailure

def noteSuccess : Program (Guarded D) Exc Unit := Program.perform (S := Guarded D) .recordSuccess

/-- `except Exception`: other exceptions are not counted. -/
def noteRaised (e : Exc) : Program (Guarded D) Exc Unit :=
  if e.isInstance .exception then noteFailure else pure ()

/-- `CircuitBreaker.call`. -/
def CircuitBreaker.call (func : Program (Guarded D) Exc T) : Program (Guarded D) Exc T := do
  enterBreaker
  let result ← tryCatch func fun e => do
    noteRaised e
    throw e
  noteSuccess
  pure result

/-- What leaves a client: the two failures of the reliability layer come out wrapped. -/
def outward (wrap : Exc → Exc) (e : Exc) : Exc :=
  if e.isInstanceOfAny [.retryExhaustedError, .circuitOpenError] then wrap e else e

theorem outward_retryExhausted {wrap : Exc → Exc} {n : ℕ} {e : Exc} :
    outward wrap (.retryExhausted n e) = wrap (.retryExhausted n e) := rfl

/-- Retry around breaker around `func`, as each client's `_call_reliably` composes them. -/
def callReliably (policy : RetryPolicy) (nonRetryableExceptions : List ExcClass)
    (wrap : Exc → Exc) (func : Program (Guarded D) Exc T) : Program (Guarded D) Exc T :=
  tryCatch (callWithRetry (CircuitBreaker.call func) policy nonRetryableExceptions sleep rand)
    fun e => throw (outward wrap e)

end

/-- A call between its admission and the record of its outcome: its thread, the breaker's state it
was admitted in, and the dependency at that moment. -/
structure Call (σ : Type) where
  thread : ℕ
  entered : CircuitState
  found : σ

/-- Clients with their breakers, the clock they share, the calls in progress, and the dependency. -/
structure GuardWorld (σ : Type) where
  breaker : ℕ → CircuitBreaker
  clock : ℚ
  running : List (Call σ)
  dep : σ

/-- What the environment decides at an operation. -/
inductive GuardChoice (χ : Type) where
  | go
  | rand (u : ℚ)
  | dep (c : χ)

/-- What happens between operations: time passes, another caller of the client `k` goes through
one of the breaker's critical sections, or the dependency moves. -/
inductive GuardMove (μ : Type) where
  | tick (seconds : ℚ)
  | otherAdmit (k : ℕ)
  | otherFailure (k : ℕ)
  | otherSuccess (k : ℕ)
  | dep (m : μ)

namespace GuardWorld

variable {σ : Type} (w : GuardWorld σ)

def setBreaker (k : ℕ) (b : CircuitBreaker) : GuardWorld σ :=
  { w with breaker := Function.update w.breaker k b }

/-- Thread `i` goes through the admission test of breaker `k`. -/
def admission (i k : ℕ) : GuardWorld σ :=
  let b := ((w.breaker k).admission w.clock).1
  if (w.breaker k).admits w.clock then
    { w.setBreaker k b with running := ⟨i, b.state, w.dep⟩ :: w.running }
  else w.setBreaker k b

def settle (i : ℕ) : GuardWorld σ :=
  { w with running := w.running.filter fun call => call.thread ≠ i }

variable {w} {i k : ℕ} {b : CircuitBreaker}

@[simp] theorem setBreaker_dep : (w.setBreaker k b).dep = w.dep := rfl

@[simp] theorem setBreaker_clock : (w.setBreaker k b).clock = w.clock := rfl

@[simp] theorem setBreaker_running : (w.setBreaker k b).running = w.running := rfl

@[simp] theorem setBreaker_breaker : (w.setBreaker k b).breaker k = b := by
  simp [setBreaker]

@[simp] theorem settle_dep : (w.settle i).dep = w.dep := rfl

@[simp] theorem settle_clock : (w.settle i).clock = w.clock := rfl

@[simp] theorem settle_breaker : (w.settle i).breaker = w.breaker := rfl

@[simp] theorem admission_clock : (w.admission i k).clock = w.clock := by
  simp only [admission]
  split <;> rfl

@[simp] theorem admission_dep : (w.admission i k).dep = w.dep := by
  simp only [admission]
  split <;> rfl

end GuardWorld

section

variable {D : Signature} {σ χ μ : Type}

/-- Thread `i` calls through the breaker of client `inst i`. -/
def guardPerform (M : Machine D σ χ μ) (inst : ℕ → ℕ) (i : ℕ) (w : GuardWorld σ) :
    (op : GuardOp D) → GuardChoice χ → Option (GuardWorld σ × (Guarded D).Answer op)
  | .admission, .go => some (w.admission i (inst i), ((w.breaker (inst i)).admission w.clock).2)
  | .recordFailure, .go =>
    some ((w.setBreaker (inst i) ((w.breaker (inst i)).recordFailure w.clock)).settle i, ())
  | .recordSuccess, .go =>
    some ((w.setBreaker (inst i) (w.breaker (inst i)).recordSuccess).settle i, ())
  | .sleep seconds, .go => some ({ w with clock := w.clock + seconds }, ())
  | .rand, .rand u => if 0 ≤ u ∧ u < 1 then some (w, u) else none
  | .dep op, .dep c => (M.perform i w.dep op c).map fun r => ({ w with dep := r.1 }, r.2)
  | _, _ => none

def guardMove (M : Machine D σ χ μ) (w : GuardWorld σ) : GuardMove μ → Option (GuardWorld σ)
  | .tick seconds => if 0 ≤ seconds then some { w with clock := w.clock + seconds } else none
  | .otherAdmit k => some (w.setBreaker k ((w.breaker k).admission w.clock).1)
  | .otherFailure k => some (w.setBreaker k ((w.breaker k).recordFailure w.clock))
  | .otherSuccess k => some (w.setBreaker k (w.breaker k).recordSuccess)
  | .dep m => (M.move w.dep m).map fun d => { w with dep := d }

def guarded (M : Machine D σ χ μ) (inst : ℕ → ℕ) :
    Machine (Guarded D) (GuardWorld σ) (GuardChoice χ) (GuardMove μ) where
  perform := guardPerform M inst
  move := guardMove M

end

section

variable {D : Signature} {σ χ μ T : Type} {M : Machine D σ χ μ} {inst : ℕ → ℕ}
  {N : Machine (Guarded D) (GuardWorld σ) (GuardChoice χ) (GuardMove μ)} {i : ℕ} {K : Contract σ}

/-- A contract about the dependency: breakers and clock are free to change. -/
def onDep (K : Contract σ) : Contract (GuardWorld σ) where
  rely w w' := w'.dep = w.dep ∨ K.rely w.dep w'.dep
  guarantee w w' := w'.dep = w.dep ∨ K.guarantee w.dep w'.dep

theorem stable_onDep {P : σ → Prop} (h : Stable K.rely P) :
    Stable (onDep K).rely fun w => P w.dep := by
  rintro w w' (he | hr) hw
  · simpa only [he] using hw
  · exact h _ _ hr hw

/-- Only an operation on the dependency changes the dependency. -/
theorem guardPerform_dep {w w' : GuardWorld σ} {op : GuardOp D} {c : GuardChoice χ}
    {answer : (Guarded D).Answer op} (h : guardPerform M inst i w op c = some (w', answer))
    (hop : ∀ o, op ≠ .dep o) : w'.dep = w.dep := by
  cases op <;> cases c <;> simp only [guardPerform] at h <;> try cases h
  · exact GuardWorld.admission_dep
  · rfl
  · rfl
  · rfl
  · split at h <;> cases h
    rfl
  · exact absurd rfl (hop _)

/-- Between operations the dependency moves by itself, or not at all. -/
theorem guardMove_dep {w w' : GuardWorld σ} {m : GuardMove μ} (h : guardMove M w m = some w') :
    w'.dep = w.dep ∨ ∃ m', M.move w.dep m' = some w'.dep := by
  cases m with
  | tick seconds =>
    simp only [guardMove] at h
    split at h <;> cases h
    exact Or.inl rfl
  | dep m =>
    obtain ⟨d, hd, rfl⟩ := Option.map_eq_some_iff.mp h
    exact Or.inr ⟨m, hd⟩
  | _ =>
    cases h
    exact Or.inl rfl

theorem perform_dep {w w' : GuardWorld σ} {op : D.Op} {c : GuardChoice χ} {answer : D.Answer op}
    (h : (guarded M inst).perform i w (.dep op) c = some (w', answer)) :
    ∃ c' d, c = .dep c' ∧ M.perform i w.dep op c' = some (d, answer) ∧ w' = { w with dep := d } := by
  cases c with
  | go => cases h
  | rand u => cases h
  | dep c' =>
    obtain ⟨⟨d, answer'⟩, hd, he⟩ := Option.map_eq_some_iff.mp h
    obtain ⟨rfl, rfl⟩ := Prod.mk.inj he
    exact ⟨c', d, rfl, hd, rfl⟩

theorem perform_admission {w w' : GuardWorld σ} {c : GuardChoice χ} {answer : Except Exc Unit}
    (h : (guarded M inst).perform i w .admission c = some (w', answer)) :
    w' = w.admission i (inst i) ∧ answer = ((w.breaker (inst i)).admission w.clock).2 := by
  cases c with
  | go =>
    obtain ⟨hw, ha⟩ := Prod.mk.inj (Option.some.inj h)
    exact ⟨hw.symm, ha.symm⟩
  | rand u => cases h
  | dep c => cases h

/-- Operations of the reliability layer keep every assertion about the dependency. -/
theorem bookkeeping_triple (hN : N.Within (guarded M inst)) {P : σ → Prop}
    (hs : Stable K.rely P) (op : GuardOp D) (hop : ∀ o, op ≠ .dep o) :
    Triple N i (onDep K) (fun w => P w.dep)
      (Program.perform op : Program (Guarded D) Exc _) (Returns fun w => P w.dep) := by
  apply Triple.perform (stable_onDep hs)
  · intro w c w' answer hw h
    have hd := guardPerform_dep (hN.perform _ _ _ _ _ h) hop
    exact ⟨Or.inl hd, by simpa [hd] using hw⟩
  · exact fun _ => (stable_onDep hs).returns

/-- An operation on the dependency whose answer is then read as a result. -/
theorem decode_triple {P : σ → Prop} {op : D.Op} {read : D.Answer op → Except Exc T}
    {R : Except Exc T → σ → Prop} (hs : Stable K.rely P) (hr : ∀ r, Stable K.rely (R r))
    (h : ∀ w c w' (answer : D.Answer op), P w.dep →
      N.perform i w (.dep op) c = some (w', answer) →
      (onDep K).guarantee w w' ∧ R (read answer) w'.dep) :
    Triple N i (onDep K) (fun w => P w.dep)
      (dep op >>= fun answer => Program.ofExcept (read answer)) fun r w => R r w.dep := by
  show Triple N i (onDep K) _
    (.step (.dep op : GuardOp D) fun answer : D.Answer op => .done (read answer)) _
  exact Triple.step (A := fun (answer : D.Answer op) w => R (read answer) w.dep)
    (stable_onDep hs) h fun answer => Triple.done (stable_onDep (hr _)) fun w hw => hw

/-- The rule for a call through the breaker, from its four parts. -/
theorem call_steps {N : Machine (Guarded D) σ χ μ} {func : Program (Guarded D) Exc T}
    {P E : σ → Prop} {F R : Except Exc T → σ → Prop} (hr : ∀ r, Stable K.rely (R r))
    (henter : Triple N i K P (enterBreaker (D := D)) fun r w =>
      match r with
      | .ok _ => E w
      | .error e => R (.error e) w)
    (hfunc : Triple N i K E func F)
    (hraise : ∀ e, Triple N i K (F (.error e)) (noteRaised (D := D) e)
      (Returns (R (.error e))))
    (hsuccess : ∀ a, Triple N i K (F (.ok a)) (noteSuccess (D := D)) (Returns (R (.ok a)))) :
    Triple N i K P (CircuitBreaker.call func) R := by
  unfold CircuitBreaker.call
  apply henter.bind _ fun e w hw => hw
  intro _
  apply Triple.bind (R := ByResult (fun a => F (.ok a)) fun e => R (.error e))
  · refine Triple.tryCatch hfunc (fun a w hw => hw) fun e => ?_
    apply (hraise e).bind _ (by simp)
    intro _
    have hthrow : Triple N i K (R (.error e)) (throw e : Program (Guarded D) Exc T)
        (ByResult (fun a => F (.ok a)) fun e => R (.error e)) :=
      Triple.throw (hr (.error e)) fun w hw => hw
    exact hthrow.pre (by simp)
  · intro result
    apply (hsuccess result).bind _ (by simp)
    intro _
    have hpure : Triple N i K (R (.ok result)) (pure result : Program (Guarded D) Exc T) R :=
      Triple.pure (hr (.ok result)) fun w hw => hw
    exact hpure.pre (by simp)
  · exact fun e w hw => hw

/-- The rule for a call through the breaker: `func` runs, or the call is rejected. -/
theorem call_triple (hN : N.Within (guarded M inst)) {func : Program (Guarded D) Exc T}
    {P : σ → Prop} {R : Except Exc T → σ → Prop} (hs : Stable K.rely P)
    (hr : ∀ r, Stable K.rely (R r))
    (hfunc : Triple N i (onDep K) (fun w => P w.dep) func fun r w => R r w.dep)
    (hreject : ∀ w c w' e, P w.dep → N.perform i w .admission c = some (w', .error e) →
      R (.error e) w'.dep) :
    Triple N i (onDep K) (fun w => P w.dep) (CircuitBreaker.call func) fun r w => R r w.dep := by
  apply call_steps (E := fun w => P w.dep) (fun r => stable_onDep (hr r)) _ hfunc
  · intro e
    unfold noteRaised
    split
    · exact bookkeeping_triple (P := R (.error e)) hN (hr _) .recordFailure (by simp)
    · exact Triple.pure (stable_onDep (hr _)) (by simp)
  · exact fun a => bookkeeping_triple (P := R (.ok a)) hN (hr _) .recordSuccess (by simp)
  · apply Triple.step (A := fun (answer : Except Exc Unit) w => match answer with
      | .ok _ => P w.dep
      | .error e => R (.error e) w.dep) (stable_onDep hs)
    · intro w c w' answer hw h
      have hd := guardPerform_dep (hN.perform _ _ _ _ _ h) (by simp)
      refine ⟨Or.inl hd, ?_⟩
      cases answer with
      | ok a => simpa [hd] using hw
      | error e => exact hreject w c w' e hw h
    · intro answer
      cases answer with
      | ok a => exact Triple.done (stable_onDep hs) fun _ hw => hw
      | error e => exact Triple.done (stable_onDep (hr _)) fun _ hw => hw

/-- What every attempt, every pause and every draw keeps, a client's call keeps. -/
theorem callReliably_invariant {N : Machine (Guarded D) σ χ μ} {policy : RetryPolicy}
    {nonRetryableExceptions : List ExcClass} {wrap : Exc → Exc}
    {func : Program (Guarded D) Exc T} {P : σ → Prop} (hs : Stable K.rely P)
    (hsleep : ∀ s, 0 < s → Triple N i K P (sleep (D := D) s) (Returns P))
    (hrand : Triple N i K P (rand (D := D)) (Returns P))
    (hcall : Triple N i K P (CircuitBreaker.call func) fun _ => P) :
    Triple N i K P (callReliably policy nonRetryableExceptions wrap func) fun _ => P := by
  have hloop : Triple N i K P
      (callWithRetry (CircuitBreaker.call func) policy nonRetryableExceptions sleep rand)
      fun _ => P := by
    apply callWithRetry_triple (I := fun _ => P) (R := fun _ _ => P) (fun _ => hs)
      (fun _ _ => hs) (fun _ => hsleep) (fun _ => hrand) (fun _ _ _ => hcall)
    · exact fun _ _ _ h => h
    · exact fun _ _ _ _ h => h
    · exact fun _ _ _ _ _ h => h
    · exact fun _ _ _ h => h
    · exact fun _ _ _ _ h => h
  apply hloop.tryCatch fun _ _ h => h
  exact fun _ => Triple.throw hs fun _ h => h

/-- The rule for a client's calls: `I n` before attempt `n`, `R n` after it. -/
theorem callReliably_triple (hN : N.Within (guarded M inst)) {policy : RetryPolicy}
    {nonRetryableExceptions : List ExcClass} {wrap : Exc → Exc}
    {func : Program (Guarded D) Exc T} {I : ℕ → σ → Prop} {R : ℕ → Except Exc T → σ → Prop}
    {Q : Except Exc T → σ → Prop} (hs : ∀ n, Stable K.rely (I n))
    (hr : ∀ n r, Stable K.rely (R n r)) (hq : ∀ r, Stable K.rely (Q r))
    (hfunc : ∀ n, 1 ≤ n → n ≤ policy.attemptLimit →
      Triple N i (onDep K) (fun w => I n w.dep) func fun r w => R n r w.dep)
    (hreject : ∀ n w c w' e, 1 ≤ n → n ≤ policy.attemptLimit → I n w.dep →
      N.perform i w .admission c = some (w', .error e) → R n (.error e) w'.dep)
    (hok : ∀ n a d, R n (.ok a) d → Q (.ok a) d)
    (hraise : ∀ n e d, ¬ Retryable nonRetryableExceptions e → R n (.error e) d →
      Q (.error (outward wrap e)) d)
    (hnext : ∀ n e d, n < policy.maxAttempts → Retryable nonRetryableExceptions e →
      R n (.error e) d → I (n + 1) d)
    (hlast : ∀ e d, Retryable nonRetryableExceptions e → R policy.maxAttempts (.error e) d →
      Q (.error (wrap (.retryExhausted policy.maxAttempts e))) d)
    (hover : ∀ n e d, policy.delayForAttempt n = .error e → I n d →
      Q (.error (outward wrap e)) d) :
    Triple N i (onDep K) (fun w => I 1 w.dep)
      (callReliably policy nonRetryableExceptions wrap func) fun r w => Q r w.dep := by
  have hloop : Triple N i (onDep K) (fun w => I 1 w.dep)
      (callWithRetry (CircuitBreaker.call func) policy nonRetryableExceptions sleep rand)
      (ByResult (fun a w => Q (.ok a) w.dep) fun e w => Q (.error (outward wrap e)) w.dep) := by
    apply callWithRetry_triple (I := fun n (w : GuardWorld σ) => I n w.dep)
      (R := fun n r (w : GuardWorld σ) => R n r w.dep)
    · exact fun n => stable_onDep (hs n)
    · exact fun n r => stable_onDep (hr n r)
    · exact fun n s _ => bookkeeping_triple hN (hs n) (.sleep s) (by simp)
    · exact fun n => bookkeeping_triple hN (hs n) .rand (by simp)
    · intro n h1 hn
      exact call_triple hN (hs n) (hr n) (hfunc n h1 hn) fun w c w' e => hreject n w c w' e h1 hn
    · exact fun n a w => hok n a w.dep
    · exact fun n e w => hraise n e w.dep
    · exact fun n e w => hnext n e w.dep
    · intro e w
      simpa only [ByResult, outward_retryExhausted] using hlast e w.dep
    · exact fun n e w => hover n e w.dep
  apply Triple.tryCatch (Q := fun r (w : GuardWorld σ) => Q r w.dep) hloop fun a w hw => hw
  exact fun e => Triple.throw (stable_onDep (hq _)) fun w hw => hw

end

end ReviewAgent
