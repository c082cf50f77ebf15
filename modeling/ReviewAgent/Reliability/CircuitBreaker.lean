import Mathlib.Algebra.Order.Ring.Rat
import ReviewAgent.Python

/-! The circuit breaker: its state and the three bookkeeping steps it makes under its lock. -/
namespace ReviewAgent

/-- `CLOSED`, `OPEN` and `HALF_OPEN`. -/
inductive CircuitState where
  | closed | opened | halfOpen
  deriving DecidableEq, Repr

/-- The knobs `__post_init__` accepts. Seconds are exact rationals. -/
structure CircuitBreakerConfig where
  failureThreshold : ℕ
  resetTimeoutSeconds : ℚ
  one_le_failureThreshold : 1 ≤ failureThreshold
  resetTimeoutSeconds_pos : 0 < resetTimeoutSeconds

/-- The settings' default threshold. -/
theorem one_le_defaultThreshold : 1 ≤ 5 := by decide

/-- The settings' default window. -/
theorem defaultResetTimeout_pos : (0 : ℚ) < 30 := by decide +kernel

/-- The arguments `__post_init__` rejects, with its messages. -/
def CircuitBreakerConfig.postInit (failureThreshold : ℤ) (resetTimeoutSeconds : ℚ) :
    Except Exc CircuitBreakerConfig :=
  if h₁ : failureThreshold < 1 then
    .error (.plain .valueError s!"failure_threshold must be >= 1, got {failureThreshold}")
  else if h₂ : resetTimeoutSeconds ≤ 0 then
    .error (.plain .valueError
      s!"reset_timeout_seconds must be positive, got {resetTimeoutSeconds}")
  else .ok ⟨failureThreshold.toNat, resetTimeoutSeconds, one_le_toNat h₁, not_le.mp h₂⟩

structure CircuitBreaker where
  config : CircuitBreakerConfig
  name : String
  state : CircuitState := .closed
  consecutiveFailures : ℕ := 0
  openedAt : Option ℚ := none
  probeInFlight : Bool := false

namespace CircuitBreaker

variable (b : CircuitBreaker) (now : ℚ)

def circuitOpenError (name : String) : Exc :=
  .plain .circuitOpenError s!"circuit breaker '{name}' is open -- failing fast"

/-- The reset window of an open breaker has elapsed. -/
def due : Bool :=
  match b.state, b.openedAt with
  | .opened, some t => decide (b.config.resetTimeoutSeconds ≤ now - t)
  | _, _ => false

/-- `_maybe_expire_open_locked`. -/
def maybeExpireOpen : CircuitBreaker :=
  if b.due now then { b with state := .halfOpen, probeInFlight := false } else b

/-- The admission test of `call`, once an open breaker has been given the chance to expire. -/
def enter : CircuitBreaker × Except Exc Unit :=
  match b.state with
  | .opened => (b, .error (circuitOpenError b.name))
  | .halfOpen =>
    if b.probeInFlight then (b, .error (circuitOpenError b.name))
    else ({ b with probeInFlight := true }, .ok ())
  | .closed => (b, .ok ())

/-- The admission half of `call`: `CircuitOpenError`, or the call may go on. -/
def admission : CircuitBreaker × Except Exc Unit := (b.maybeExpireOpen now).enter

/-- `_record_failure`. -/
def recordFailure : CircuitBreaker :=
  let failures := b.consecutiveFailures + 1
  if b.state = .halfOpen ∨ b.config.failureThreshold ≤ failures then
    { b with
      consecutiveFailures := failures
      state := .opened
      openedAt := some now
      probeInFlight := false }
  else { b with consecutiveFailures := failures, probeInFlight := false }

/-- `_record_success`. -/
def recordSuccess : CircuitBreaker :=
  { b with state := .closed, consecutiveFailures := 0, openedAt := none, probeInFlight := false }

/-- The breaker lets a call through now. -/
def admits : Bool := (b.admission now).2.isOk

variable {b : CircuitBreaker} {now : ℚ}

theorem due_iff : b.due now = true ↔ b.state = .opened ∧
    ∃ t, b.openedAt = some t ∧ b.config.resetTimeoutSeconds ≤ now - t := by
  unfold due
  split <;> simp_all

theorem maybeExpireOpen_of_closed (h : b.state = .closed) : b.maybeExpireOpen now = b := by
  simp [maybeExpireOpen, due, h]

theorem enter_error {e : Exc} (h : b.enter.2 = .error e) : e = circuitOpenError b.name := by
  unfold enter at h
  split at h
  · simpa using h.symm
  · split at h
    · simpa using h.symm
    · simp at h
  · simp at h

theorem admission_error {e : Exc} (h : (b.admission now).2 = .error e) :
    e.cls = .circuitOpenError := by
  simp [enter_error h, circuitOpenError]

theorem admission_ne_error (h : b.admits now = true) (e : Exc) : (b.admission now).2 ≠ .error e := by
  intro he
  simp [admits, he, Except.isOk, Except.toBool] at h

theorem admission_of_closed (h : b.state = .closed) : b.admission now = (b, .ok ()) := by
  simp [admission, maybeExpireOpen_of_closed h, enter, h]

@[simp] theorem admission_consecutiveFailures :
    (b.admission now).1.consecutiveFailures = b.consecutiveFailures := by
  simp only [admission, enter, maybeExpireOpen]
  repeat' split
  all_goals rfl

@[simp] theorem admission_config : (b.admission now).1.config = b.config := by
  simp only [admission, enter, maybeExpireOpen]
  repeat' split
  all_goals rfl

theorem maybeExpireOpen_state :
    (b.maybeExpireOpen now).state = if b.due now then .halfOpen else b.state := by
  unfold maybeExpireOpen
  split <;> rfl

@[simp] theorem maybeExpireOpen_config : (b.maybeExpireOpen now).config = b.config := by
  unfold maybeExpireOpen
  split <;> rfl

@[simp] theorem maybeExpireOpen_consecutiveFailures :
    (b.maybeExpireOpen now).consecutiveFailures = b.consecutiveFailures := by
  unfold maybeExpireOpen
  split <;> rfl

@[simp] theorem maybeExpireOpen_openedAt : (b.maybeExpireOpen now).openedAt = b.openedAt := by
  unfold maybeExpireOpen
  split <;> rfl

theorem enter_state : b.enter.1.state = b.state := by
  unfold enter
  split
  · rfl
  · split <;> rfl
  · rfl

/-- Admission changes the state only as the expiry before it does. -/
theorem admission_state : (b.admission now).1.state = (b.maybeExpireOpen now).state := enter_state

@[simp] theorem admission_openedAt : (b.admission now).1.openedAt = b.openedAt := by
  simp only [admission, enter, maybeExpireOpen]
  repeat' split
  all_goals rfl

/-- Being asked for admission neither closes a breaker nor opens a closed one. -/
theorem admission_state_closed : (b.admission now).1.state = .closed ↔ b.state = .closed := by
  cases hs : b.state with
  | closed => simp [admission_of_closed hs, hs]
  | opened =>
    have hne : (b.maybeExpireOpen now).state ≠ .closed := by
      unfold maybeExpireOpen
      split <;> simp [hs]
    simp only [admission, enter]
    split <;> simp_all
    split <;> simp_all
  | halfOpen =>
    have hexp : b.maybeExpireOpen now = b := by simp [maybeExpireOpen, due, hs]
    simp only [admission, enter, hexp, hs]
    split <;> simp [hs]

/-- A breaker that lets a call through is not open. -/
theorem admission_state_of_admits (h : b.admits now = true) : (b.admission now).1.state ≠ .opened := by
  simp only [admits, admission, enter] at h ⊢
  split at h
  · simp [Except.isOk, Except.toBool] at h
  · rename_i hs
    split <;> simp [hs]
  · rename_i hs
    simp [hs]

/-- Within the reset window an open breaker stays as it is and rejects. -/
theorem admission_of_opened (hs : b.state = .opened) (hdue : b.due now = false) :
    b.admission now = (b, .error (circuitOpenError b.name)) := by
  simp [admission, maybeExpireOpen, hdue, enter, hs]

@[simp] theorem recordFailure_consecutiveFailures :
    (b.recordFailure now).consecutiveFailures = b.consecutiveFailures + 1 := by
  simp only [recordFailure]
  split <;> rfl

@[simp] theorem recordFailure_config : (b.recordFailure now).config = b.config := by
  simp only [recordFailure]
  split <;> rfl

theorem recordFailure_closed : (b.recordFailure now).state = .closed ↔
    b.state = .closed ∧ b.consecutiveFailures + 1 < b.config.failureThreshold := by
  simp only [recordFailure]
  split
  · rename_i h
    rcases h with h | h
    · simp [h]
    · simp
      omega
  · rename_i h
    rw [not_or] at h
    simp
    omega

theorem recordFailure_openedAt (h : (b.recordFailure now).state = .opened) :
    (b.recordFailure now).openedAt = some now ∨
      b.state = .opened ∧ (b.recordFailure now).openedAt = b.openedAt := by
  simp only [recordFailure] at h ⊢
  split
  · exact Or.inl rfl
  · rename_i hne
    rw [if_neg hne] at h
    exact Or.inr ⟨h, rfl⟩

theorem recordFailure_state : (b.recordFailure now).state =
    if b.state = .halfOpen ∨ b.config.failureThreshold ≤ b.consecutiveFailures + 1 then .opened
    else b.state := by
  simp only [recordFailure]
  split <;> rfl

end CircuitBreaker

end ReviewAgent
