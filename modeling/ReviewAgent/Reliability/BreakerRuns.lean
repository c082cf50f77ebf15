import ReviewAgent.Effects.Steps
import ReviewAgent.Reliability.CircuitBreaker

/-! One breaker under any number of concurrent calls, each split at the lock. -/
namespace ReviewAgent

/-- A call between its admission and the record of its outcome: the state it was admitted in, how
often the breaker had changed its state by then, and whether `func` has been invoked. -/
structure BreakerCall where
  entered : CircuitState
  period : ℕ
  invoked : Bool
  deriving DecidableEq, Repr

/-- A breaker, its clock and its calls, with what an observer of its state notes: how often it
changed, when it opened (latest first), and the failures reported since the last success. -/
structure BreakerWorld where
  breaker : CircuitBreaker
  now : ℚ := 0
  calls : List BreakerCall := []
  period : ℕ := 0
  openings : List ℚ := []
  streak : ℕ := 0

/-- What happens next: a thread enters `call`, an admitted call invokes `func`, `func` ends, a
snapshot is taken, time passes. -/
inductive BreakerStep where
  | admission
  | invoke (i : ℕ)
  | finish (i : ℕ) (outcome : Except Exc Unit)
  | snapshot
  | tick (seconds : ℚ)

/-- A breaker nobody has called yet. -/
def CircuitBreaker.fresh (config : CircuitBreakerConfig) (name : String) : CircuitBreaker :=
  { config, name }

theorem CircuitBreakerConfig.one_le_one : 1 ≤ 1 := by decide

theorem CircuitBreakerConfig.second_pos : (0 : ℚ) < 1 := by decide

/-- Threshold 1 and a window of a second. -/
def CircuitBreakerConfig.touchy : CircuitBreakerConfig := ⟨1, 1, one_le_one, second_pos⟩

namespace BreakerWorld

variable (w : BreakerWorld)

def initial (config : CircuitBreakerConfig) (name : String) : BreakerWorld :=
  { breaker := .fresh config name }

/-- The breaker is rewritten under its lock. -/
def become (b : CircuitBreaker) : BreakerWorld :=
  { w with
    breaker := b
    period := if b.state = w.breaker.state then w.period else w.period + 1
    openings := if b.state = .opened ∧ w.breaker.state ≠ .opened then w.now :: w.openings
      else w.openings }

/-- The outcome of a call is recorded; what is not an `Exception` passes unrecorded. -/
def record : Except Exc Unit → BreakerWorld
  | .ok () => { w.become w.breaker.recordSuccess with streak := 0 }
  | .error e =>
    if e.isInstance .exception then
      { w.become (w.breaker.recordFailure w.now) with streak := w.streak + 1 }
    else w

def step : BreakerStep → Option BreakerWorld
  | .admission =>
    let w' := w.become (w.breaker.admission w.now).1
    if w.breaker.admits w.now then
      some { w' with calls := w.calls ++ [⟨w'.breaker.state, w'.period, false⟩] }
    else some w'
  | .invoke i =>
    match w.calls[i]? with
    | some ⟨entered, period, false⟩ =>
      some { w with calls := w.calls.set i ⟨entered, period, true⟩ }
    | _ => none
  | .finish i outcome =>
    match w.calls[i]? with
    | some ⟨_, _, true⟩ => some ({ w with calls := w.calls.eraseIdx i }.record outcome)
    | _ => none
  | .snapshot => some (w.become (w.breaker.maybeExpireOpen w.now))
  | .tick seconds => if 0 ≤ seconds then some { w with now := w.now + seconds } else none

/-- The outcome is one the breaker records. -/
def Recorded : Except Exc Unit → Prop
  | .ok () => True
  | .error e => e.isInstance .exception = true

instance : DecidablePred Recorded := fun outcome =>
  match outcome with
  | .ok () => isTrue trivial
  | .error e => inferInstanceAs (Decidable (e.isInstance .exception = true))

theorem record_unrecorded {w : BreakerWorld} {outcome : Except Exc Unit} (h : ¬ Recorded outcome) :
    w.record outcome = w := by
  cases outcome with
  | ok u => exact absurd trivial h
  | error e => exact if_neg h

/-- The reset window of every opening so far has elapsed. -/
def WindowsOver : Prop := ∀ t ∈ w.openings, t + w.breaker.config.resetTimeoutSeconds ≤ w.now

instance : Decidable w.WindowsOver := inferInstanceAs (Decidable (∀ t ∈ _, _))

end BreakerWorld

end ReviewAgent
