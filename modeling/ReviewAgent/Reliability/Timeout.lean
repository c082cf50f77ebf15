import Mathlib.Algebra.Order.Ring.Rat
import ReviewAgent.Python

/-! The timeout leg: a bounded wait abandons the call, it does not cancel it. -/
namespace ReviewAgent

structure TimeoutPolicy where
  seconds : ℚ
  seconds_pos : 0 < seconds

/-- The settings' default deadline of a Redis command. -/
theorem defaultTimeout_pos : (0 : ℚ) < 10 := by decide +kernel

/-- A future when the wait on it ends. -/
inductive Future (α : Type) where
  | returned (value : α)
  | raised (e : Exc)
  | pending
  deriving DecidableEq

def callTimedOutError (seconds : ℚ) : Exc :=
  .plain .callTimedOutError s!"call did not complete within {seconds}s"

/-- `await_future`. A `TimeoutError` of the call itself is caught by the same clause. -/
def awaitFuture {α : Type} (policy : TimeoutPolicy) : Future α → Except Exc α
  | .returned value => .ok value
  | .raised e => .error (if e.isInstance .timeoutError then callTimedOutError policy.seconds else e)
  | .pending => .error (callTimedOutError policy.seconds)

theorem awaitFuture_ok {α : Type} {policy : TimeoutPolicy} {future : Future α} {a : α} :
    awaitFuture policy future = .ok a ↔ future = .returned a := by
  cases future <;> simp [awaitFuture]

/-- How one attempt on a remote store ends: answered, raised without effect, or abandoned by the
caller, with or without effect. -/
inductive Outcome where
  | replies
  | raises (e : Exc)
  | timesOut (applied : Bool)
  deriving DecidableEq

namespace Outcome

/-- The attempt takes effect. -/
def applies : Outcome → Bool
  | replies => true
  | raises _ => false
  | timesOut applied => applied

/-- What the caller sees of an attempt that would answer `a`. -/
def future {α : Type} (a : α) : Outcome → Future α
  | replies => .returned a
  | raises e => .raised e
  | timesOut _ => .pending

/-- Failing attempts have no effect. -/
def Clean (o : Outcome) : Prop := o ≠ .timesOut true

instance (o : Outcome) : Decidable o.Clean := inferInstanceAs (Decidable (¬ _))

theorem replies_of_clean {o : Outcome} (h : o.Clean) (ha : o.applies = true) : o = .replies := by
  cases o <;> simp_all [Clean, applies]

theorem replies_of_future {α : Type} {a b : α} {o : Outcome} (h : o.future a = .returned b) :
    o = .replies ∧ a = b := by
  cases o <;> simp_all [future]

end Outcome

end ReviewAgent
