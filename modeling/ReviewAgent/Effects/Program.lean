import Mathlib.Data.Nat.Notation
import Mathlib.Logic.Relation

/-! Sequential programs over a signature of operations, with exceptions. -/
namespace Effects

/-- The operations a program may issue and the type each is answered in. -/
structure Signature where
  Op : Type
  Answer : Op → Type

/-- A program ends with a result or an exception, or issues an operation and goes on with its
answer. Programs are finite trees, so a program issues finitely many operations. -/
inductive Program (S : Signature) (ε α : Type) : Type where
  | done (result : Except ε α)
  | step (op : S.Op) (next : S.Answer op → Program S ε α)

namespace Program

variable {S : Signature} {ε α β : Type}

/-- Issue one operation and return its answer. -/
def perform (op : S.Op) : Program S ε (S.Answer op) :=
  .step op fun answer => .done (.ok answer)

/-- Run `k` on whatever `p` ends with, result or exception. -/
def andThen : Program S ε α → (Except ε α → Program S ε β) → Program S ε β
  | .done r, k => k r
  | .step op next, k => .step op fun answer => (next answer).andThen k

/-- The continuation of a sequential composition: an exception skips what follows. -/
def onOk (f : α → Program S ε β) : Except ε α → Program S ε β
  | .ok a => f a
  | .error e => .done (.error e)

/-- The continuation of a `try`: a result skips the handler. -/
def onError (h : ε → Program S ε α) : Except ε α → Program S ε α
  | .ok a => .done (.ok a)
  | .error e => h e

instance : Monad (Program S ε) where
  pure a := .done (.ok a)
  bind p f := p.andThen (onOk f)

instance : MonadExcept ε (Program S ε) where
  throw e := .done (.error e)
  tryCatch p h := p.andThen (onError h)

/-- What `p` ends with, as a value. -/
def attempt (p : Program S ε α) : Program S ε (Except ε α) := p.andThen fun r => .done (.ok r)

theorem pure_def (a : α) : (pure a : Program S ε α) = .done (.ok a) := rfl

theorem bind_def (p : Program S ε α) (f : α → Program S ε β) :
    (p >>= f) = p.andThen (onOk f) := rfl

theorem tryCatch_def (p : Program S ε α) (h : ε → Program S ε α) :
    (tryCatch p h) = p.andThen (onError h) := rfl

/-- Raise the exception an answer carries, or return its value. -/
def ofExcept (r : Except ε α) : Program S ε α := .done r

section

variable (answers : (op : S.Op) → S.Answer op)

/-- What `p` ends with when each operation is answered as given. -/
def outcome : Program S ε α → Except ε α
  | .done r => r
  | .step op next => (next (answers op)).outcome

/-- The operations `p` issues on the way to its outcome. -/
def issued : Program S ε α → List S.Op
  | .done _ => []
  | .step op next => op :: (next (answers op)).issued

@[simp] theorem outcome_perform (op : S.Op) :
    (perform op : Program S ε _).outcome answers = .ok (answers op) := rfl

@[simp] theorem outcome_pure (a : α) : (pure a : Program S ε α).outcome answers = .ok a := rfl

@[simp] theorem outcome_throw (e : ε) :
    (throw e : Program S ε α).outcome answers = .error e := rfl

@[simp] theorem outcome_ofExcept (r : Except ε α) :
    (ofExcept r : Program S ε α).outcome answers = r := rfl

theorem outcome_andThen (p : Program S ε α) (k : Except ε α → Program S ε β) :
    (p.andThen k).outcome answers = (k (p.outcome answers)).outcome answers := by
  induction p with
  | done r => rfl
  | step op next ih => exact ih (answers op)

@[simp] theorem outcome_bind (p : Program S ε α) (f : α → Program S ε β) :
    (p >>= f).outcome answers = (p.outcome answers >>= fun a => (f a).outcome answers) := by
  rw [bind_def, outcome_andThen]
  cases p.outcome answers <;> rfl

@[simp] theorem outcome_tryCatch (p : Program S ε α) (h : ε → Program S ε α) :
    (tryCatch p h).outcome answers =
      tryCatch (p.outcome answers) fun e => (h e).outcome answers := by
  rw [tryCatch_def, outcome_andThen]
  cases p.outcome answers <;> rfl

@[simp] theorem outcome_attempt (p : Program S ε α) :
    p.attempt.outcome answers = .ok (p.outcome answers) :=
  outcome_andThen answers p _

end

end Program

end Effects
