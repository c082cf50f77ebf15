import Mathlib.Algebra.Group.Nat.Defs
import Mathlib.Data.Nat.Notation

/-! Python exceptions: their classes, what `isinstance` answers, what `str` shows. -/
namespace ReviewAgent

/-- The exception classes the code names. `other` is any further class, by its base. -/
inductive ExcClass where
  | baseException | keyboardInterrupt | systemExit | cancelledError
  | exception
  | typeError | valueError | lookupError | keyError | attributeError
  | arithmeticError | overflowError | assertionError | runtimeError
  | osError | timeoutError | connectionError
  | validationError
  | psycopgError | operationalError | integrityError
  | httpError
  | circuitOpenError | retryExhaustedError | callTimedOutError
  | queueUnavailableError
  | gitHubAuthError | repositoryNotAuthorizedError
  | gitHubAPIError | gitHubUnauthorizedError | gitHubForbiddenError
  | gitHubRateLimitedError | gitHubValidationError | gitHubUnavailableError
  | llmConfigurationError | llmCallFailedError | budgetExceededError
  | responseParseError | agentExecutionError
  | other (name : String) (base : ExcClass)
  deriving DecidableEq, Repr

namespace ExcClass

/-- `type(exc).__name__`. -/
def name : ExcClass → String
  | baseException => "BaseException"
  | keyboardInterrupt => "KeyboardInterrupt"
  | systemExit => "SystemExit"
  | cancelledError => "CancelledError"
  | exception => "Exception"
  | typeError => "TypeError"
  | valueError => "ValueError"
  | lookupError => "LookupError"
  | keyError => "KeyError"
  | attributeError => "AttributeError"
  | arithmeticError => "ArithmeticError"
  | overflowError => "OverflowError"
  | assertionError => "AssertionError"
  | runtimeError => "RuntimeError"
  | osError => "OSError"
  | timeoutError => "TimeoutError"
  | connectionError => "ConnectionError"
  | validationError => "ValidationError"
  | psycopgError => "Error"
  | operationalError => "OperationalError"
  | integrityError => "IntegrityError"
  | httpError => "HTTPError"
  | circuitOpenError => "CircuitOpenError"
  | retryExhaustedError => "RetryExhaustedError"
  | callTimedOutError => "CallTimedOutError"
  | queueUnavailableError => "QueueUnavailableError"
  | gitHubAuthError => "GitHubAuthError"
  | repositoryNotAuthorizedError => "RepositoryNotAuthorizedError"
  | gitHubAPIError => "GitHubAPIError"
  | gitHubUnauthorizedError => "GitHubUnauthorizedError"
  | gitHubForbiddenError => "GitHubForbiddenError"
  | gitHubRateLimitedError => "GitHubRateLimitedError"
  | gitHubValidationError => "GitHubValidationError"
  | gitHubUnavailableError => "GitHubUnavailableError"
  | llmConfigurationError => "LLMConfigurationError"
  | llmCallFailedError => "LLMCallFailedError"
  | budgetExceededError => "BudgetExceededError"
  | responseParseError => "ResponseParseError"
  | agentExecutionError => "AgentExecutionError"
  | other name _ => name

/-- The proper base classes, nearest first. -/
def bases : ExcClass → List ExcClass
  | baseException => []
  | keyboardInterrupt | systemExit | cancelledError | exception => [baseException]
  | keyError => [lookupError, exception, baseException]
  | overflowError => [arithmeticError, exception, baseException]
  | timeoutError | connectionError => [osError, exception, baseException]
  | validationError => [valueError, exception, baseException]
  | operationalError | integrityError => [psycopgError, exception, baseException]
  | gitHubUnauthorizedError | gitHubForbiddenError | gitHubRateLimitedError
  | gitHubValidationError | gitHubUnavailableError =>
    [gitHubAPIError, exception, baseException]
  | agentExecutionError => [runtimeError, exception, baseException]
  | other _ base => base :: base.bases
  | _ => [exception, baseException]

/-- `issubclass(c, d)`. -/
def isSubclass (c d : ExcClass) : Bool := c == d || c.bases.contains d

@[simp] theorem isSubclass_self (c : ExcClass) : c.isSubclass c = true := by
  simp [isSubclass]

theorem isSubclass_iff {c d : ExcClass} : c.isSubclass d = true ↔ d ∈ c :: c.bases := by
  simp only [isSubclass, Bool.or_eq_true, beq_iff_eq, List.contains_iff_mem, List.mem_cons]
  exact or_congr_left eq_comm

/-- Every class has one base: the bases of a base are the rest of the list. -/
theorem bases_suffix {c d : ExcClass} (h : d ∈ c.bases) : d :: d.bases <:+ c.bases := by
  induction c with
  | other name base ih =>
    rcases List.mem_cons.mp h with rfl | h
    · exact List.suffix_rfl
    · exact (ih h).trans (List.suffix_cons _ _)
  | baseException => simp [bases] at h
  | _ =>
    simp only [bases, List.mem_cons, List.not_mem_nil, or_false] at h
    rcases h with rfl | rfl | rfl <;> decide

theorem suffix_of_isSubclass {c d : ExcClass} (h : c.isSubclass d = true) :
    d :: d.bases <:+ c :: c.bases := by
  rcases List.mem_cons.mp (isSubclass_iff.mp h) with rfl | h
  · exact List.suffix_rfl
  · exact (bases_suffix h).trans (List.suffix_cons _ _)

theorem isSubclass_trans {c d e : ExcClass} (hcd : c.isSubclass d = true)
    (hde : d.isSubclass e = true) : c.isSubclass e = true :=
  isSubclass_iff.mpr ((suffix_of_isSubclass hcd).subset (isSubclass_iff.mp hde))

theorem isSubclass_comparable {c d e : ExcClass} (hd : c.isSubclass d = true)
    (he : c.isSubclass e = true) : d.isSubclass e = true ∨ e.isSubclass d = true := by
  rcases List.suffix_or_suffix_of_suffix (suffix_of_isSubclass hd) (suffix_of_isSubclass he)
    with h | h
  · exact Or.inr (isSubclass_iff.mpr (h.subset List.mem_cons_self))
  · exact Or.inl (isSubclass_iff.mpr (h.subset List.mem_cons_self))

end ExcClass

/-- A raised exception: its class and `str(exc)`. `RetryExhaustedError` wraps another one. -/
inductive Exc where
  | plain (cls : ExcClass) (message : String)
  | retryExhausted (attempts : ℕ) (last : Exc)
  deriving DecidableEq, Repr

namespace Exc

def cls : Exc → ExcClass
  | plain cls _ => cls
  | retryExhausted _ _ => .retryExhaustedError

/-- `str(exc)`. -/
def message : Exc → String
  | plain _ message => message
  | retryExhausted attempts last =>
    s!"gave up after {attempts} attempt(s); last error: {last.cls.name}: {last.message}"

/-- `isinstance(exc, cls)`. -/
def isInstance (e : Exc) (cls : ExcClass) : Bool := e.cls.isSubclass cls

/-- `isinstance(exc, classes)` for a tuple of classes, as an `except` clause tests it. -/
def isInstanceOfAny (e : Exc) (classes : List ExcClass) : Bool := classes.any e.isInstance

@[simp] theorem cls_plain (cls : ExcClass) (message : String) : (plain cls message).cls = cls := rfl

@[simp] theorem cls_retryExhausted (attempts : ℕ) (last : Exc) :
    (retryExhausted attempts last).cls = .retryExhaustedError := rfl

theorem isInstance_of_isSubclass {e : Exc} {c d : ExcClass} (h : e.isInstance c = true)
    (hcd : c.isSubclass d = true) : e.isInstance d = true :=
  ExcClass.isSubclass_trans h hcd

theorem isInstanceOfAny_iff {e : Exc} {classes : List ExcClass} :
    e.isInstanceOfAny classes = true ↔ ∃ c ∈ classes, e.isInstance c = true := by
  simp [isInstanceOfAny]

end Exc

/-- What is raised here, if anything, is an `Exception`. -/
def onlyExceptions {α : Type} : Except Exc α → Bool
  | .ok _ => true
  | .error e => e.isInstance .exception

theorem ok_bind {α β ε : Type} (a : α) (f : α → Except ε β) : (Except.ok a >>= f) = f a := rfl

/-- What a constructor checks of a count. -/
theorem one_le_toNat {n : ℤ} (h : ¬ n < 1) : 1 ≤ n.toNat := by
  omega

/-- A comprehension of which no item raises. -/
theorem mapM_ok {α β ε : Type} {f : α → Except ε β} {g : α → β} {items : List α}
    (h : ∀ item ∈ items, f item = .ok (g item)) : items.mapM f = .ok (items.map g) := by
  induction items with
  | nil => rfl
  | cons item items ih =>
    rw [List.forall_mem_cons] at h
    rw [List.mapM_cons, h.1, ih h.2]
    rfl

/-- A field that pydantic rejects. -/
def validationError (model field : String) : Exc :=
  .plain .validationError s!"1 validation error for {model}\n{field}"

/-- `sys.maxsize`, the length no list exceeds. -/
def sysMaxsize : ℕ := 2 ^ 63 - 1

/-- A Python list. -/
structure PyList (α : Type) where
  toList : List α
  length_le : toList.length ≤ sysMaxsize

end ReviewAgent
