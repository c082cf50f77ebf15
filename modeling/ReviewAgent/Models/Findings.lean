import Mathlib.Algebra.Order.Field.Basic
import Mathlib.Algebra.Order.Field.Rat
import Mathlib.Data.Rat.Lemmas
import Mathlib.Data.Nat.Notation
import Mathlib.Tactic.FieldSimp
import Mathlib.Tactic.NormNum
import Mathlib.Tactic.Ring
import ReviewAgent.Python

/-! Findings: enums, confidences, and the contract of one finding. -/
namespace ReviewAgent

inductive Severity where
  | critical | high | medium | low | info
  deriving DecidableEq, Repr

/-- `severity.value`. -/
def Severity.value : Severity → String
  | critical => "CRITICAL"
  | high => "HIGH"
  | medium => "MEDIUM"
  | low => "LOW"
  | info => "INFO"

/-- `SEVERITY_RANK`. -/
def Severity.rank : Severity → ℕ
  | critical => 0
  | high => 1
  | medium => 2
  | low => 3
  | info => 4

theorem Severity.rank_injective {a b : Severity} (h : a.rank = b.rank) : a = b := by
  cases a <;> cases b <;> simp_all [rank]

inductive AgentType where
  | security | quality | tests | docs
  deriving DecidableEq, Repr

/-- `agent_type.value`. -/
def AgentType.value : AgentType → String
  | security => "SECURITY"
  | quality => "QUALITY"
  | tests => "TESTS"
  | docs => "DOCS"

inductive ReviewStatus where
  | posted | queuedForHitl | rejected | error
  deriving DecidableEq, Repr

/-- `status.value`. -/
def ReviewStatus.value : ReviewStatus → String
  | posted => "POSTED"
  | queuedForHitl => "QUEUED_FOR_HITL"
  | rejected => "REJECTED"
  | error => "ERROR"

theorem ReviewStatus.value_injective : Function.Injective ReviewStatus.value := by
  intro status status' h
  cases status <;> cases status' <;> simp [ReviewStatus.value] at h ⊢

/-- `str` of a nonnegative `Decimal` with `scale` decimal places. -/
def decimalStr (coefficient scale : ℕ) : String :=
  let digits := toString coefficient
  let n := digits.length
  if scale = 0 then digits
  else if scale < n then
    String.ofList (digits.toList.take (n - scale)) ++ "." ++
      String.ofList (digits.toList.drop (n - scale))
  else if scale < n + 6 then "0." ++ String.ofList (List.replicate (scale - n) '0') ++ digits
  else
    let mantissa := match digits.toList with
      | d :: e :: rest => String.ofList (d :: '.' :: e :: rest)
      | ds => String.ofList ds
    mantissa ++ s!"E-{scale + 1 - n}"

/-- A `Decimal` that the fields with `ge=0`, `le=1` and `decimal_places=3` accept, as its
coefficient and the number of its decimal places; trailing zeros do not count as places. -/
structure Confidence where
  coefficient : ℕ
  scale : ℕ
  le_one : coefficient ≤ 10 ^ scale
  three_places : 10 ^ scale ∣ coefficient * 1000
  deriving DecidableEq

namespace Confidence

variable (c : Confidence)

def value : ℚ := c.coefficient / 10 ^ c.scale

/-- The value in thousandths. -/
def thousandths : ℕ := c.coefficient * 1000 / 10 ^ c.scale

theorem value_eq : c.value = c.thousandths / 1000 := by
  obtain ⟨k, hk⟩ := c.three_places
  have hpos : 0 < 10 ^ c.scale := by positivity
  have ht : c.thousandths = k := by
    rw [thousandths, hk, Nat.mul_div_cancel_left _ hpos]
  have hq : (c.coefficient : ℚ) * 1000 = 10 ^ c.scale * k := by exact_mod_cast hk
  rw [value, ht, div_eq_div_iff (by positivity) (by norm_num), hq]
  ring

theorem thousandths_le : c.thousandths ≤ 1000 := by
  apply Nat.div_le_of_le_mul
  have := c.le_one
  omega

theorem value_le_one : c.value ≤ 1 := by
  have h : (c.thousandths : ℚ) ≤ 1000 := by exact_mod_cast c.thousandths_le
  rw [value_eq, div_le_one (by norm_num)]
  exact h

theorem value_eq_iff {c d : Confidence} : c.value = d.value ↔ c.thousandths = d.thousandths := by
  rw [value_eq, value_eq, div_left_inj' (by norm_num)]
  exact_mod_cast Iff.rfl

theorem value_lt_iff {c d : Confidence} : c.value < d.value ↔ c.thousandths < d.thousandths := by
  rw [value_eq, value_eq, div_lt_div_iff_of_pos_right (by norm_num)]
  exact_mod_cast Iff.rfl

/-- `Decimal` of a number of thousandths, with all three places written. -/
def ofThousandths (n : ℕ) (h : n ≤ 1000) : Confidence where
  coefficient := n
  scale := 3
  le_one := h
  three_places := by simp

@[simp] theorem thousandths_ofThousandths {n : ℕ} (h : n ≤ 1000) :
    (ofThousandths n h).thousandths = n := by
  simp [ofThousandths, thousandths]

theorem zeroThousandths_le : 0 ≤ 1000 := by decide

theorem nineTenths_le : 900 ≤ 1000 := by decide

def str : String := decimalStr c.coefficient c.scale

end Confidence

structure Finding where
  agentType : AgentType
  severity : Severity
  category : String
  filePath : String
  lineStart : ℕ
  lineEnd : ℕ
  confidence : Confidence
  rationale : String
  category_length : 1 ≤ category.length ∧ category.length ≤ 100
  filePath_length : 1 ≤ filePath.length ∧ filePath.length ≤ 1000
  lineStart_pos : 0 < lineStart
  lineStart_le : lineStart ≤ lineEnd
  rationale_length : 1 ≤ rationale.length ∧ rationale.length ≤ 5000
  deriving DecidableEq

/-- `Finding(...)`: the field bounds in their order, then the model validator. -/
def Finding.validate (agentType : AgentType) (severity : Severity) (category filePath : String)
    (lineStart lineEnd : ℤ) (confidence : Confidence) (rationale : String) :
    Except Exc Finding :=
  if h₁ : 1 ≤ category.length ∧ category.length ≤ 100 then
    if h₂ : 1 ≤ filePath.length ∧ filePath.length ≤ 1000 then
      if h₃ : 0 < lineStart then
        if 0 < lineEnd then
          if h₄ : 1 ≤ rationale.length ∧ rationale.length ≤ 5000 then
            if h₅ : lineStart ≤ lineEnd then
              .ok
                { agentType, severity, category, filePath, lineStart := lineStart.toNat,
                  lineEnd := lineEnd.toNat, confidence, rationale, category_length := h₁,
                  filePath_length := h₂, lineStart_pos := by omega, lineStart_le := by omega,
                  rationale_length := h₄ }
            else
              .error (.plain .validationError
                ("1 validation error for Finding\n  Value error, line_end " ++
                  s!"({lineEnd}) must be >= line_start ({lineStart})"))
          else .error (validationError "Finding" "rationale")
        else .error (validationError "Finding" "line_end")
      else .error (validationError "Finding" "line_start")
    else .error (validationError "Finding" "file_path")
  else .error (validationError "Finding" "category")

/-- A finding that validates has the values it is validated from. -/
theorem Finding.validate_fields {agentType : AgentType} {severity : Severity}
    {category filePath rationale : String} {lineStart lineEnd : ℤ} {confidence : Confidence}
    {finding : Finding} (h : Finding.validate agentType severity category filePath lineStart lineEnd
      confidence rationale = .ok finding) :
    finding.agentType = agentType ∧ finding.severity = severity ∧ finding.category = category ∧
      finding.filePath = filePath ∧ finding.lineStart = lineStart.toNat ∧
      finding.confidence = confidence ∧ finding.rationale = rationale := by
  unfold Finding.validate at h
  repeat' split at h
  all_goals cases h
  exact ⟨rfl, rfl, rfl, rfl, rfl, rfl, rfl⟩

/-- One finding of the security specialist. -/
def Finding.sample : Finding where
  agentType := .security
  severity := .low
  category := "xss"
  filePath := "a.py"
  lineStart := 1
  lineEnd := 1
  confidence := .ofThousandths 900 Confidence.nineTenths_le
  rationale := "raw"
  category_length := by decide
  filePath_length := by decide
  lineStart_pos := by decide
  lineStart_le := by decide
  rationale_length := by decide

end ReviewAgent
