import ReviewAgent.Orchestrator.Operations

/-! The price table, and the guard that blocks a call once the day's spend meets the cap. -/
namespace ReviewAgent

open Effects

/-- A nonnegative `Decimal`. -/
structure Usd where
  coefficient : ℕ
  scale : ℕ
  deriving DecidableEq

def Usd.value (usd : Usd) : ℚ := usd.coefficient / 10 ^ usd.scale

def Usd.str (usd : Usd) : String := decimalStr usd.coefficient usd.scale

structure ModelPrice where
  inputUsdPerMillionTokens : ℚ
  outputUsdPerMillionTokens : ℚ

/-- `MODEL_PRICES`. -/
def modelPrices : List (String × ModelPrice) :=
  [("claude-haiku-4-5", ⟨1, 5⟩), ("claude-sonnet-5", ⟨2, 10⟩)]

/-- `UnknownModelPriceError`. -/
def unknownModelPrice (model : String) : Exc :=
  .plain (.other "UnknownModelPriceError" .exception)
    (s!"no price table entry for model '{model}' -- add one to " ++
      "backend.economics.pricing.MODEL_PRICES before using it")

/-- `(Decimal(tokens) / million) * price`, each step rounded to the context's precision. -/
def tokenCost (tokens : ℕ) (price : ℚ) : ℚ :=
  Rounding.toDigits contextPrecision
    (Rounding.toDigits contextPrecision (tokens / 10 ^ 6) * price)

/-- `compute_cost_usd`, in millionths of a dollar. -/
def computeCostUsd (model : String) (tokensIn tokensOut : ℕ) : Except Exc ℕ :=
  match modelPrices.lookup model with
  | none => .error (unknownModelPrice model)
  | some price =>
    let cost := Rounding.toDigits contextPrecision
      (tokenCost tokensIn price.inputUsdPerMillionTokens +
        tokenCost tokensOut price.outputUsdPerMillionTokens)
    let quantized := (Rounding.halfEven (10 ^ 6 * cost)).toNat
    if 10 ^ contextPrecision ≤ quantized then .error invalidOperation else .ok quantized

/-- `BudgetExceededError`. -/
def budgetExceeded (spent : Spend) (cap : Usd) : Exc :=
  .plain .budgetExceededError
    (s!"daily LLM budget exceeded: spent ${spent.str} of ${cap.str} cap " ++
      "-- blocking this call before it reaches the LLM client")

/-- The seconds of a day. -/
def daySeconds : ℚ := 24 * 60 * 60

/-- `_start_of_day_utc`, in seconds of the epoch. -/
def startOfDayUtc (now : ℚ) : ℚ := ⌊now / daySeconds⌋ * daySeconds

structure BudgetGuard where
  dailyCapUsd : Usd

namespace BudgetGuard

variable (guard : BudgetGuard)

/-- The cap is met or passed. -/
def blocks (spent : Spend) : Bool := decide (guard.dailyCapUsd.value ≤ spent.value)

def currentSpendUsd : Orchestrated Spend := do
  let now ← ask (.now .budget)
  attemptOp (.sumLlmCostForDay (startOfDayUtc now)) fun spent => spent

def checkAndRaise : Orchestrated Unit := do
  let spent ← currentSpendUsd
  if guard.blocks spent then throw (budgetExceeded spent guard.dailyCapUsd) else pure ()

/-- What the budget read of a run is answered. -/
def budgetRead (answers : Answers) : Except Exc Spend :=
  answers (.sumLlmCostForDay (startOfDayUtc (answers (.now .budget))))

theorem checkAndRaise_outcome {answers : Answers} :
    guard.checkAndRaise.outcome answers = (budgetRead answers >>= fun spent =>
      if guard.blocks spent then .error (budgetExceeded spent guard.dailyCapUsd) else .ok ()) := by
  have hread : currentSpendUsd.outcome answers = budgetRead answers := by
    rw [currentSpendUsd, outcome_ask_bind, outcome_attemptOp]
    rfl
  rw [checkAndRaise, Program.outcome_bind, hread]
  congr 1
  funext spent
  split <;> rfl

end BudgetGuard

end ReviewAgent
