import ReviewAgent.Effects.Program
import ReviewAgent.Models.Review

/-! What one run of the orchestrator asks of the world: the clocks, the events store, the
retriever, the LLM provider and the reviews table. -/
namespace ReviewAgent

open Effects

inductive EventType where
  | spanStart | spanEnd | llmCall | toolCall | decision
  deriving DecidableEq, Repr

/-- `event_type.value`. -/
def EventType.value : EventType → String
  | spanStart => "span.start"
  | spanEnd => "span.end"
  | llmCall => "llm.call"
  | toolCall => "tool.call"
  | decision => "decision"

/-- The arguments of `AgentEvent(...)`. Costs are in millionths of a dollar, confidences in
thousandths. -/
structure EventFields where
  reviewId : String
  eventType : EventType
  ts : ℚ
  agent : Option String := none
  model : Option String := none
  tokensIn : Option ℕ := none
  tokensOut : Option ℕ := none
  costUsd : Option ℕ := none
  latencyMs : Option ℕ := none
  outcome : Option String := none
  confidence : Option ℕ := none
  deriving DecidableEq

/-- The bounds of the fields, in their order. -/
def EventFields.checks (fields : EventFields) : List (String × Bool) :=
  [("review_id", decide (1 ≤ fields.reviewId.length ∧ fields.reviewId.length ≤ 200)),
    ("agent", fields.agent.all fun agent => agent.length ≤ 100),
    ("model", fields.model.all fun model => model.length ≤ 200),
    -- `max_digits=10, decimal_places=6`
    ("cost_usd", fields.costUsd.all fun cost => cost < 10 ^ 10),
    ("outcome", fields.outcome.all fun outcome => outcome.length ≤ 100),
    ("confidence", fields.confidence.all fun confidence => confidence ≤ 1000)]

/-- One row of `agent_events`. -/
structure AgentEvent extends EventFields where
  valid : ∀ check ∈ toEventFields.checks, check.2 = true
  deriving DecidableEq

/-- `AgentEvent(...)`. -/
def AgentEvent.validate (fields : EventFields) : Except Exc AgentEvent :=
  match h : fields.checks.find? fun check => !check.2 with
  | some (field, _) => .error (validationError "AgentEvent" field)
  | none => .ok ⟨fields, by simpa using h⟩

theorem AgentEvent.validate_ok {fields : EventFields}
    (h : ∀ check ∈ fields.checks, check.2 = true) : AgentEvent.validate fields = .ok ⟨fields, h⟩ := by
  unfold validate
  split
  · rename_i field passes hfind
    have hpasses : passes = true := h _ (List.mem_of_find?_eq_some hfind)
    have hfails := List.find?_some hfind
    simp [hpasses] at hfails
  · rfl

/-- The error names the first field out of bounds. -/
theorem AgentEvent.validate_error {fields : EventFields} {field : String}
    (h : (fields.checks.find? fun check => !check.2).map Prod.fst = some field) :
    AgentEvent.validate fields = .error (validationError "AgentEvent" field) := by
  obtain ⟨⟨field', passes⟩, hfind, rfl⟩ := Option.map_eq_some_iff.mp h
  unfold validate
  split
  · rename_i field' passes' hfind'
    obtain ⟨rfl, -⟩ := Prod.mk.inj (Option.some.inj (hfind.symm.trans hfind'))
    rfl
  · rename_i hfind'
    cases hfind.symm.trans hfind'

/-- The readings of the clock in one run. -/
inductive ClockUse where
  | budget | spanStart | spanEnd | llmCall | decision | createdAt
  deriving DecidableEq, Repr

/-- A sum of `cost_usd` over rows of `agent_events`, in millionths of a dollar: at most `2 ^ 63`
values of `NUMERIC(10, 6)`. Over no rows it is a plain zero. -/
structure Spend where
  microUsd : Option ℕ
  microUsd_lt : ∀ n ∈ microUsd, n < 10 ^ 10 * 2 ^ 63

namespace Spend

/-- No rows fit. -/
theorem none_lt : ∀ n ∈ (none : Option ℕ), n < 10 ^ 10 * 2 ^ 63 := by simp

variable (spend : Spend)

def value : ℚ := spend.microUsd.getD 0 / 10 ^ 6

/-- `str(spent_usd)`. -/
def str : String :=
  match spend.microUsd with
  | none => "0"
  | some n => decimalStr n 6

end Spend

structure RetrievedChunk where
  path : String
  content : String

/-- A block of an answer's content; only text blocks are read. -/
inductive ContentBlock where
  | text (text : String)
  | other

structure Message where
  content : List ContentBlock
  inputTokens : ℕ
  outputTokens : ℕ

/-- The arguments of `messages.create`. -/
structure MessageRequest where
  model : String
  maxTokens : ℕ
  system : String
  user : String

inductive OrchestratorOp where
  | now (use : ClockUse)
  -- milliseconds of `time.monotonic()` since the span or the call began
  | latencyMs (use : ClockUse)
  | insertEvent (event : AgentEvent)
  | sumLlmCostForDay (dayStart : ℚ)
  -- the search for what `extract_retrieval_query` finds in the diff
  | hybridSearch (diff : String) (topK : ℕ)
  -- the whole of `call_with_retry` over breaker and timeout
  | createMessage (request : MessageRequest)
  | upsertReview (review : Review) (reason : String)

abbrev OrchestratorSignature : Signature where
  Op := OrchestratorOp
  Answer
    | .now _ => ℚ
    | .latencyMs _ => ℕ
    | .insertEvent _ => Except Exc Unit
    | .sumLlmCostForDay _ => Except Exc Spend
    | .hybridSearch .. => Except Exc (List RetrievedChunk)
    | .createMessage _ => Except Exc Message
    | .upsertReview .. => Except Exc Unit

/-- How every operation of one node is answered; no node issues an operation twice. -/
abbrev Answers : Type := (op : OrchestratorOp) → OrchestratorSignature.Answer op

/-- Programs of the orchestrator. -/
abbrev Orchestrated (α : Type) : Type := Program OrchestratorSignature Exc α

def ask (op : OrchestratorOp) : Orchestrated (OrchestratorSignature.Answer op) :=
  Program.perform (S := OrchestratorSignature) op

/-- An operation whose answer is a value or an exception. -/
def attemptOp {α : Type} (op : OrchestratorOp)
    (read : OrchestratorSignature.Answer op → Except Exc α) : Orchestrated α := do
  let answer ← ask op
  Program.ofExcept (read answer)

section

variable {α : Type} {answers : Answers} (op : OrchestratorOp)

theorem outcome_ask_bind (k : OrchestratorSignature.Answer op → Orchestrated α) :
    (ask op >>= k).outcome answers = (k (answers op)).outcome answers := rfl

theorem outcome_attemptOp (read : OrchestratorSignature.Answer op → Except Exc α) :
    (attemptOp op read).outcome answers = read (answers op) := rfl

end

end ReviewAgent
