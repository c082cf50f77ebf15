import ReviewAgent.Economics.Budget
import ReviewAgent.Observability.Events

/-! The LLM client: budget first, then one reliable call, then its cost on the events spine. -/
namespace ReviewAgent

open Effects

/-- The settings one run of the orchestrator reads. -/
structure Settings where
  anthropicApiKey : Option String
  anthropicModel : String
  budgetDailyCapUsd : Usd
  hitlConfidenceThreshold : Confidence

def maxOutputTokens : ℕ := 4096

/-- `anthropic.AnthropicError`. -/
def anthropicError : ExcClass := .other "AnthropicError" .exception

def llmConfigurationError : Exc :=
  .plain .llmConfigurationError
    ("ANTHROPIC_API_KEY is not configured -- cannot make a real " ++
      "Anthropic API call. Set it in .env for the live demo, or " ++
      "inject a fake anthropic_client for tests.")

structure LlmResponse where
  text : String
  model : String
  tokensIn : ℕ
  tokensOut : ℕ
  costUsd : ℕ
  latencyMs : ℕ

/-- `_extract_text`. -/
def extractText (message : Message) : String :=
  String.join (message.content.filterMap fun block =>
    match block with
    | .text text => some text
    | .other => none)

/-- The two `except` clauses around the reliable call. -/
def llmCallFailure (e : Exc) : Exc :=
  if e.isInstanceOfAny [.retryExhaustedError, .circuitOpenError] then
    .plain .llmCallFailedError
      s!"LLM call failed (retries exhausted or circuit breaker open): {e.message}"
  else if e.isInstance anthropicError then
    .plain .llmCallFailedError
      s!"LLM call failed (non-retryable provider error): {e.cls.name}: {e.message}"
  else e

namespace AnthropicLlmClient

variable (settings : Settings)

/-- `_client`: the key is set and not empty. -/
def client : Except Exc Unit :=
  if settings.anthropicApiKey.any fun key => key ≠ "" then .ok ()
  else .error llmConfigurationError

def request (system user : String) : MessageRequest where
  model := settings.anthropicModel
  maxTokens := maxOutputTokens
  system := system
  user := user

/-- The end of `complete`: the cost of an answer, and its event. -/
def account (agent : String) (reviewId : Option String) (message : Message) :
    Orchestrated LlmResponse := do
  let latencyMs ← ask (.latencyMs .llmCall)
  let costUsd ← Program.ofExcept
    (computeCostUsd settings.anthropicModel message.inputTokens message.outputTokens)
  match reviewId with
  | some reviewId =>
    emitLlmCall reviewId agent settings.anthropicModel message.inputTokens
      message.outputTokens costUsd latencyMs
  | none => pure ()
  pure
    { text := extractText message
      model := settings.anthropicModel
      tokensIn := message.inputTokens
      tokensOut := message.outputTokens
      costUsd, latencyMs }

def complete (system user agent : String) (reviewId : Option String) :
    Orchestrated LlmResponse := do
  (BudgetGuard.mk settings.budgetDailyCapUsd).checkAndRaise
  Program.ofExcept (client settings)
  let message ← tryCatch
    (attemptOp (.createMessage (request settings system user)) fun answer => answer)
    fun e => throw (llmCallFailure e)
  account settings agent reviewId message

/-- The answer has a price, and one that an event can record. -/
def Billable (message : Message) : Prop :=
  ∃ cost, computeCostUsd settings.anthropicModel message.inputTokens message.outputTokens =
    .ok cost ∧ cost < 10 ^ 10

variable {settings} {answers : Answers} {system user agent reviewId : String} {spent : Spend}
  {message : Message}

theorem complete_unread {reviewId : Option String} {e : Exc}
    (h : BudgetGuard.budgetRead answers = .error e) :
    (complete settings system user agent reviewId).outcome answers = .error e := by
  rw [complete, Program.outcome_bind, BudgetGuard.checkAndRaise_outcome, h]
  rfl

theorem complete_blocked {reviewId : Option String}
    (h : BudgetGuard.budgetRead answers = .ok spent)
    (hblocks : (BudgetGuard.mk settings.budgetDailyCapUsd).blocks spent = true) :
    (complete settings system user agent reviewId).outcome answers =
      .error (budgetExceeded spent settings.budgetDailyCapUsd) := by
  rw [complete, Program.outcome_bind, BudgetGuard.checkAndRaise_outcome, h]
  simp only [bind, Except.bind, hblocks, if_true]

/-- Past the guard, the call is made when there is a key. -/
theorem complete_admitted {reviewId : Option String}
    (h : BudgetGuard.budgetRead answers = .ok spent)
    (hblocks : (BudgetGuard.mk settings.budgetDailyCapUsd).blocks spent = false) :
    (complete settings system user agent reviewId).outcome answers =
      (client settings >>= fun _ =>
        tryCatch (answers (.createMessage (request settings system user)))
          (fun e => .error (llmCallFailure e)) >>= fun message =>
            (account settings agent reviewId message).outcome answers) := by
  rw [complete, Program.outcome_bind, BudgetGuard.checkAndRaise_outcome, h]
  show ((if (BudgetGuard.mk settings.budgetDailyCapUsd).blocks spent then _ else _) >>=
    fun _ => _) = _
  rw [hblocks]
  show (Program.ofExcept (client settings) >>= fun _ => _ : Orchestrated _).outcome answers = _
  rw [Program.outcome_bind, Program.outcome_ofExcept]
  congr 1
  funext _
  rw [Program.outcome_bind, Program.outcome_tryCatch, outcome_attemptOp]
  rfl

/-- The event of an answer: it is written, or the database is unavailable, or it cannot be built. -/
theorem emitLlmCall_outcome (hwrites : WritesFailByOutage answers)
    (hnames : Attributable reviewId agent) {model : String} (hmodel : model.length ≤ 200)
    {tokensIn tokensOut cost latencyMs : ℕ} :
    (emitLlmCall reviewId agent model tokensIn tokensOut cost latencyMs).outcome answers =
      if cost < 10 ^ 10 then .ok () else .error (validationError "AgentEvent" "cost_usd") := by
  norm_num only
  split
  · rename_i hcost
    exact emitAt_outcome hwrites.swallowed (by simp [EventFields.checks, hnames.1, hnames.2, hmodel, hcost])
  · rename_i hcost
    have hinvalid : ∀ ts : ℚ, AgentEvent.validate
        { reviewId, eventType := .llmCall, ts, agent := some agent, model := some model,
          tokensIn := some tokensIn, tokensOut := some tokensOut, costUsd := some cost,
          latencyMs := some latencyMs } = .error (validationError "AgentEvent" "cost_usd") := by
      intro ts
      apply AgentEvent.validate_error
      simp [EventFields.checks, hnames.1, hnames.2, hmodel, hcost]
    rw [emitLlmCall, emitAt, outcome_ask_bind, Program.outcome_bind, Program.outcome_ofExcept,
      hinvalid]
    rfl

/-- The models with a price have short names. -/
theorem model_length {model : String} {tokensIn tokensOut cost : ℕ}
    (h : computeCostUsd model tokensIn tokensOut = .ok cost) : model.length ≤ 200 := by
  have hshort : ∀ entry ∈ modelPrices, entry.1.length ≤ 200 := by decide
  unfold computeCostUsd at h
  split at h
  · cases h
  · rename_i price hprice
    obtain ⟨before, after, heq, -⟩ := List.lookup_eq_some_iff.mp hprice
    exact hshort (model, price) (by simp [heq])

/-- An answer is accounted for exactly when it has a price that an event can record. -/
theorem account_outcome (settings : Settings) (message : Message)
    (hwrites : WritesFailByOutage answers)
    (hnames : Attributable reviewId agent) :
    (Billable settings message ∧ ∃ response, response.text = extractText message ∧
        (account settings agent (some reviewId) message).outcome answers = .ok response) ∨
      (¬ Billable settings message ∧ ∃ e, e.isInstanceOfAny [.agentExecutionError,
          .budgetExceededError, .llmConfigurationError, .llmCallFailedError] = false ∧
        (account settings agent (some reviewId) message).outcome answers = .error e) := by
  rw [account, outcome_ask_bind, Program.outcome_bind, Program.outcome_ofExcept]
  cases hcost : computeCostUsd settings.anthropicModel message.inputTokens
    message.outputTokens with
  | error e =>
    refine Or.inr ⟨by simp [Billable, hcost], e, ?_, rfl⟩
    simp only [computeCostUsd] at hcost
    repeat' split at hcost
    all_goals cases hcost
    all_goals rfl
  | ok cost =>
    have hemit : ∀ latencyMs, (emitLlmCall reviewId agent settings.anthropicModel
        message.inputTokens message.outputTokens cost latencyMs).outcome answers =
          if cost < 10 ^ 10 then .ok () else .error (validationError "AgentEvent" "cost_usd") :=
      fun _ => emitLlmCall_outcome hwrites hnames (model_length hcost)
    show (Billable settings message ∧ ∃ response, _ ∧ ((emitLlmCall reviewId agent
        settings.anthropicModel message.inputTokens message.outputTokens cost _ >>= fun _ => _ :
          Orchestrated _).outcome answers) = _) ∨ (_ ∧ ∃ e, _ ∧ ((emitLlmCall reviewId agent
        settings.anthropicModel message.inputTokens message.outputTokens cost _ >>= fun _ => _ :
          Orchestrated _).outcome answers) = _)
    simp only [Program.outcome_bind, hemit]
    by_cases hsmall : cost < 10 ^ 10
    · exact Or.inl ⟨⟨cost, hcost, hsmall⟩, _, rfl, by rw [if_pos hsmall]; rfl⟩
    · refine Or.inr ⟨?_, _, rfl, by rw [if_neg hsmall]; rfl⟩
      rintro ⟨cost', hcost', hsmall'⟩
      obtain rfl := Except.ok.inj (hcost.symm.trans hcost')
      exact hsmall hsmall'

end AnthropicLlmClient

end ReviewAgent
