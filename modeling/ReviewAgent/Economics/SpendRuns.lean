import ReviewAgent.Database.AgentEvents
import ReviewAgent.Effects.Machine
import ReviewAgent.Tools.LlmClient

/-! Calls of `complete` on one table of events within one UTC day: where each stands, and what one
operation of it does. -/
namespace ReviewAgent

open Effects

/-- The arguments of one call, with the settings of its client. -/
structure LlmCall where
  settings : Settings
  system : String
  user : String
  agent : String
  reviewId : Option String

def LlmCall.complete (call : LlmCall) : Orchestrated LlmResponse :=
  AnthropicLlmClient.complete call.settings call.system call.user call.agent call.reviewId

/-- What an answer costs at the prices of the call's model. -/
def LlmCall.cost (call : LlmCall) (message : Message) : Except Exc ℕ :=
  computeCostUsd call.settings.anthropicModel message.inputTokens message.outputTokens

/-- The clock, the table, how many requests reached the provider, and what its answers cost. -/
structure SpendWorld where
  now : ℚ
  table : AgentEvents
  requests : ℕ := 0
  answers : List (String × Message) := []

/-- What the environment decides at an operation. -/
inductive SpendChoice where
  | go
  | latency (ms : ℕ)
  | answer (message : Except Exc Message)

/-- A healthy store, whose circuit breaker stays closed, and any provider, from midnight `day` to the
next. -/
def spending (day : ℚ) : Machine OrchestratorSignature SpendWorld SpendChoice ℚ where
  perform _ w op c :=
    match op, c with
    | .now _, .go => some (w, w.now)
    -- no call outlasts the day
    | .latencyMs _, .latency ms => if ms ≤ 24 * 60 * 60 * 1000 then some (w, ms) else none
    | .insertEvent event, .go =>
      (w.table.insert event).map fun r => ({ w with table := r.1 }, r.2)
    | .sumLlmCostForDay dayStart, .go => some (w, .ok (w.table.sumLlmCostForDay dayStart))
    | .createMessage request, .answer message =>
      some ({ w with
        requests := w.requests + 1
        answers := w.answers ++ message.toOption.toList.map fun m => (request.model, m) }, message)
    | _, _ => none
  move w seconds :=
    if 0 ≤ seconds ∧ w.now + seconds < day + daySeconds then
      some { w with now := w.now + seconds }
    else none

/-- Where a call stands: what it has read, been answered, priced and stamped. -/
inductive SpendStage where
  | fresh
  | dated (now : ℚ)
  | admitted
  | answered (message : Message)
  | priced (reviewId : String) (message : Message) (latencyMs costUsd : ℕ)
  | stamped (response : LlmResponse) (event : AgentEvent)
  | ended (result : Except Exc LlmResponse)

namespace SpendStage

variable (call : LlmCall)

def response (message : Message) (latencyMs costUsd : ℕ) : LlmResponse where
  text := extractText message
  model := call.settings.anthropicModel
  tokensIn := message.inputTokens
  tokensOut := message.outputTokens
  costUsd := costUsd
  latencyMs := latencyMs

/-- The fields of the event of an answer. -/
def eventFields (reviewId : String) (message : Message) (latencyMs costUsd : ℕ) (ts : ℚ) :
    EventFields where
  reviewId := reviewId
  eventType := .llmCall
  ts := ts
  agent := some call.agent
  model := some call.settings.anthropicModel
  tokensIn := some message.inputTokens
  tokensOut := some message.outputTokens
  costUsd := some costUsd
  latencyMs := some latencyMs

/-- The rest of a call. -/
def program : SpendStage → Orchestrated LlmResponse
  | fresh => call.complete
  | dated now => do
    (do
      let spent ← attemptOp (.sumLlmCostForDay (startOfDayUtc now)) fun spent => spent
      if (BudgetGuard.mk call.settings.budgetDailyCapUsd).blocks spent then
        throw (budgetExceeded spent call.settings.budgetDailyCapUsd)
      else pure ())
    Program.ofExcept (AnthropicLlmClient.client call.settings)
    let message ← tryCatch
      (attemptOp (.createMessage (AnthropicLlmClient.request call.settings call.system call.user))
        fun answer => answer)
      fun e => throw (llmCallFailure e)
    AnthropicLlmClient.account call.settings call.agent call.reviewId message
  | admitted => do
    let message ← tryCatch
      (attemptOp (.createMessage (AnthropicLlmClient.request call.settings call.system call.user))
        fun answer => answer)
      fun e => throw (llmCallFailure e)
    AnthropicLlmClient.account call.settings call.agent call.reviewId message
  | answered message =>
    AnthropicLlmClient.account call.settings call.agent call.reviewId message
  | priced reviewId message latencyMs costUsd => do
    emitLlmCall reviewId call.agent call.settings.anthropicModel message.inputTokens
      message.outputTokens costUsd latencyMs
    pure (response call message latencyMs costUsd)
  | stamped r event => do
    emit event
    pure r
  | ended result => .done result

/-- Where the call stands once the day's sum is read. -/
def afterSum : Except Exc Spend → SpendStage
  | .error e => ended (.error e)
  | .ok spent =>
    if (BudgetGuard.mk call.settings.budgetDailyCapUsd).blocks spent then
      ended (.error (budgetExceeded spent call.settings.budgetDailyCapUsd))
    else
      match AnthropicLlmClient.client call.settings with
      | .error e => ended (.error e)
      | .ok () => admitted

def afterAnswer : Except Exc Message → SpendStage
  | .error e => ended (.error (llmCallFailure e))
  | .ok message => answered message

def afterLatency (message : Message) (latencyMs : ℕ) : SpendStage :=
  match call.cost message with
  | .error e => ended (.error e)
  | .ok costUsd =>
    match call.reviewId with
    | none => ended (.ok (response call message latencyMs costUsd))
    | some reviewId => priced reviewId message latencyMs costUsd

def afterStamp (reviewId : String) (message : Message) (latencyMs costUsd : ℕ) (ts : ℚ) :
    SpendStage :=
  match AgentEvent.validate (eventFields call reviewId message latencyMs costUsd ts) with
  | .error e => ended (.error e)
  | .ok event => stamped (response call message latencyMs costUsd) event

theorem program_fresh : program call fresh =
    .step (.now .budget) fun now => program call (dated now) := rfl

theorem program_dated (now : ℚ) : program call (dated now) =
    .step (.sumLlmCostForDay (startOfDayUtc now)) fun spent =>
      program call (afterSum call spent) := by
  rw [program]
  show Program.step _ _ = _
  congr 1
  funext spent
  cases spent with
  | error e => rfl
  | ok spent =>
    simp only [afterSum]
    cases hblocks : (BudgetGuard.mk call.settings.budgetDailyCapUsd).blocks spent with
    | true =>
      show ((if (BudgetGuard.mk call.settings.budgetDailyCapUsd).blocks spent then throw _
        else pure ()) >>= fun _ => _ : Orchestrated _) = _
      rw [hblocks]
      rfl
    | false =>
      show ((if (BudgetGuard.mk call.settings.budgetDailyCapUsd).blocks spent then throw _
        else pure ()) >>= fun _ => _ : Orchestrated _) = _
      rw [hblocks]
      show (Program.ofExcept (AnthropicLlmClient.client call.settings) >>= fun _ => _ :
        Orchestrated _) = _
      cases AnthropicLlmClient.client call.settings with
      | error e => rfl
      | ok u => rfl

theorem program_admitted : program call admitted =
    .step (.createMessage (AnthropicLlmClient.request call.settings call.system call.user))
      fun message => program call (afterAnswer message) := by
  rw [program]
  show Program.step _ _ = _
  congr 1
  funext message
  cases message <;> rfl

theorem program_answered (message : Message) : program call (answered message) =
    .step (.latencyMs .llmCall) fun latencyMs =>
      program call (afterLatency call message latencyMs) := by
  rw [program]
  show Program.step _ _ = _
  congr 1
  funext latencyMs
  show (Program.ofExcept (call.cost message) >>= fun _ => _ : Orchestrated _) = _
  rw [afterLatency]
  cases call.cost message with
  | error e => rfl
  | ok costUsd =>
    cases h : call.reviewId with
    | none => rfl
    | some reviewId => rfl

theorem program_priced (reviewId : String) (message : Message) (latencyMs costUsd : ℕ) :
    program call (priced reviewId message latencyMs costUsd) =
      .step (.now .llmCall) fun ts =>
        program call (afterStamp call reviewId message latencyMs costUsd ts) := by
  rw [program]
  show Program.step _ _ = _
  congr 1
  funext ts
  rw [afterStamp]
  show ((Program.ofExcept (AgentEvent.validate (eventFields call reviewId message latencyMs costUsd
    ts)) >>= fun event => emit event) >>= fun _ => _ : Orchestrated _) = _
  cases AgentEvent.validate (eventFields call reviewId message latencyMs costUsd ts) <;> rfl

/-- What the answer to the insertion makes of the call. -/
def afterWrite (r : LlmResponse) : Except Exc Unit → SpendStage
  | .ok () => ended (.ok r)
  | .error e =>
    if e.isInstance .integrityError then ended (.error e)
    else if e.isInstanceOfAny [.psycopgError, .osError, .circuitOpenError] then ended (.ok r)
    else ended (.error e)

theorem program_stamped (r : LlmResponse) (event : AgentEvent) : program call (stamped r event) =
    .step (.insertEvent event) fun written => program call (afterWrite r written) := by
  rw [program]
  show Program.step _ _ = _
  congr 1
  funext written
  cases written with
  | ok u => rfl
  | error e =>
    simp only [afterWrite]
    show ((if e.isInstance .integrityError then throw e
      else if e.isInstanceOfAny [.psycopgError, .osError, .circuitOpenError] then pure ()
      else throw e) >>= fun _ => _ : Orchestrated _) = _
    split
    · rfl
    · split <;> rfl

/-- What one operation of a call does to the world and to where the call stands. -/
inductive Advance : SpendWorld → SpendStage → SpendWorld → SpendStage → Prop
  | date (w : SpendWorld) : Advance w fresh w (dated w.now)
  | sum (w : SpendWorld) (now : ℚ) : Advance w (dated now) w
      (afterSum call (.ok (w.table.sumLlmCostForDay (startOfDayUtc now))))
  | answer (w : SpendWorld) (message : Except Exc Message) : Advance w admitted
      { w with
        requests := w.requests + 1
        answers := w.answers ++
          message.toOption.toList.map fun m => (call.settings.anthropicModel, m) }
      (afterAnswer message)
  | time (w : SpendWorld) (message : Message) (ms : ℕ) (h : ms ≤ 24 * 60 * 60 * 1000) :
      Advance w (answered message) w (afterLatency call message ms)
  | stamp (w : SpendWorld) (reviewId : String) (message : Message) (latencyMs costUsd : ℕ) :
      Advance w (priced reviewId message latencyMs costUsd) w
        (afterStamp call reviewId message latencyMs costUsd w.now)
  | write (w : SpendWorld) (r : LlmResponse) (event : AgentEvent) (table : AgentEvents)
      (written : Except Exc Unit) (h : w.table.insert event = some (table, written)) :
      Advance w (stamped r event) { w with table := table } (afterWrite r written)

variable {call} {day : ℚ} {i : ℕ} {w w' : SpendWorld} {op : OrchestratorOp}
  {c : SpendChoice} {answer : OrchestratorSignature.Answer op}

theorem perform_cases (h : (spending day).perform i w op c = some (w', answer))
    {s : SpendStage} {k : OrchestratorSignature.Answer op → Orchestrated LlmResponse}
    (hs : program call s = .step op k) :
    ∃ s', Advance call w s w' s' ∧ k answer = program call s' := by
  cases s with
  | fresh =>
    obtain ⟨rfl, hk⟩ := Program.step.inj ((program_fresh call).symm.trans hs)
    obtain rfl := eq_of_heq hk
    cases c with
    | go =>
      obtain ⟨rfl, rfl⟩ := Prod.mk.inj (Option.some.inj h)
      exact ⟨_, .date w, rfl⟩
    | latency | answer => cases h
  | dated now =>
    obtain ⟨rfl, hk⟩ := Program.step.inj ((program_dated call now).symm.trans hs)
    obtain rfl := eq_of_heq hk
    cases c with
    | go =>
      obtain ⟨rfl, rfl⟩ := Prod.mk.inj (Option.some.inj h)
      exact ⟨_, .sum w now, rfl⟩
    | latency | answer => cases h
  | admitted =>
    obtain ⟨rfl, hk⟩ := Program.step.inj ((program_admitted call).symm.trans hs)
    obtain rfl := eq_of_heq hk
    cases c with
    | answer message =>
      obtain ⟨rfl, rfl⟩ := Prod.mk.inj (Option.some.inj h)
      exact ⟨_, .answer w message, rfl⟩
    | latency | go => cases h
  | answered message =>
    obtain ⟨rfl, hk⟩ := Program.step.inj ((program_answered call message).symm.trans hs)
    obtain rfl := eq_of_heq hk
    cases c with
    | latency ms =>
      simp only [spending] at h
      split at h
      · rename_i hms
        obtain ⟨rfl, rfl⟩ := Prod.mk.inj (Option.some.inj h)
        exact ⟨_, .time w message ms hms, rfl⟩
      · cases h
    | answer | go => cases h
  | priced reviewId message latencyMs costUsd =>
    obtain ⟨rfl, hk⟩ := Program.step.inj
      ((program_priced call reviewId message latencyMs costUsd).symm.trans hs)
    obtain rfl := eq_of_heq hk
    cases c with
    | go =>
      obtain ⟨rfl, rfl⟩ := Prod.mk.inj (Option.some.inj h)
      exact ⟨_, .stamp w reviewId message latencyMs costUsd, rfl⟩
    | latency | answer => cases h
  | stamped r event =>
    obtain ⟨rfl, hk⟩ := Program.step.inj ((program_stamped call r event).symm.trans hs)
    obtain rfl := eq_of_heq hk
    cases c with
    | go =>
      obtain ⟨⟨table, written⟩, hinsert, hr⟩ := Option.map_eq_some_iff.mp h
      obtain ⟨rfl, rfl⟩ := Prod.mk.inj hr
      exact ⟨_, .write w r event table written hinsert, rfl⟩
    | latency | answer => cases h
  | ended result => cases hs

end SpendStage

end ReviewAgent
