import ReviewAgent.Effects.Sum
import ReviewAgent.Orchestrator.Operations

/-! The events spine: one emission per event type, and its log-and-continue policy. -/
namespace ReviewAgent

open Effects

/-- `_emit`: a row the schema rejects is raised, an unavailable database is logged. -/
def emit (event : AgentEvent) : Orchestrated Unit :=
  tryCatch (attemptOp (.insertEvent event) fun written => written) fun e =>
    if e.isInstance .integrityError then throw e
    else if e.isInstanceOfAny [.psycopgError, .osError, .circuitOpenError] then pure ()
    else throw e

/-- Stamp an event, build it, and write it. -/
def emitAt (use : ClockUse) (fields : ℚ → EventFields) : Orchestrated Unit := do
  let ts ← ask (.now use)
  let event ← Program.ofExcept (AgentEvent.validate (fields ts))
  emit event

def emitSpanStart (reviewId agent : String) : Orchestrated Unit :=
  emitAt .spanStart fun ts => { reviewId, eventType := .spanStart, ts, agent := some agent }

def emitSpanEnd (reviewId agent : String) (latencyMs : ℕ) (outcome : String) :
    Orchestrated Unit :=
  emitAt .spanEnd fun ts =>
    { reviewId, eventType := .spanEnd, ts, agent := some agent, latencyMs := some latencyMs,
      outcome := some outcome }

def emitDecision (reviewId : String) (agent : Option String) (outcome : String)
    (confidence : Option ℕ) : Orchestrated Unit :=
  emitAt .decision fun ts =>
    { reviewId, eventType := .decision, ts, agent, outcome := some outcome, confidence }

def emitLlmCall (reviewId agent model : String) (tokensIn tokensOut costUsd latencyMs : ℕ) :
    Orchestrated Unit :=
  emitAt .llmCall fun ts =>
    { reviewId, eventType := .llmCall, ts, agent := some agent, model := some model,
      tokensIn := some tokensIn, tokensOut := some tokensOut, costUsd := some costUsd,
      latencyMs := some latencyMs }

/-- `traced_span`: the span's end is recorded however the block ends. -/
def tracedSpan {α : Type} (reviewId agent : String) (block : Orchestrated α) :
    Orchestrated α := do
  emitSpanStart reviewId agent
  let result ← block.attempt
  let latencyMs ← ask (.latencyMs .spanEnd)
  emitSpanEnd reviewId agent latencyMs (if result.isOk then "ok" else "error")
  Program.ofExcept result

/-- The ways an operation on Postgres fails while the database is unavailable. -/
def IsOutage (e : Exc) : Prop :=
  e.isInstanceOfAny [.operationalError, .osError, .circuitOpenError] = true

instance (e : Exc) : Decidable (IsOutage e) := inferInstanceAs (Decidable (_ = true))

theorem IsOutage.cases {e : Exc} (h : IsOutage e) : e.isInstance .operationalError = true ∨
    e.isInstance .osError = true ∨ e.isInstance .circuitOpenError = true := by
  simpa [IsOutage, Exc.isInstanceOfAny] using h

/-- An outage is not of a class that has nothing to do with the three. -/
theorem IsOutage.not_isInstance {e : Exc} (h : IsOutage e) {c : ExcClass}
    (hc : ∀ d ∈ [ExcClass.operationalError, .osError, .circuitOpenError],
      c.isSubclass d = false ∧ d.isSubclass c = false) : e.isInstance c = false := by
  rw [← Bool.not_eq_true]
  intro hec
  obtain ⟨d, hd, hed⟩ := Exc.isInstanceOfAny_iff.mp h
  obtain ⟨h1, h2⟩ := hc d hd
  rcases ExcClass.isSubclass_comparable hec hed with hs | hs
  · simp [h1] at hs
  · simp [h2] at hs

theorem IsOutage.not_isInstanceOfAny {e : Exc} (h : IsOutage e) {classes : List ExcClass}
    (hc : ∀ c ∈ classes, ∀ d ∈ [ExcClass.operationalError, .osError, .circuitOpenError],
      c.isSubclass d = false ∧ d.isSubclass c = false) : e.isInstanceOfAny classes = false := by
  rw [← Bool.not_eq_true, Exc.isInstanceOfAny_iff]
  rintro ⟨c, hmem, hec⟩
  simp [h.not_isInstance (hc c hmem)] at hec

/-- `_emit` logs the exception and goes on. -/
def Swallowed (e : Exc) : Prop :=
  e.isInstance .integrityError = false ∧
    e.isInstanceOfAny [.psycopgError, .osError, .circuitOpenError] = true

theorem IsOutage.swallowed {e : Exc} (h : IsOutage e) : Swallowed e := by
  refine ⟨h.not_isInstance (by decide), ?_⟩
  rw [Exc.isInstanceOfAny_iff]
  rcases h.cases with he | he | he
  · exact ⟨.psycopgError, by simp, Exc.isInstance_of_isSubclass he rfl⟩
  · exact ⟨.osError, by simp, he⟩
  · exact ⟨.circuitOpenError, by simp, he⟩

/-- Writes to the events store fail only in the ways that `_emit` swallows. -/
def WritesSwallowed (answers : Answers) : Prop :=
  ∀ event e, answers (.insertEvent event) = .error e → Swallowed e

/-- Writes to the events store fail only in the ways an unavailable database makes them fail. -/
def WritesFailByOutage (answers : Answers) : Prop :=
  ∀ event e, answers (.insertEvent event) = .error e → IsOutage e

theorem WritesFailByOutage.swallowed {answers : Answers} (h : WritesFailByOutage answers) :
    WritesSwallowed answers :=
  fun event e he => (h event e he).swallowed

section

variable {answers : Answers}

theorem emit_outcome (h : WritesSwallowed answers) (event : AgentEvent) :
    (emit event).outcome answers = .ok () := by
  rw [emit, Program.outcome_tryCatch, outcome_attemptOp]
  cases hwritten : answers (.insertEvent event) with
  | ok u => rfl
  | error e =>
    obtain ⟨hintegrity, hcaught⟩ := h event e hwritten
    simp only [tryCatch, tryCatchThe, MonadExceptOf.tryCatch, Except.tryCatch, hintegrity, hcaught]
    rfl

/-- An emission of well-formed fields ends normally, written or not. -/
theorem emitAt_outcome (h : WritesSwallowed answers) {use : ClockUse} {fields : ℚ → EventFields}
    (hvalid : ∀ check ∈ (fields (answers (.now use))).checks, check.2 = true) :
    (emitAt use fields).outcome answers = .ok () := by
  rw [emitAt, outcome_ask_bind, Program.outcome_bind, Program.outcome_ofExcept,
    AgentEvent.validate_ok hvalid]
  exact emit_outcome h _

/-- An emission of fields out of bounds is raised. -/
theorem emitAt_raises {use : ClockUse} {fields : ℚ → EventFields} {field : String}
    (hinvalid : ((fields (answers (.now use))).checks.find? fun check => !check.2).map Prod.fst =
      some field) :
    (emitAt use fields).outcome answers = .error (validationError "AgentEvent" field) := by
  rw [emitAt, outcome_ask_bind, Program.outcome_bind, Program.outcome_ofExcept,
    AgentEvent.validate_error hinvalid]
  rfl

/-- A review id and an agent name that events accept. -/
def Attributable (reviewId agent : String) : Prop :=
  (1 ≤ reviewId.length ∧ reviewId.length ≤ 200) ∧ agent.length ≤ 100

/-- A span ends as its block does. -/
theorem tracedSpan_outcome {α : Type} (h : WritesSwallowed answers) {reviewId agent : String}
    (hnames : Attributable reviewId agent) (block : Orchestrated α) :
    (tracedSpan reviewId agent block).outcome answers = block.outcome answers := by
  have hstart : (emitSpanStart reviewId agent).outcome answers = .ok () :=
    emitAt_outcome h (by simp [EventFields.checks, hnames.1, hnames.2])
  have hend : ∀ latencyMs (ended : Bool), (emitSpanEnd reviewId agent latencyMs
      (if ended then "ok" else "error")).outcome answers = .ok () := by
    intro latencyMs ended
    apply emitAt_outcome h
    cases ended <;> simp [EventFields.checks, hnames.1, hnames.2] <;> decide
  rw [tracedSpan, Program.outcome_bind, hstart]
  show ((block.attempt >>= _ : Orchestrated α).outcome answers) = _
  rw [Program.outcome_bind, Program.outcome_attempt]
  show ((ask (.latencyMs .spanEnd) >>= _ : Orchestrated α).outcome answers) = _
  rw [outcome_ask_bind, Program.outcome_bind, hend]
  rfl

/-- A span that returns has the result of its block. -/
theorem tracedSpan_ok {α : Type} {reviewId agent : String} {block : Orchestrated α} {a : α}
    (h : (tracedSpan reviewId agent block).outcome answers = .ok a) :
    block.outcome answers = .ok a := by
  obtain ⟨u, -, h⟩ := Program.outcome_bind_ok h
  obtain ⟨result, hresult, h⟩ := Program.outcome_bind_ok h
  obtain ⟨latencyMs, -, h⟩ := Program.outcome_bind_ok h
  obtain ⟨u', -, h⟩ := Program.outcome_bind_ok h
  rw [Program.outcome_attempt] at hresult
  exact (Except.ok.inj hresult).trans h

end

end ReviewAgent
