import Mathlib.Data.List.Sort
import ReviewAgent.Economics.Ledger
import ReviewAgent.Effects.Protocols
import ReviewAgent.Orchestrator.Engine

/-! What each node of a run writes to `agent_events`: a protocol of its spans and decisions. -/
namespace ReviewAgent

open Effects

/-- The agent that a node's events carry. -/
def Node.agent : Node → String
  | .specialist agentType => agentName agentType
  | .aggregate => "aggregator"

theorem Node.agent_injective : Function.Injective Node.agent := by
  intro node node' h
  cases node with
  | specialist agentType =>
    cases node' with
    | specialist agentType' =>
      congr 1
      revert h
      cases agentType <;> cases agentType' <;> decide
    | aggregate => cases agentType <;> exact absurd h (by decide)
  | aggregate =>
    cases node' with
    | specialist agentType' => cases agentType' <;> exact absurd h (by decide)
    | aggregate => rfl

/-- The types of the events of a node that comes to its end, in order. -/
def Node.spans : Node → List (List EventType)
  | .specialist _ => [[.spanStart, .spanEnd], [.spanStart, .llmCall, .spanEnd]]
  | .aggregate => [[.decision]]

/-- One node of the run with this id. -/
abbrev NodeRun : Type := String × Node

/-- The event is one of this node's in this run. -/
def AttributedTo (run : NodeRun) (event : AgentEvent) : Prop :=
  event.reviewId = run.1 ∧ event.agent = some run.2.agent

instance (run : NodeRun) (event : AgentEvent) : Decidable (AttributedTo run event) :=
  inferInstanceAs (Decidable (_ ∧ _))

/-- How far a node is with its events: its last reading of the clock, the events it has written, and
whether every write so far returned. -/
structure Emissions where
  stamp : ℚ
  events : List AgentEvent := []
  clean : Bool := true

def Emissions.types (z : Emissions) : List EventType := z.events.map fun event => event.eventType

/-- The protocol of a node: its next event is of the next type, and is stamped now. -/
def emission (run : NodeRun) : Protocol OrchestratorSignature Emissions where
  allows z op := ∀ event, op = .insertEvent event → AttributedTo run event ∧ event.ts = z.stamp ∧
    ∃ word ∈ run.2.spans, z.types ++ [event.eventType] <+: word
  next
    | z, .now _, ts => { z with stamp := ts }
    | z, .insertEvent event, written =>
      { z with events := z.events ++ [event], clean := z.clean && written.isOk }
    | z, _, _ => z

/-- A node's program, with the id of its run in its state and its configuration. -/
def nodeProgram (setup : AgentSetup) (states : NodeRun → GraphState) (run : NodeRun) :
    Orchestrated (NodeUpdate ⊕ Review × String) :=
  let state := { states run with reviewId := run.1 }
  match run.2 with
  | .specialist agentType => do
    let update ← specialistNode (runSpecialistAnalysis setup agentType) agentType run.1 state
    pure (.inl update)
  | .aggregate => do
    let made ← aggregateNode setup.settings state
    pure (.inr made)

/-- An operation that writes no event. -/
def OrchestratorOp.Quiet (op : OrchestratorOp) : Prop := ∀ event, op ≠ .insertEvent event

section

variable {run : NodeRun} {z : Emissions} {α : Type}

/-- What writes no event leaves the events as they are. -/
theorem quiet_keeps {p : Orchestrated α} (h : p.Issues OrchestratorOp.Quiet) :
    p.Keeps (emission run) (fun _ (z' : Emissions) => z'.events = z.events ∧ z'.clean = z.clean) z := by
  refine Program.Issues.keeps (I := fun z' : Emissions => z'.events = z.events ∧ z'.clean = z.clean) h ?_
    ⟨rfl, rfl⟩
  intro z' op hz' hquiet
  refine ⟨fun event hop => absurd hop (hquiet event), fun answer => ?_⟩
  cases op with
  | insertEvent event => exact absurd rfl (hquiet event)
  | _ => exact hz'

/-- An emission that does not raise where the write returned. -/
theorem emit_keeps {event : AgentEvent} (hallows : (emission run).allows z (.insertEvent event)) :
    (emit event).Keeps (emission run) (fun r (z' : Emissions) => z'.events = z.events ++ [event] ∧
      (z'.clean = true → z.clean = true ∧ r = .ok ())) z := by
  refine ⟨hallows, fun written => ?_⟩
  cases written with
  | ok u => exact ⟨rfl, fun h => ⟨(Bool.and_eq_true_iff.mp h).1, rfl⟩⟩
  | error e =>
    show Program.Keeps _ _ (if _ then _ else _) _
    have hunclean : ∀ r : Except Exc Unit, (z.clean && (Except.error e : Except Exc Unit).isOk) =
        true → z.clean = true ∧ r = .ok () :=
      fun r h => absurd (Bool.and_eq_true_iff.mp h).2 Bool.false_ne_true
    split
    · exact ⟨rfl, hunclean _⟩
    · split
      · exact ⟨rfl, hunclean _⟩
      · exact ⟨rfl, hunclean _⟩

/-- An emission: its event is written, or cannot be built. -/
theorem emitAt_keeps {use : ClockUse} {fields : ℚ → EventFields} {Q : Except Exc Unit → Emissions → Prop}
    (hnames : ∀ ts, (fields ts).reviewId = run.1 ∧ (fields ts).agent = some run.2.agent ∧
      (fields ts).ts = ts)
    (hword : ∀ ts, ∃ word ∈ run.2.spans, z.types ++ [(fields ts).eventType] <+: word)
    (hwritten : ∀ ts event r z', event.toEventFields = fields ts → z'.events = z.events ++ [event] →
      (z'.clean = true → z.clean = true ∧ r = .ok ()) → Q r z')
    (hinvalid : ∀ ts e, AgentEvent.validate (fields ts) = .error e →
      Q (.error e) { z with stamp := ts }) :
    (emitAt use fields).Keeps (emission run) Q z := by
  refine ⟨fun event hop => (by cases hop), fun ts => ?_⟩
  show Program.Keeps (emission run) Q (Program.ofExcept (AgentEvent.validate (fields ts)) >>= emit)
    { z with stamp := ts }
  cases hvalid : AgentEvent.validate (fields ts) with
  | error e => exact hinvalid ts e hvalid
  | ok event =>
    have hfields : event.toEventFields = fields ts := SpendStage.validate_toEventFields hvalid
    refine (emit_keeps ?_).mono fun r z' hz' => hwritten ts event r z' hfields hz'.1 hz'.2
    intro event' hop
    obtain rfl := OrchestratorOp.insertEvent.inj hop
    obtain ⟨hid, hagent, hts⟩ := hnames ts
    refine ⟨⟨by rw [hfields, hid], by rw [hfields, hagent]⟩, by rw [hfields, hts], ?_⟩
    rw [hfields]
    exact hword ts

/-! ### A specialist's span -/

theorem types_of_events {z z' : Emissions} {events : List AgentEvent}
    (h : z'.events = z.events ++ events) :
    z'.types = z.types ++ events.map fun event => event.eventType := by
  rw [Emissions.types, h, List.map_append, Emissions.types]

/-- Events take the run's id, and every write so far returned. -/
def Dependable (run : NodeRun) (z : Emissions) : Prop :=
  (1 ≤ run.1.length ∧ run.1.length ≤ 200) ∧ z.clean = true

/-- The span is open, and at most the one call is in it. -/
def SpanOpen (z : Emissions) : Prop :=
  z.types = [.spanStart] ∨ z.types = [.spanStart, .llmCall]

/-- The events of a span that is closed; its end says how its block ended. -/
def SpanClosed (run : NodeRun) (ended : Bool) (events : List AgentEvent) : Prop :=
  (events.map fun event => event.eventType) ∈ run.2.spans ∧
    ∃ closing ∈ events.getLast?, closing.outcome = some (if ended then "ok" else "error")

section

variable {agentType : AgentType} {reviewId : String}

theorem emitSpanStart_keeps (hz : z.types = []) :
    (emitSpanStart reviewId (agentName agentType)).Keeps (emission (reviewId, .specialist agentType))
      (fun r (z' : Emissions) => (r.isOk = true ∧ z'.types = [.spanStart]) ∨
        (r.isOk = false ∧ ¬ Dependable (reviewId, .specialist agentType) z')) z := by
  refine emitAt_keeps (fun ts => ⟨rfl, rfl, rfl⟩) (fun ts => ?_) (fun ts event r z' hfields hz' hr => ?_)
    fun ts e he => Or.inr ⟨rfl, fun hdependable => ?_⟩
  · exact ⟨[.spanStart, .spanEnd], by simp [Node.spans], by simp [hz]⟩
  · cases r with
    | ok u => exact Or.inl ⟨rfl, by rw [types_of_events hz', hz]; simp [hfields]⟩
    | error e => exact Or.inr ⟨rfl, fun hdependable => by cases (hr hdependable.2).2⟩
  · have hnames : Attributable reviewId (agentName agentType) :=
      ⟨hdependable.1, by have := (agentName_length agentType).2; omega⟩
    rw [AgentEvent.validate_ok (by simp [EventFields.checks, hnames.1, hnames.2])] at he
    cases he

theorem emitSpanEnd_keeps {latencyMs : ℕ} {ended : Bool} (hz : SpanOpen z) :
    (emitSpanEnd reviewId (agentName agentType) latencyMs (if ended then "ok" else "error")).Keeps
      (emission (reviewId, .specialist agentType))
      (fun r (z' : Emissions) => Dependable (reviewId, .specialist agentType) z' →
        r = .ok () ∧ SpanClosed (reviewId, .specialist agentType) ended z'.events) z := by
  refine emitAt_keeps (fun ts => ⟨rfl, rfl, rfl⟩) (fun ts => ?_)
    (fun ts event r z' hfields hz' hr hdependable => ?_) fun ts e he hdependable => ?_
  · refine ⟨z.types ++ [.spanEnd], ?_, List.prefix_rfl⟩
    rcases hz with hz | hz <;> simp [hz, Node.spans]
  · refine ⟨(hr hdependable.2).2, ?_, event, by simp [hz'], by rw [hfields]⟩
    show z'.types ∈ _
    rw [types_of_events hz']
    rcases hz with hz | hz <;> simp [hz, hfields, Node.spans]
  · have hnames : Attributable reviewId (agentName agentType) :=
      ⟨hdependable.1, by have := (agentName_length agentType).2; omega⟩
    have hvalid : ∀ check ∈ (EventFields.mk reviewId .spanEnd ts (some (agentName agentType)) none
        none none none (some latencyMs) (some (if ended then "ok" else "error")) none).checks,
        check.2 = true := by
      cases ended <;> simp [EventFields.checks, hnames.1, hnames.2] <;> decide
    rw [AgentEvent.validate_ok hvalid] at he
    cases he

/-- A span around a block that leaves it open. -/
theorem tracedSpan_keeps {block : Orchestrated α} (hz : z.types = [])
    (hblock : ∀ z : Emissions, z.types = [.spanStart] → block.Keeps
      (emission (reviewId, .specialist agentType)) (fun _ z' => SpanOpen z') z) :
    (tracedSpan reviewId (agentName agentType) block).Keeps
      (emission (reviewId, .specialist agentType))
      (fun r z' => Dependable (reviewId, .specialist agentType) z' →
        SpanClosed (reviewId, .specialist agentType) r.isOk z'.events) z := by
  refine (emitSpanStart_keeps hz).bind (fun _ z₁ h₁ => ?_) fun e z₁ h₁ hdependable => ?_
  · rcases h₁ with ⟨-, h₁⟩ | ⟨hok, -⟩
    · refine ((hblock z₁ h₁).attempt (Q := fun r z' => (∃ result, r = .ok result) ∧ SpanOpen z')
        fun r z' h => ⟨⟨r, rfl⟩, h⟩).bind (fun result z₂ h₂ => ?_) fun e z₂ h₂ => ?_
      · refine ⟨fun event hop => (by cases hop), fun latencyMs => ?_⟩
        refine (emitSpanEnd_keeps h₂.2).bind (fun _ z₃ h₃ hdependable => (h₃ hdependable).2)
          fun e z₃ h₃ hdependable => ?_
        cases (h₃ hdependable).1
      · cases h₂.1.choose_spec
    · cases hok
  · rcases h₁ with ⟨hok, -⟩ | ⟨-, hnot⟩
    · cases hok
    · exact absurd hdependable hnot

/-- A part of a block that writes no event, and what follows it. -/
theorem quiet_bind_keeps {β : Type} {p : Orchestrated β} {f : β → Orchestrated α}
    {types : List EventType} {I : Emissions → Prop} (hp : p.Issues OrchestratorOp.Quiet)
    (hz : z.types = types) (hI : ∀ z : Emissions, z.types = types → I z)
    (hf : ∀ a (z : Emissions), z.types = types → (f a).Keeps (emission run) (fun _ z => I z) z) :
    (p >>= f).Keeps (emission run) (fun _ z => I z) z := by
  have htypes : ∀ z' : Emissions, z'.events = z.events ∧ z'.clean = z.clean → z'.types = types :=
    fun z' h => by rw [Emissions.types, h.1, ← hz, Emissions.types]
  exact (quiet_keeps hp).bind (fun a z' h => hf a z' (htypes z' h)) fun e z' h => hI z' (htypes z' h)

theorem quiet_attemptOp {β : Type} {op : OrchestratorOp}
    {read : OrchestratorSignature.Answer op → Except Exc β} (hop : op.Quiet) :
    (attemptOp op read).Issues OrchestratorOp.Quiet :=
  Program.issues_bind (Program.issues_perform hop) fun _ => Program.issues_done _

theorem emitLlmCall_keeps {model : String} {tokensIn tokensOut costUsd latencyMs : ℕ}
    (hz : z.types = [.spanStart]) :
    (emitLlmCall reviewId (agentName agentType) model tokensIn tokensOut costUsd latencyMs).Keeps
      (emission (reviewId, .specialist agentType)) (fun _ z => SpanOpen z) z := by
  refine emitAt_keeps (fun ts => ⟨rfl, rfl, rfl⟩) (fun ts => ?_)
    (fun ts event r z' hfields hz' hr => Or.inr ?_) fun ts e he => Or.inl hz
  · exact ⟨[.spanStart, .llmCall, .spanEnd], by simp [Node.spans], by simp [hz]⟩
  · rw [types_of_events hz', hz]
    simp [hfields]

/-- The call of a specialist writes one event at most. -/
theorem complete_keeps {settings : Settings} {system user : String} (hz : z.types = [.spanStart]) :
    (AnthropicLlmClient.complete settings system user (agentName agentType) (some reviewId)).Keeps
      (emission (reviewId, .specialist agentType)) (fun _ z => SpanOpen z) z := by
  have hopen : ∀ z : Emissions, z.types = [.spanStart] → SpanOpen z := fun z h => Or.inl h
  have hcheck : (BudgetGuard.mk settings.budgetDailyCapUsd).checkAndRaise.Issues
      OrchestratorOp.Quiet := by
    refine Program.issues_bind (Program.issues_bind ⟨fun event h => (by cases h), fun _ => trivial⟩
      fun now => quiet_attemptOp fun event h => by cases h) fun spent => ?_
    split <;> exact Program.issues_done _
  have hcall : (tryCatch (attemptOp (.createMessage (AnthropicLlmClient.request settings system user))
      fun answer => answer) fun e => throw (llmCallFailure e) : Orchestrated Message).Issues
        OrchestratorOp.Quiet :=
    Program.issues_tryCatch (quiet_attemptOp fun event h => by cases h) fun e =>
      Program.issues_done _
  refine quiet_bind_keeps hcheck hz hopen fun _ z hz => ?_
  refine quiet_bind_keeps (Program.issues_done _) hz hopen fun _ z hz => ?_
  refine quiet_bind_keeps hcall hz hopen fun message z hz => ?_
  refine quiet_bind_keeps ⟨fun event h => (by cases h), fun _ => trivial⟩ hz hopen
    fun latencyMs z hz => ?_
  refine quiet_bind_keeps (Program.issues_done _) hz hopen fun costUsd z hz => ?_
  exact (emitLlmCall_keeps hz).bind (fun _ z h => h) fun e z h => h

theorem runSpecialistAnalysis_keeps {setup : AgentSetup} {diff : String}
    (hz : z.types = [.spanStart]) :
    (runSpecialistAnalysis setup agentType diff (some reviewId)).Keeps
      (emission (reviewId, .specialist agentType)) (fun _ z => SpanOpen z) z := by
  have hmessage : (buildUserMessage diff setup.retriever).Issues OrchestratorOp.Quiet := by
    unfold buildUserMessage
    split
    · refine Program.issues_bind (Program.issues_attempt (quiet_attemptOp fun event h => by cases h))
        fun found => ?_
      split
      · exact Program.issues_done _
      · split <;> exact Program.issues_done _
    · exact Program.issues_done _
  refine quiet_bind_keeps hmessage hz (fun z h => Or.inl h) fun userMessage z hz => ?_
  exact (complete_keeps hz).bind (fun _ z h => h) fun e z h => h

theorem specialistNode_keeps (setup : AgentSetup) (agentType : AgentType) (state : GraphState)
    (hid : state.reviewId = reviewId) (hz : z.types = []) :
    (specialistNode (runSpecialistAnalysis setup agentType) agentType reviewId state).Keeps
      (emission (reviewId, .specialist agentType))
      (fun r z' => Dependable (reviewId, .specialist agentType) z' →
        SpanClosed (reviewId, .specialist agentType) r.isOk z'.events) z := by
  rw [specialistNode, hid]
  refine tracedSpan_keeps hz fun z hz => ?_
  have hrun : (runSpecialist (runSpecialistAnalysis setup agentType) reviewId
      (state.diff.getD "")).Keeps (emission (reviewId, .specialist agentType))
        (fun _ z => SpanOpen z) z := by
    unfold runSpecialist
    split
    · exact Or.inl hz
    · exact runSpecialistAnalysis_keeps hz
  exact (hrun.attempt (Q := fun _ z => SpanOpen z) fun r z h => h).bind (fun analysed z h => h)
    fun e z h => h

/-! ### The aggregator's decision -/

/-- The one event is the decision of this review. -/
def DecisionMade (review : Review) (events : List AgentEvent) : Prop :=
  ∃ event, events = [event] ∧ event.eventType = .decision ∧
    event.outcome = some review.status.value ∧
    event.confidence = some review.overallConfidence.thousandths

theorem emitDecision_keeps {review : Review} (hz : z.events = []) :
    (emitDecision reviewId (some "aggregator") review.status.value
        (some review.overallConfidence.thousandths)).Keeps (emission (reviewId, .aggregate))
      (fun r z' => r = .ok () → z'.clean = true → DecisionMade review z'.events) z := by
  have htypes : z.types = [] := by rw [Emissions.types, hz, List.map_nil]
  refine emitAt_keeps (fun ts => ⟨rfl, rfl, rfl⟩) (fun ts => ?_)
    (fun ts event r z' hfields hz' hr hok hclean => ⟨event, ?_⟩) fun ts e he hok => by cases hok
  · exact ⟨[.decision], by simp [Node.spans], by simp [htypes]⟩
  · simp [hz', hz, hfields]

theorem persistReview_quiet {review : Review} {reason : String} :
    (persistReview review reason).Issues OrchestratorOp.Quiet := by
  refine Program.issues_tryCatch (quiet_attemptOp fun event h => by cases h) fun e => ?_
  split <;> exact Program.issues_done _

/-- The aggregator from its review on. -/
theorem decideAndPersist_keeps {review : Review} {reason : String} (hz : z.events = []) :
    (do
      emitDecision reviewId (some "aggregator") review.status.value
        (some review.overallConfidence.thousandths)
      persistReview review reason
      pure (review, reason) : Orchestrated (Review × String)).Keeps
        (emission (reviewId, .aggregate))
        (fun r z' => ∀ made, r = .ok made → z'.clean = true → DecisionMade made.1 z'.events) z := by
  refine (emitDecision_keeps hz).bind (fun _ z₁ h₁ => ?_) fun e z₁ h₁ made h => by cases h
  refine (quiet_keeps persistReview_quiet).bind (fun _ z₂ h₂ made hmade hclean => ?_)
    fun e z₂ h₂ made h => by cases h
  obtain rfl := Except.ok.inj hmade
  obtain ⟨event, hevents, hevent⟩ := h₁ rfl (h₂.2 ▸ hclean)
  exact ⟨event, h₂.1.trans hevents, hevent⟩

theorem aggregateNode_keeps (settings : Settings) (state : GraphState)
    (hid : state.reviewId = reviewId) (hz : z.events = []) :
    (aggregateNode settings state).Keeps (emission (reviewId, .aggregate))
      (fun r z' => ∀ made, r = .ok made → z'.clean = true → DecisionMade made.1 z'.events) z := by
  subst hid
  unfold aggregateNode
  cases hrouted : routeFindings settings.hitlConfidenceThreshold state.findings with
  | error e => exact fun made h => by cases h
  | ok routed =>
    have hmake : ∀ validated : Except Exc Review, (∀ review, validated = .ok review →
        review.overallConfidence.thousandths = routed.overallConfidence ∧
          review.status = routed.status) → ∀ z : Emissions, z.events = [] →
        (do
          let review ← Program.ofExcept validated
          emitDecision state.reviewId (some "aggregator") routed.status.value
            (some routed.overallConfidence)
          persistReview review routed.reason
          pure (review, routed.reason) : Orchestrated (Review × String)).Keeps
            (emission (state.reviewId, .aggregate))
            (fun r z' => ∀ made, r = .ok made → z'.clean = true → DecisionMade made.1 z'.events) z := by
      intro validated hsame z hz
      cases validated with
      | error e => exact fun made h => by cases h
      | ok review =>
        obtain ⟨hconfidence, hstatus⟩ := hsame review rfl
        rw [← hconfidence, ← hstatus]
        exact decideAndPersist_keeps hz
    refine ⟨fun event h => (by cases h), fun createdAt => ?_⟩
    exact hmake (Review.validate state.reviewId state.prNumber state.repositoryOwner
      state.repositoryName state.headSha routed.findings routed.overallConfidence routed.status
      createdAt) (fun review h => (Review.fields_of_validate h).2.2) _ hz

end

end

end ReviewAgent
