import Mathlib.Data.Set.List
import ReviewAgent.Effects.Sum
import ReviewAgent.Orchestrator.Nodes

/-! The workflow engine: the graph over the persisted state of its thread. -/
namespace ReviewAgent

open Effects

inductive Node where
  | specialist (agentType : AgentType)
  | aggregate
  deriving DecidableEq, Repr

/-- What a run issues: the operations of its nodes, and its checkpoints. -/
inductive EngineOp where
  | node (node : Node) (op : OrchestratorOp)
  | load (threadId : String)
  | save (threadId : String) (state : GraphState)

abbrev EngineSignature : Signature where
  Op := EngineOp
  Answer
    | .node _ op => OrchestratorSignature.Answer op
    | .load _ => Option GraphState
    | .save .. => Unit

/-- How every operation of one run is answered. -/
abbrev RunAnswers : Type := (op : EngineOp) → EngineSignature.Answer op

/-- How the operations of one node are answered. -/
def RunAnswers.at (answers : RunAnswers) (node : Node) : Answers := fun op => answers (.node node op)

abbrev Engined (α : Type) : Type := Program EngineSignature Exc α

/-- A node's program, as a part of a run. -/
def Node.issue {α : Type} (node : Node) (p : Orchestrated α) : Engined α :=
  p.relabel (T := EngineSignature) (EngineOp.node node) fun _ answer => answer

/-- The specialists, in the order in which the graph merges what they return. -/
structure BranchOrder where
  agents : List AgentType
  complete : ∀ agentType, agentType ∈ agents
  nodup : agents.Nodup

/-- `_SPECIALIST_NODES`. -/
def specialistNodes : BranchOrder where
  agents := [.security, .quality, .tests, .docs]
  complete := by
    intro agentType
    cases agentType <;> decide
  nodup := by decide

/-- The updates of a super-step in which no branch raised. -/
def updatesOf : List (Except Exc NodeUpdate) → Except Exc (List NodeUpdate)
  | [] => .ok []
  | ended :: rest => do
    let update ← ended
    let updates ← updatesOf rest
    pure (update :: updates)

theorem updatesOf_ok {ended : List (Except Exc NodeUpdate)} {updates : List NodeUpdate} :
    updatesOf ended = .ok updates ↔ ended = updates.map .ok := by
  induction ended generalizing updates with
  | nil => cases updates <;> simp [updatesOf]
  | cons branch rest ih =>
    cases branch with
    | error e =>
      have : updatesOf (.error e :: rest) = .error e := rfl
      cases updates <;> simp [this]
    | ok update =>
      cases hrest : updatesOf rest with
      | error e =>
        have : updatesOf (.ok update :: rest) = .error e := by simp [updatesOf, hrest, bind, Except.bind]
        rw [this]
        cases updates with
        | nil => simp
        | cons u us =>
          have := @ih us
          rw [hrest] at this
          simp at this
          simp [this]
      | ok others =>
        have hall : updatesOf (.ok update :: rest) = .ok (update :: others) := by
          simp [updatesOf, hrest, bind, Except.bind, pure, Except.pure]
        rw [hall, ih.mp hrest]
        cases updates with
        | nil => simp
        | cons u us =>
          simp only [Except.ok.injEq, List.cons.injEq, List.map_cons]
          constructor
          · rintro ⟨rfl, rfl⟩
            exact ⟨rfl, rfl⟩
          · rintro ⟨rfl, hus⟩
            exact ⟨rfl, List.map_injective_iff.mpr (fun _ _ h => Except.ok.inj h) hus⟩

structure WorkflowEngine where
  settings : Settings
  agents : AgentType → Analyze
  order : BranchOrder

namespace WorkflowEngine

variable (engine : WorkflowEngine)

/-- The specialists' super-step: every branch comes to its end. -/
def branches (threadId : String) (state : GraphState) :
    List AgentType → Engined (List (Except Exc NodeUpdate))
  | [] => pure []
  | agentType :: agentTypes => do
    let ended ← ((Node.specialist agentType).issue
      (specialistNode (engine.agents agentType) agentType threadId state)).attempt
    let rest ← branches threadId state agentTypes
    pure (ended :: rest)

def load (threadId : String) : Engined (Option GraphState) :=
  Program.perform (S := EngineSignature) (.load threadId)

def save (threadId : String) (state : GraphState) : Engined Unit :=
  Program.perform (S := EngineSignature) (.save threadId state)

/-- The state that a graph ends in. -/
def finalState (merged : GraphState) (made : Review × String) : GraphState :=
  { merged with review := some made.1, routingReason := some made.2 }

/-- `run`: a checkpoint of the input, of the merged branches, and of the end. -/
def run (threadId : String) (initialState : GraphState) : Engined GraphState := do
  let persisted ← load threadId
  let state := GraphState.mergeInput persisted initialState
  save threadId state
  let ended ← engine.branches threadId state engine.order.agents
  let updates ← Program.ofExcept (updatesOf ended)
  let merged := state.reduceAll updates
  save threadId merged
  let made ← Node.aggregate.issue (aggregateNode engine.settings merged)
  let final := finalState merged made
  save threadId final
  pure final

variable {engine} {answers : RunAnswers} {threadId : String} {state initialState : GraphState}
  {agentType : AgentType}

theorem outcome_issue {α : Type} (node : Node) (p : Orchestrated α) :
    (node.issue p).outcome answers = p.outcome (answers.at node) :=
  Program.outcome_relabel (T := EngineSignature) answers p

/-- How one branch ends. -/
def branchOutcome (engine : WorkflowEngine) (answers : RunAnswers) (threadId : String)
    (state : GraphState) (agentType : AgentType) : Except Exc NodeUpdate :=
  (specialistNode (engine.agents agentType) agentType threadId state).outcome
    (answers.at (.specialist agentType))

theorem branches_outcome (agentTypes : List AgentType) :
    (engine.branches threadId state agentTypes).outcome answers =
      .ok (agentTypes.map (engine.branchOutcome answers threadId state)) := by
  induction agentTypes with
  | nil => rfl
  | cons agentType agentTypes ih =>
    rw [branches, Program.outcome_bind, Program.outcome_attempt, outcome_issue]
    show Program.outcome answers (engine.branches threadId state agentTypes >>= _ : Engined _) = _
    rw [Program.outcome_bind, ih]
    rfl

/-- The state that a run starts its branches from. -/
def startState (answers : RunAnswers) (threadId : String) (initialState : GraphState) :
    GraphState :=
  GraphState.mergeInput (answers (.load threadId)) initialState

theorem startState_reviewId :
    (startState answers threadId initialState).reviewId = initialState.reviewId := by
  unfold startState GraphState.mergeInput
  split <;> rfl

/-- What a run merges has the fields that a review takes from its input. -/
theorem merged_reviewable (updates : List NodeUpdate) :
    ((startState answers threadId initialState).reduceAll updates).Reviewable ↔
      initialState.Reviewable := by
  have hstart : (startState answers threadId initialState).Reviewable ↔
      initialState.Reviewable := by
    unfold startState GraphState.mergeInput
    split <;> exact ⟨fun ⟨h₁, h₂, h₃, h₄, h₅⟩ => ⟨h₁, h₂, h₃, h₄, h₅⟩,
      fun ⟨h₁, h₂, h₃, h₄, h₅⟩ => ⟨h₁, h₂, h₃, h₄, h₅⟩⟩
  rw [← hstart, GraphState.reduceAll_eq]
  exact ⟨fun ⟨h₁, h₂, h₃, h₄, h₅⟩ => ⟨h₁, h₂, h₃, h₄, h₅⟩,
    fun ⟨h₁, h₂, h₃, h₄, h₅⟩ => ⟨h₁, h₂, h₃, h₄, h₅⟩⟩

/-- The updates of a run's branches, if none of them raises. -/
def runUpdates (engine : WorkflowEngine) (answers : RunAnswers) (threadId : String)
    (initialState : GraphState) : Except Exc (List NodeUpdate) :=
  updatesOf (engine.order.agents.map
    (engine.branchOutcome answers threadId (startState answers threadId initialState)))

theorem runUpdates_ok {updates : List NodeUpdate} :
    engine.runUpdates answers threadId initialState = .ok updates ↔
      engine.order.agents.map (engine.branchOutcome answers threadId
        (startState answers threadId initialState)) = updates.map .ok := updatesOf_ok

/-- The branches of a run all return exactly if each specialist's does. -/
theorem exists_runUpdates : (∃ updates, engine.runUpdates answers threadId initialState =
      .ok updates) ↔ ∀ agentType, ∃ update, engine.branchOutcome answers threadId
        (startState answers threadId initialState) agentType = .ok update := by
  have hrange : ∀ ended : List (Except Exc NodeUpdate),
      (∃ updates : List NodeUpdate, ended = updates.map .ok) ↔ ∀ branch ∈ ended, ∃ update, branch = .ok update := by
    intro ended
    have h := Set.ext_iff.mp (Set.range_list_map (Except.ok (ε := Exc) (α := NodeUpdate))) ended
    simpa [eq_comm] using h
  simp only [runUpdates_ok, hrange, List.forall_mem_map]
  exact ⟨fun h agentType => h agentType (engine.order.complete agentType), fun h a _ => h a⟩

/-- What a specialist found is among the findings that a run merges. -/
theorem findings_merged {updates : List NodeUpdate} {agentType : AgentType} {update : NodeUpdate}
    (hupdates : engine.runUpdates answers threadId initialState = .ok updates)
    (hbranch : engine.branchOutcome answers threadId (startState answers threadId initialState)
      agentType = .ok update) {finding : Finding} (hfinding : finding ∈ update.findings) :
    finding ∈ ((startState answers threadId initialState).reduceAll updates).findings := by
  have hmem : Except.ok update ∈ updates.map (Except.ok (ε := Exc)) := by
    rw [← runUpdates_ok.mp hupdates, ← hbranch]
    exact List.mem_map_of_mem (engine.order.complete agentType)
  obtain ⟨update', hmem', heq⟩ := List.mem_map.mp hmem
  obtain rfl := Except.ok.inj heq
  rw [GraphState.reduceAll_findings]
  exact List.mem_append_right _ (List.mem_flatMap.mpr ⟨_, hmem', hfinding⟩)

/-- A run ends as its branches and its aggregator let it. -/
theorem run_outcome : (engine.run threadId initialState).outcome answers =
    (engine.runUpdates answers threadId initialState >>= fun updates =>
      (aggregateNode engine.settings
          ((startState answers threadId initialState).reduceAll updates)).outcome
        (answers.at .aggregate) >>= fun made =>
          .ok (finalState ((startState answers threadId initialState).reduceAll updates) made)) := by
  show Program.outcome answers (engine.branches threadId (startState answers threadId initialState)
    engine.order.agents >>= _ : Engined _) = _
  rw [Program.outcome_bind, branches_outcome]
  show Program.outcome answers (Program.ofExcept (engine.runUpdates answers threadId initialState)
    >>= _ : Engined _) = _
  rw [Program.outcome_bind, Program.outcome_ofExcept]
  congr 1
  funext updates
  show Program.outcome answers (Node.aggregate.issue _ >>= _ : Engined _) = _
  rw [Program.outcome_bind, outcome_issue]
  rfl

/-- A run that ends has the updates of all its branches, and the review of what they give. -/
theorem run_ok {final : GraphState}
    (h : (engine.run threadId initialState).outcome answers = .ok final) :
    ∃ updates made, engine.runUpdates answers threadId initialState = .ok updates ∧
      (aggregateNode engine.settings
          ((startState answers threadId initialState).reduceAll updates)).outcome
        (answers.at .aggregate) = .ok made ∧
      final = finalState ((startState answers threadId initialState).reduceAll updates) made := by
  rw [run_outcome] at h
  cases hupdates : engine.runUpdates answers threadId initialState with
  | error e =>
    rw [hupdates] at h
    cases h
  | ok updates =>
    rw [hupdates] at h
    cases hmade : (aggregateNode engine.settings
        ((startState answers threadId initialState).reduceAll updates)).outcome
          (answers.at .aggregate) with
    | ok made =>
      simp only [bind, Except.bind, hmade] at h
      exact ⟨updates, made, rfl, hmade, (Except.ok.inj h).symm⟩
    | error e =>
      simp only [bind, Except.bind, hmade] at h
      cases h

/-- How the specialist's own analysis ends in a run. -/
def analysis (engine : WorkflowEngine) (answers : RunAnswers) (threadId : String)
    (initialState : GraphState) (agentType : AgentType) : Except Exc (List Finding) :=
  (runSpecialist (engine.agents agentType) threadId
    ((startState answers threadId initialState).diff.getD "")).outcome
      (answers.at (.specialist agentType))

theorem branchOutcome_eq (hwrites : WritesSwallowed (answers.at (.specialist agentType)))
    (hid : 1 ≤ initialState.reviewId.length ∧ initialState.reviewId.length ≤ 200) :
    engine.branchOutcome answers threadId (startState answers threadId initialState) agentType =
      specialistUpdate agentType (engine.analysis answers threadId initialState agentType) := by
  apply specialistNode_outcome hwrites
  rwa [startState_reviewId]

theorem branchOutcome_unattributable
    (hid : ¬ (1 ≤ initialState.reviewId.length ∧ initialState.reviewId.length ≤ 200)) :
    engine.branchOutcome answers threadId (startState answers threadId initialState) agentType =
      .error (validationError "AgentEvent" "review_id") := by
  apply specialistNode_unattributable
  rwa [startState_reviewId]

/-- A run whose branches all return ends with the review of what they found. -/
theorem run_ends (hwrites : WritesSwallowed (answers.at .aggregate))
    (hupserts : UpsertsSwallowed (answers.at .aggregate)) (hstate : initialState.Reviewable)
    {updates : List NodeUpdate}
    (hupdates : engine.runUpdates answers threadId initialState = .ok updates) :
    ∃ final review confidence, (engine.run threadId initialState).outcome answers = .ok final ∧
      final.review = some review ∧
      review.findings = dedupeFindings
        ((startState answers threadId initialState).reduceAll updates).findings ∧
      review.status = (routeReview confidence review.findings
        engine.settings.hitlConfidenceThreshold).1 := by
  obtain ⟨review, reason, confidence, hreview, hfindings, -, hstatus⟩ :=
    reviewOf_ok engine.settings ((merged_reviewable updates).mpr hstate)
      (answers.at .aggregate (.now .createdAt))
  refine ⟨finalState ((startState answers threadId initialState).reduceAll updates)
    (review, reason), review, confidence, ?_, rfl, hfindings, hstatus⟩
  rw [run_outcome, hupdates]
  show ((aggregateNode _ _).outcome _ >>= _) = _
  rw [aggregateNode_outcome hwrites hupserts, hreview]
  rfl

end WorkflowEngine

/-- The engine over the real specialists. -/
def AgentSetup.engine (setup : AgentSetup) : WorkflowEngine where
  settings := setup.settings
  agents := runSpecialistAnalysis setup
  order := specialistNodes

end ReviewAgent
