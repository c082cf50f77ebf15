import Mathlib.Logic.Function.Basic
import ReviewAgent.Effects.Restarts
import ReviewAgent.Orchestrator.Engine

/-! The engine's invocations over a checkpointer that also keeps the results of single nodes. -/
namespace ReviewAgent

open Effects

/-- The result of a node, as the checkpointer records it. -/
inductive TaskWrite where
  | specialist (agentType : AgentType) (update : NodeUpdate)
  | aggregate (made : Review × String)

def TaskWrite.node : TaskWrite → Node
  | .specialist agentType _ => .specialist agentType
  | .aggregate _ => .aggregate

/-- What follows a checkpoint, with the results recorded against it. -/
inductive Stage where
  | specialists (written : AgentType → Option NodeUpdate)
  | aggregate (written : Option (Review × String))
  | ended

/-- The last checkpoint of a thread. -/
structure Snapshot where
  values : GraphState
  stage : Stage

/-- A result recorded against a checkpoint that its node follows. -/
def Snapshot.record : Snapshot → TaskWrite → Option Snapshot
  | ⟨values, .specialists written⟩, .specialist agentType update =>
    some ⟨values, .specialists (Function.update written agentType (some update))⟩
  | ⟨values, .aggregate _⟩, .aggregate made => some ⟨values, .aggregate (some made)⟩
  | _, _ => none

/-- What an invocation issues: the operations of its nodes, and those of its checkpointer. -/
inductive CheckpointOp where
  | node (node : Node) (op : OrchestratorOp)
  | getTuple (threadId : String)
  | put (threadId : String) (snapshot : Snapshot)
  | putWrites (threadId : String) (write : TaskWrite)

abbrev CheckpointSignature : Signature where
  Op := CheckpointOp
  Answer
    | .node _ op => OrchestratorSignature.Answer op
    | .getTuple _ => Option Snapshot
    | .put .. => Unit
    | .putWrites .. => Unit

abbrev Checkpointed (α : Type) : Type := Program CheckpointSignature Exc α

/-- A node's program, as a part of an invocation. -/
def Node.invoke {α : Type} (node : Node) (p : Orchestrated α) : Checkpointed α :=
  p.relabel (T := CheckpointSignature) (CheckpointOp.node node) fun _ answer => answer

def getTuple (threadId : String) : Checkpointed (Option Snapshot) :=
  Program.perform (S := CheckpointSignature) (.getTuple threadId)

def put (threadId : String) (snapshot : Snapshot) : Checkpointed Unit :=
  Program.perform (S := CheckpointSignature) (.put threadId snapshot)

def putWrites (threadId : String) (write : TaskWrite) : Checkpointed Unit :=
  Program.perform (S := CheckpointSignature) (.putWrites threadId write)

/-- LangGraph's `EmptyInputError`. -/
def emptyInputError : Exc :=
  .plain (.other "EmptyInputError" .exception) "Received no input for __start__"

namespace LangGraphWorkflowEngine

variable (engine : WorkflowEngine) (threadId : String)

/-- What a specialist returns is recorded against the checkpoint that it followed. -/
def recordTask (agentType : AgentType) : Except Exc NodeUpdate → Checkpointed Unit
  | .ok update => putWrites threadId (.specialist agentType update)
  | .error _ => pure ()

/-- The specialists of a super-step that have no recorded result are run. -/
def runTasks (values : GraphState) (written : AgentType → Option NodeUpdate) :
    List AgentType → Checkpointed (List (Except Exc NodeUpdate))
  | [] => pure []
  | agentType :: agentTypes =>
    match written agentType with
    | some update => do
      let rest ← runTasks values written agentTypes
      pure (.ok update :: rest)
    | none => do
      let ended ← ((Node.specialist agentType).invoke
        (specialistNode (engine.agents agentType) agentType threadId values)).attempt
      recordTask threadId agentType ended
      let rest ← runTasks values written agentTypes
      pure (ended :: rest)

/-- The aggregator is run, unless its result is recorded. -/
def runAggregate (merged : GraphState) (written : Option (Review × String)) :
    Checkpointed (Review × String) :=
  match written with
  | some made => pure made
  | none => do
    let made ← Node.aggregate.invoke (aggregateNode engine.settings merged)
    putWrites threadId (.aggregate made)
    pure made

/-- The fan-in, from merged branches on. -/
def fanIn (merged : GraphState) (written : Option (Review × String)) : Checkpointed GraphState := do
  let made ← runAggregate engine threadId merged written
  let final := WorkflowEngine.finalState merged made
  put threadId ⟨final, .ended⟩
  pure final

/-- The graph, from a checkpoint on. -/
def proceed : Snapshot → Checkpointed GraphState
  | ⟨values, .specialists written⟩ => do
    let ended ← runTasks engine threadId values written engine.order.agents
    let updates ← Program.ofExcept (updatesOf ended)
    let merged := values.reduceAll updates
    put threadId ⟨merged, .aggregate none⟩
    fanIn engine threadId merged none
  | ⟨values, .aggregate written⟩ => fanIn engine threadId values written
  | ⟨values, .ended⟩ => pure values

/-- `run`: a new input starts the graph over. -/
def run (initialState : GraphState) : Checkpointed GraphState := do
  let persisted ← getTuple threadId
  let state := GraphState.mergeInput (persisted.map (·.values)) initialState
  let started : Snapshot := ⟨state, .specialists fun _ => none⟩
  put threadId started
  proceed engine threadId started

/-- `resume`, less the reading of the state that only names the trace. -/
def resume : Checkpointed GraphState := do
  let persisted ← getTuple threadId
  match persisted with
  | none => throw emptyInputError
  | some snapshot => proceed engine threadId snapshot

end LangGraphWorkflowEngine

/-- What occurred to a thread's work. -/
inductive Progress where
  -- an operation of the node
  | ran (node : Node)
  | recorded (write : TaskWrite)

def Progress.node : Progress → Node
  | .ran node => node
  | .recorded write => write.node

/-- The checkpointer's database. `log` is newest first and never read back. -/
structure CheckpointDb where
  threads : String → Option Snapshot
  log : List Progress := []

/-- How an operation of a node is answered, and whether a write is on disk when its process dies. -/
structure CheckpointChoice where
  answers : Answers
  kept : Bool

namespace CheckpointDb

def put (db : CheckpointDb) (threadId : String) (snapshot : Snapshot) : CheckpointDb :=
  { db with threads := Function.update db.threads threadId (some snapshot) }

@[simp] theorem put_threads (db : CheckpointDb) {threadId : String} {snapshot : Snapshot} :
    (db.put threadId snapshot).threads threadId = some snapshot := Function.update_self ..

def putWrites (db : CheckpointDb) (threadId : String) (write : TaskWrite) : CheckpointDb :=
  match db.threads threadId with
  | none => db
  | some snapshot =>
    match snapshot.record write with
    | none => db
    | some snapshot' => { db.put threadId snapshot' with log := .recorded write :: db.log }

end CheckpointDb

/-- The processes of one thread over the database, where other threads go on meanwhile. -/
def checkpointer (threadId : String) :
    Machine CheckpointSignature CheckpointDb CheckpointChoice (String × Option Snapshot) where
  perform _ db
    | .node node op, choice => some ({ db with log := .ran node :: db.log }, choice.answers op)
    | .getTuple threadId, _ => some (db, db.threads threadId)
    | .put threadId snapshot, choice =>
      some (if choice.kept then db.put threadId snapshot else db, ())
    | .putWrites threadId write, choice =>
      some (if choice.kept then db.putWrites threadId write else db, ())
  move db
    | (other, snapshot) =>
      if other = threadId then none
      else some { db with threads := Function.update db.threads other snapshot }

abbrev CheckpointEvents : Type :=
  List (Machine.Event CheckpointChoice (String × Option Snapshot))

/-- A run, and then resumptions, each by a process of its own. -/
def processes (engine : WorkflowEngine) (threadId : String) (initialState : GraphState) :
    List CheckpointEvents → List (Checkpointed GraphState × CheckpointEvents)
  | [] => []
  | first :: rest => (LangGraphWorkflowEngine.run engine threadId initialState, first) ::
      rest.map fun events => (LangGraphWorkflowEngine.resume engine threadId, events)

end ReviewAgent
