import ReviewAgent.Effects.Spawn
import ReviewAgent.JobQueue.ArqWorker
import ReviewAgent.JobQueue.Payload
import ReviewAgent.WebhookReceiver.Router

/-! The web process and the worker process, and the jobs that pass from one to the other. -/
namespace ReviewAgent

open Effects
open Json (Text Value lookup points)

/-- What the web process issues: events, its clock, and Redis. -/
inductive WebOp where
  | events (op : OrchestratorOp)
  | receivedAt
  | queue (op : GuardOp QueueSignature)

/-- What the two processes issue. -/
inductive SystemOp where
  | web (op : WebOp)
  | gitHub (op : GuardOp GitHubSignature)
  | worker (op : WorkerOp)

abbrev SystemSignature : Signature where
  Op := SystemOp
  Answer
    | .web (.events op) => OrchestratorSignature.Answer op
    | .web .receivedAt => String
    | .web (.queue op) => (Guarded QueueSignature).Answer op
    | .gitHub op => (Guarded GitHubSignature).Answer op
    | .worker op => WorkerSignature.Answer op

abbrev Systemic (α : Type) : Type := Program SystemSignature Exc α

/-- How the web process carries out what the route asks for. -/
def carryOut (queue : RedisJobQueue) :
    (op : RouteSignature.Op) → Systemic (RouteSignature.Answer op)
  | .inl op => Program.perform (S := SystemSignature) (.web (.events op))
  | .inr .receivedAt => Program.perform (S := SystemSignature) (.web .receivedAt)
  | .inr (.enqueue event) => ((queue.enqueue event).relabel (T := SystemSignature)
      (fun op => .web (.queue op)) fun _ answer => answer).attempt

/-- `event.get("delivery_id", "unknown")`, as it is shown in a key. -/
def deliveryOf (py : Interpreter) (members : List (Text × Value)) : String :=
  match lookup (points "delivery_id") members with
  | none => "unknown"
  | some value => (strField value).getD (py.repr value)

section

variable {S : Signature} (py : Interpreter) (client : GitHubClient S) (engine : WorkflowEngine)

/-- `process_webhook_event`, from the validated event on. -/
def reviewEvent (event : WebhookEvent) : Job S JobSummary := do
  let diff ← (client.fetchDiff event.pullRequest event.headSha).left
  let result ← (runReviewBlocking engine (event.initialState diff)).right
  dispatch client event result

/-- `process_webhook_event`, of the payload that a job carries. -/
def processPayload : Value → Job S JobSummary
  | .object members => do
    (markProcessed (deliveryOf py members)).right
    let event ← Program.ofExcept (WebhookEvent.modelValidate py (.object members))
    reviewEvent client engine event
  | payload => throw (.plain .attributeError s!"'{typeName payload}' object has no attribute 'get'")

end

/-- What both processes are started with. -/
structure Deployment where
  py : Interpreter
  hmac : HmacSha256
  secret : String
  queue : RedisJobQueue
  client : RealGitHubClient
  setup : AgentSetup

/-- What makes a process do something: a request arrives, or a job is taken off the queue. -/
inductive Arrival where
  | request (request : WebhookRequest)
  | job (payload : Value)

/-- An operation of a job, in the worker process. -/
def ofJobOp : ((Guarded GitHubSignature).sum WorkerSignature).Op → SystemOp
  | .inl op => .gitHub op
  | .inr op => .worker op

def ofJobAnswer : (op : ((Guarded GitHubSignature).sum WorkerSignature).Op) →
    SystemSignature.Answer (ofJobOp op) → ((Guarded GitHubSignature).sum WorkerSignature).Answer op
  | .inl _, answer => answer
  | .inr _, answer => answer

namespace Deployment

variable (deployment : Deployment)

def route (request : WebhookRequest) : Systemic RouteReply :=
  (receiveWebhook deployment.py deployment.hmac deployment.secret request).handle
    (carryOut deployment.queue)

def job (payload : Value) : Systemic JobSummary :=
  (processPayload deployment.py deployment.client.toGitHubClient deployment.setup.engine
      payload).relabel ofJobOp ofJobAnswer

def body : Arrival → Systemic Unit
  | .request request => do
    let _reply ← deployment.route request
  | .job payload => do
    let _summary ← deployment.job payload

end Deployment

/-- The jobs that were ever put on the queue: a function's name and the event that its payload dumps;
and every operation that was carried out. -/
structure SystemWorld where
  jobs : List (String × WebhookEvent) := []
  carriedOut : List SystemOp := []

/-- How operations are answered, where they are, and whether a job that is asked for is put on the
queue. -/
structure SystemChoice where
  answers : (op : SystemOp) → Option (SystemSignature.Answer op)
  applies : Bool

/-- The jobs after an operation. -/
def SystemWorld.jobsAfter (w : SystemWorld) (applies : Bool) :
    SystemOp → List (String × WebhookEvent)
  | .web (.queue (.dep (.enqueueJob function event))) =>
    if applies then (function, event) :: w.jobs else w.jobs
  | _ => w.jobs

/-- Redis, GitHub, the databases and the provider, however they answer. -/
def system : Machine SystemSignature SystemWorld SystemChoice Empty where
  perform _ w op choice := (choice.answers op).map fun answer =>
    (⟨w.jobsAfter choice.applies op, op :: w.carriedOut⟩, answer)
  move _ m := m.elim

/-- A request may arrive at any time; a job is taken off the queue. -/
def MayArrive (w : SystemWorld) : Arrival → Prop
  | .request _ => True
  | .job payload => ∃ event, (arqJobFunctionName, event) ∈ w.jobs ∧ payload = event.modelDump

section

variable {S : Signature} {py : Interpreter} {client : GitHubClient S} {engine : WorkflowEngine}
  {event : WebhookEvent}

theorem deliveryOf_members : deliveryOf py event.members = event.deliveryId := by
  have hmem : (points "delivery_id", jsonString event.deliveryId) ∈ event.members := by
    simp [WebhookEvent.members]
  simp only [deliveryOf, lookup_of_mem WebhookEvent.members_nodup hmem, strField_jsonString,
    Option.getD_some]

/-- The payload of an event's job is processed as the event is. -/
theorem processPayload_modelDump (hint : ∀ n, py.laxInt (.int n) = some n) :
    processPayload py client engine event.modelDump = processWebhookEvent client engine event := by
  have hvalid : WebhookEvent.modelValidate py (.object event.members) = .ok event :=
    WebhookEvent.modelValidate_modelDump hint
  rw [WebhookEvent.modelDump, processPayload, hvalid, deliveryOf_members, processWebhookEvent,
    runJob, Program.bind_assoc]
  congr 1
  funext _
  rw [Program.bind_assoc]
  rfl

end

end ReviewAgent
