import ReviewAgent.Integrations.GitHubClient
import ReviewAgent.Models.Webhook
import ReviewAgent.Orchestrator.Engine

/-! The worker: from a dequeued webhook event to a review that is posted or queued. -/
namespace ReviewAgent

open Effects

/-- What a job issues besides the operations of its GitHub client. -/
inductive WorkerOp where
  -- the marker that the job ran
  | markProcessed (deliveryId : String)
  | engine (op : EngineOp)

abbrev WorkerSignature : Signature where
  Op := WorkerOp
  Answer
    | .markProcessed _ => Except Exc Unit
    | .engine op => EngineSignature.Answer op

/-- Jobs with a client over the operations of `S`. -/
abbrev Job (S : Signature) (α : Type) : Type := Program (S.sum WorkerSignature) Exc α

/-- What a job returns. -/
structure JobSummary where
  received : Bool
  deliveryId : String
  reviewId : String
  reviewStatus : Option String

namespace WebhookEvent

variable (event : WebhookEvent)

def reviewId : String := s!"webhook-{event.deliveryId}"

def pullRequest : PullRequest := ⟨event.repositoryOwner, event.repositoryName, event.prNumber⟩

/-- The state that a job starts the graph with. -/
def initialState (diff : String) : GraphState where
  reviewId := event.reviewId
  prNumber := event.prNumber
  repositoryOwner := event.repositoryOwner
  repositoryName := event.repositoryName
  headSha := event.headSha
  findings := []
  nodeErrors _ := none
  diff := some diff

end WebhookEvent

section

variable {S : Signature} (client : GitHubClient S) (engine : WorkflowEngine) (event : WebhookEvent)

def markProcessed (deliveryId : String) : Program WorkerSignature Exc Unit := do
  let answer ← Program.perform (S := WorkerSignature) (.markProcessed deliveryId)
  Program.ofExcept answer

/-- `_run_review_blocking`. -/
def runReviewBlocking (initialState : GraphState) : Program WorkerSignature Exc GraphState :=
  (engine.run initialState.reviewId initialState).relabel WorkerOp.engine fun _ answer => answer

/-- The first half of `process_webhook_event`: the marker, the diff, and the run of the graph. -/
def runJob : Job S GraphState := do
  (markProcessed event.deliveryId).right
  let diff ← (client.fetchDiff event.pullRequest event.headSha).left
  (runReviewBlocking engine (event.initialState diff)).right

/-- The second half: dispatch of the review. -/
def dispatch (result : GraphState) : Job S JobSummary :=
  match result.review with
  | some review => do
    (client.postOrQueue review).left
    pure ⟨true, event.deliveryId, event.reviewId, some review.status.value⟩
  | none => pure ⟨true, event.deliveryId, event.reviewId, none⟩

def processWebhookEvent : Job S JobSummary := do
  let result ← runJob client engine event
  dispatch client event result

end

/-- How every operation of one job is answered. -/
abbrev JobAnswers (S : Signature) : Type := (op : (S.sum WorkerSignature).Op) →
  (S.sum WorkerSignature).Answer op

/-- How the operations of its graph run are answered. -/
def JobAnswers.run {S : Signature} (answers : JobAnswers S) : RunAnswers :=
  fun op => answers (.inr (.engine op))

section

variable {S : Signature} {client : GitHubClient S} {engine : WorkflowEngine} {event : WebhookEvent}
  {answers : JobAnswers S} {result : GraphState}

theorem outcome_runReviewBlocking (initialState : GraphState) :
    ((runReviewBlocking engine initialState).right : Job S GraphState).outcome answers =
      (engine.run initialState.reviewId initialState).outcome answers.run := by
  rw [Program.outcome_right]
  exact Program.outcome_relabel (S := EngineSignature) (T := WorkerSignature)
    (fun op => answers (.inr op)) (engine.run initialState.reviewId initialState)

/-- A job's graph run starts from the diff that its client fetched. -/
theorem runJob_outcome (h : (runJob client engine event).outcome answers = .ok result) :
    ∃ diff, (client.fetchDiff event.pullRequest event.headSha).outcome
        (fun op => answers (.inl op)) = .ok diff ∧
      (engine.run event.reviewId (event.initialState diff)).outcome answers.run =
        .ok result := by
  rw [runJob, Program.outcome_bind] at h
  cases hmark : ((markProcessed event.deliveryId).right : Job S Unit).outcome answers with
  | error e =>
    rw [hmark] at h
    cases h
  | ok u =>
    rw [hmark] at h
    change Program.outcome answers ((client.fetchDiff event.pullRequest event.headSha).left >>=
      fun diff => (runReviewBlocking engine (event.initialState diff)).right : Job S GraphState) =
        _ at h
    rw [Program.outcome_bind, Program.outcome_left] at h
    cases hdiff : (client.fetchDiff event.pullRequest event.headSha).outcome
        (fun op => answers (.inl op)) with
    | error e =>
      rw [hdiff] at h
      cases h
    | ok diff =>
      rw [hdiff] at h
      exact ⟨diff, rfl, (outcome_runReviewBlocking (event.initialState diff)).symm.trans h⟩

end

/-- No operations: `MockGitHubClient` makes no call. -/
abbrev NoOperations : Signature where
  Op := Empty
  Answer := Empty.elim

/-- `MockGitHubClient` with its default diff; what it records is left out. -/
def GitHubClient.mock (defaultDiff : String) : GitHubClient NoOperations where
  fetchDiff _ _ := pure defaultDiff
  postReviewComment _ := pure ()
  queueForHitl _ := pure ()

/-- A job whose graph run is answered so. -/
def RunAnswers.job (answers : RunAnswers) : JobAnswers NoOperations
  | .inl op => op.elim
  | .inr (.markProcessed _) => Except.ok ()
  | .inr (.engine op) => answers op

end ReviewAgent
