import ReviewAgent.Integrations.GitHubClient
import ReviewAgent.Observability.TracingGuard
import ReviewAgent.Orchestrator.Engine

/-! The command that reviews one local diff: tracing checked first if asked for, then the graph, then
the review written out. -/
namespace ReviewAgent

open Effects

/-- The arguments of the command. -/
structure ReviewLocalArgs where
  diff : String
  out : String
  reviewId : Option String := none
  prNumber : ℕ := 1
  repositoryOwner : String := "local"
  repositoryName : String := "review"
  headSha : String := String.ofList (List.replicate 40 '0')
  verifyTracing : Bool := false

/-- What the command issues besides the operations of its GitHub client. -/
inductive LocalOp where
  | langSmith (op : LangSmithOp)
  | engine (op : EngineOp)
  | uuid4
  | readDiff (path : String)
  | writeOut (path : String) (review : Review)
  | print (line : String)
  | printError (line : String)

abbrev LocalSignature : Signature where
  Op := LocalOp
  Answer
    | .langSmith op => LangSmithSignature.Answer op
    | .engine op => EngineSignature.Answer op
    | .uuid4 => String
    | .readDiff _ => Except Exc String
    | .writeOut .. => Except Exc Unit
    | .print _ | .printError _ => Unit

/-- Programs of the command, with a client over the operations of `S`. -/
abbrev Local (S : Signature) (α : Type) : Type := Program (S.sum LocalSignature) Exc α

def unverifiedTracingWarning : String :=
  "WARNING: LANGSMITH_TRACING is enabled but tracing was NOT verified this " ++
    "run (pass --verify-tracing to confirm traces are actually landing in " ++
    "LangSmith). LangSmith's ingestion can swallow a misconfigured " ++
    "LANGSMITH_ENDPOINT/LANGSMITH_WORKSPACE_ID with ZERO application errors " ++
    "-- a successful-looking review below is not proof any trace exists."

def noReviewProducedErrorClass : ExcClass := .other "NoReviewProducedError" .exception

section

variable {S : Signature} {α : Type}

def issue (op : LocalOp) : Local S (LocalSignature.Answer op) :=
  Program.perform (S := S.sum LocalSignature) (.inr op)

def say (line : String) : Local S Unit := issue (.print line)

/-- A program of the guard, as a part of the command. -/
def probing (p : LangSmithed α) : Local S α :=
  p.relabel (T := S.sum LocalSignature) (fun op => .inr (.langSmith op)) fun _ answer => answer

/-- A run of the graph, as a part of the command. -/
def running (p : Engined α) : Local S α :=
  p.relabel (T := S.sum LocalSignature) (fun op => .inr (.engine op)) fun _ answer => answer

variable (py : Interpreter) (settings : TracingSettings) (client : GitHubClient S)
  (engine : WorkflowEngine) (args : ReviewLocalArgs)

/-- `verify_tracing_before_review`. -/
def verifyTracingBeforeReview : Local S Unit :=
  if args.verifyTracing then
    if settings.langsmithTracing then do
      say "Verifying LangSmith tracing is landing (writing + reading back a probe run)..."
      probing (assertTracingHealthy py settings)
      say "LangSmith tracing verified healthy."
      let url ← probing (resolveProjectUrl settings)
      let shown := url.getD ""
      if shown = "" then pure () else say s!"LangSmith project: {shown}"
    else pure ()
  else if settings.langsmithTracing then say unverifiedTracingWarning
  else pure ()

/-- The id of the run: a fresh one, where none is given. -/
def resolvedReviewId : Local S String :=
  if args.reviewId.getD "" = "" then do
    let fresh ← issue .uuid4
    pure s!"local-{fresh}"
  else pure (args.reviewId.getD "")

/-- The state that the graph starts with. -/
def ReviewLocalArgs.initialState (reviewId diff : String) : GraphState where
  reviewId := reviewId
  prNumber := args.prNumber
  repositoryOwner := args.repositoryOwner
  repositoryName := args.repositoryName
  headSha := args.headSha
  findings := []
  nodeErrors _ := none
  diff := some diff

/-- `run_review_locally`. -/
def runReviewLocally (diff : String) : Local S Review := do
  let reviewId ← resolvedReviewId args
  let result ← running (engine.run reviewId (args.initialState reviewId diff))
  match result.review with
  | none => throw (.plain noReviewProducedErrorClass
      s!"no Review produced for review_id={py.repr (.str (Json.points reviewId))}")
  | some review => do
    (client.postOrQueue review).left
    pure review

/-- The line that ends a run. -/
def doneLine (review : Review) : String :=
  s!"review_id={review.reviewId} status={review.status.value} " ++
    s!"overall_confidence={review.overallConfidence.str} " ++
    s!"findings={review.findings.length} wrote={args.out}"

/-- The second half of `main`: the review, written out. -/
def reviewAndWrite : Local S ℕ := do
  let read ← issue (.readDiff args.diff)
  let diff ← Program.ofExcept read
  let reviewed ← (runReviewLocally py client engine args diff).attempt
  match reviewed with
  | .error e =>
    if e.isInstance noReviewProducedErrorClass then do
      let _ ← issue (.printError e.message)
      pure 1
    else throw e
  | .ok review => do
    let written ← issue (.writeOut args.out review)
    Program.ofExcept written
    say (doneLine args review)
    pure 0

/-- `main`, for any client: its own is the mock one. It returns the exit code. -/
def reviewLocal : Local S ℕ := do
  let verified ← (verifyTracingBeforeReview py settings args).attempt
  match verified with
  | .error e =>
    if e.isInstance tracingConfigurationErrorClass then do
      let _ ← issue (.printError s!"tracing verification FAILED: {e.message}")
      pure 1
    else throw e
  | .ok () => reviewAndWrite py client engine args

end

end ReviewAgent
