import ReviewAgent.Integrations.DiffHistory
import ReviewAgent.System.Processes

/-! What a job does is about the event that it carries. -/
namespace ReviewAgent

open Effects
open Json (points)

/-- What a job is about: the pull request and head of its event. -/
def WebhookEvent.subject (event : WebhookEvent) : String × ℕ × String × String × String :=
  (event.initialState "").subject

/-- A request about the event's pull request; a review is posted on its head, under its marker. -/
def GitHubRequest.About (event : WebhookEvent) : GitHubRequest → Prop
  | .installation owner repo => owner = event.repositoryOwner ∧ repo = event.repositoryName
  | .accessToken _ => True
  | .pull pr => pr = event.pullRequest
  | .diff pr => pr = event.pullRequest
  | .files pr _ _ => pr = event.pullRequest
  | .reviews pr _ => pr = event.pullRequest
  | .createReview pr body => pr = event.pullRequest ∧ body.commitId = event.headSha ∧
      strIn (idempotencyMarker event.reviewId) body.body = true

/-- A row about the review of the event. -/
def OrchestratorOp.About (event : WebhookEvent) : OrchestratorOp → Prop
  | .insertEvent row => row.reviewId = event.reviewId
  | .upsertReview review _ => review.subject = event.subject
  | _ => True

/-- A marker, a checkpoint or a row of the event. -/
def WorkerOp.About (event : WebhookEvent) : WorkerOp → Prop
  | .markProcessed deliveryId => deliveryId = event.deliveryId
  | .engine (.node _ op) => op.About event
  | .engine (.load threadId) => threadId = event.reviewId
  | .engine (.save threadId state) => threadId = event.reviewId ∧ state.subject = event.subject

def GuardOp.About (event : WebhookEvent) : GuardOp GitHubSignature → Prop
  | .dep (.http request _) => request.About event
  | _ => True

/-- An operation of the worker process that is about the event. -/
def SystemOp.About (event : WebhookEvent) : SystemOp → Prop
  | .web _ => False
  | .gitHub op => op.About event
  | .worker op => op.About event

section

variable {event : WebhookEvent} {α : Type} {client : RealGitHubClient} {headers : String}
  {headSha : String}

/-! ### The client -/

theorem about_of_bookkeeping (op : GuardOp GitHubSignature) (h : ∀ o, op ≠ .dep o)
    (_ : ∀ s, op = .sleep s → 0 < s) : op.About event := by
  unfold GuardOp.About
  split
  · exact absurd rfl (h _)
  · trivial

theorem about_reliably {func : Session α} (hfunc : func.Issues (GuardOp.About event)) :
    (client.callReliably func).Issues (GuardOp.About event) :=
  callReliably_issues about_of_bookkeeping hfunc

theorem about_request {request : GitHubRequest} (h : request.About event) :
    (client.callReliably (RealGitHubClient.attempt request headers)).Issues
      (GuardOp.About event) :=
  about_reliably (attempt_issues h)

theorem about_mintAppJwt {appId : String} {now : ℚ} :
    (mintAppJwt appId now).Issues (GuardOp.About event) := by
  refine ⟨trivial, ?_⟩
  rintro (e | jwt)
  · show Program.Issues _ (ite _ _ _)
    split <;> trivial
  · trivial

theorem about_getToken {appId : String} {installationId : ℤ} :
    (getToken appId installationId).Issues (GuardOp.About event) := by
  refine Program.issues_bind ⟨trivial, fun _ => Program.issues_done _⟩ fun entry => ?_
  split
  · trivial
  · refine Program.issues_bind about_mintAppJwt fun appJwt => ?_
    refine Program.issues_bind ?_ fun token => ⟨trivial, fun _ => trivial⟩
    exact issues_http trivial fun _ => Program.issues_bind (Program.issues_done _) fun _ =>
      Program.issues_done _

theorem about_authorize {appJwt : String} :
    (authorize event.pullRequest.owner event.pullRequest.repo appJwt).Issues
      (GuardOp.About event) := by
  refine Program.issues_bind (Program.issues_perform trivial) ?_
  rintro (_ | installationId)
  · refine Program.issues_bind (Program.issues_tryCatch ?_ fun _ => Program.issues_done _)
      fun _ => ⟨trivial, fun _ => trivial⟩
    exact issues_http ⟨rfl, rfl⟩ fun _ => Program.issues_bind (Program.issues_done _) fun _ =>
      Program.issues_done _
  · trivial

theorem about_installationHeaders :
    (client.installationHeaders event.pullRequest.owner event.pullRequest.repo).Issues
      (GuardOp.About event) := by
  refine Program.issues_bind (Program.issues_perform trivial) fun now => ?_
  refine Program.issues_bind about_mintAppJwt fun appJwt => ?_
  exact Program.issues_bind (about_reliably about_authorize) fun installationId =>
    about_reliably about_getToken

theorem about_changedFilesFrom (remaining page : ℕ) (files : List ChangedFile) :
    (client.changedFilesFrom event.pullRequest headers remaining page files).Issues
      (GuardOp.About event) := by
  induction remaining generalizing page files with
  | zero => exact ⟨trivial, fun answer => answer.elim⟩
  | succ remaining ih =>
    refine Program.issues_bind (about_request rfl) fun response => ?_
    refine Program.issues_bind (Program.issues_done _) fun batch => ?_
    split
    · exact Program.issues_done _
    · split
      · exact Program.issues_done _
      · exact ih _ _

theorem about_getDiffAndFiles :
    (client.getDiffAndFiles event.pullRequest headSha).Issues (GuardOp.About event) := by
  refine Program.issues_bind (Program.issues_perform trivial) ?_
  rintro (_ | value)
  · refine Program.issues_bind about_installationHeaders fun headers => ?_
    refine Program.issues_bind (about_request rfl) fun response => ?_
    refine Program.issues_bind ?_ fun changedFiles => ⟨trivial, fun _ => trivial⟩
    exact Program.issues_bind (Program.issues_perform trivial) fun rounds =>
      about_changedFilesFrom rounds 1 []
  · trivial

theorem about_fetchDiff :
    (client.fetchDiff event.pullRequest headSha).Issues (GuardOp.About event) :=
  Program.issues_bind about_getDiffAndFiles fun _ => Program.issues_done _

theorem reviewRequest_commitId {review : Review} {changedFiles : List ChangedFile}
    {body : CreateReviewRequest} (h : reviewRequest review changedFiles = .ok body) :
    body.commitId = review.headSha := by
  cases hindex : buildDiffIndex changedFiles with
  | error e =>
    rw [reviewRequest, hindex] at h
    cases h
  | ok diffIndex =>
    rw [reviewRequest, hindex] at h
    cases h
    rfl

/-- A review of the event's pull request and head is posted there, under the event's marker. -/
theorem about_postReviewComment {review : Review} (hsubject : review.subject = event.subject) :
    (client.postReviewComment review).Issues (GuardOp.About event) := by
  simp only [Review.subject, WebhookEvent.subject, GraphState.subject, WebhookEvent.initialState,
    Prod.mk.injEq] at hsubject
  obtain ⟨hid, hnumber, howner, hname, hsha⟩ := hsubject
  have hpr : review.pullRequest = event.pullRequest := by
    simp only [Review.pullRequest, WebhookEvent.pullRequest, hnumber, howner, hname]
  rw [RealGitHubClient.postReviewComment, hpr]
  refine Program.issues_bind about_installationHeaders fun bearer => ?_
  refine Program.issues_bind ?_ fun alreadyPosted => ?_
  · exact Program.issues_bind (about_request rfl) fun response =>
      Program.issues_bind (Program.issues_done _) fun existing => Program.issues_done _
  · split
    · exact Program.issues_done _
    · refine Program.issues_bind about_getDiffAndFiles fun value => ?_
      cases hbody : reviewRequest review value.changedFiles with
      | error e => exact Program.issues_done _
      | ok body =>
        have hmarker : strIn (idempotencyMarker event.reviewId) body.body = true := by
          obtain ⟨diffIndex, -, -, hrendered⟩ := reviewRequest_ok hbody
          rw [hrendered, ← hid]
          exact carries_formatSummaryBody _ _ _
        have habout : (GitHubRequest.createReview event.pullRequest body).About event :=
          ⟨rfl, (reviewRequest_commitId hbody).trans hsha, hmarker⟩
        change Program.Issues _ (client.callReliably (RealGitHubClient.attempt
          (.createReview event.pullRequest body) bearer) >>= _)
        refine Program.issues_bind (about_request habout) fun response => ?_
        exact Program.issues_bind (Program.issues_done _) fun _ => Program.issues_done _

/-! ### The run of the graph -/

theorem about_ask {op : OrchestratorOp} (h : op.About event) :
    (ask op).Issues (OrchestratorOp.About event) :=
  Program.issues_perform h

theorem about_attemptOp {op : OrchestratorOp}
    {read : OrchestratorSignature.Answer op → Except Exc α} (h : op.About event) :
    (attemptOp op read).Issues (OrchestratorOp.About event) :=
  Program.issues_bind (about_ask h) fun _ => Program.issues_done _

/-- A row is about the review that its fields name. -/
theorem about_emitAt {use : ClockUse} {fields : ℚ → EventFields}
    (h : ∀ ts, (fields ts).reviewId = event.reviewId) :
    (emitAt use fields).Issues (OrchestratorOp.About event) := by
  refine Program.issues_bind (about_ask trivial) fun ts => ?_
  cases hvalid : AgentEvent.validate (fields ts) with
  | error e => exact Program.issues_done _
  | ok row =>
    have hrow : row.toEventFields = fields ts := by
      unfold AgentEvent.validate at hvalid
      split at hvalid
      · cases hvalid
      · obtain rfl := Except.ok.inj hvalid
        rfl
    have habout : (OrchestratorOp.insertEvent row).About event := by
      show row.reviewId = event.reviewId
      rw [hrow, h]
    refine Program.issues_tryCatch (about_attemptOp habout) fun e => ?_
    split
    · trivial
    · split <;> trivial

theorem about_tracedSpan {agent : String} {block : Orchestrated α}
    (h : block.Issues (OrchestratorOp.About event)) :
    (tracedSpan event.reviewId agent block).Issues (OrchestratorOp.About event) := by
  refine Program.issues_bind (about_emitAt fun _ => rfl) fun _ => ?_
  refine Program.issues_bind (Program.issues_attempt h) fun result => ?_
  refine Program.issues_bind (about_ask trivial) fun latencyMs => ?_
  exact Program.issues_bind (about_emitAt fun _ => rfl) fun _ => Program.issues_done _

theorem about_complete {settings : Settings} {system user agent : String} :
    (AnthropicLlmClient.complete settings system user agent (some event.reviewId)).Issues
      (OrchestratorOp.About event) := by
  refine Program.issues_bind ?_ fun _ => Program.issues_bind (Program.issues_done _) fun _ => ?_
  · refine Program.issues_bind ?_ fun spent => ?_
    · exact Program.issues_bind (about_ask trivial) fun _ => about_attemptOp trivial
    · split <;> trivial
  · refine Program.issues_bind (Program.issues_tryCatch (about_attemptOp trivial) fun _ =>
      Program.issues_done _) fun message => ?_
    refine Program.issues_bind (about_ask trivial) fun latencyMs => ?_
    refine Program.issues_bind (Program.issues_done _) fun costUsd => ?_
    exact Program.issues_bind (about_emitAt fun _ => rfl) fun _ => Program.issues_done _

theorem about_runSpecialistAnalysis {setup : AgentSetup} {agentType : AgentType} {diff : String} :
    (runSpecialistAnalysis setup agentType diff (some event.reviewId)).Issues
      (OrchestratorOp.About event) := by
  refine Program.issues_bind ?_ fun userMessage =>
    Program.issues_bind about_complete fun _ => Program.issues_done _
  unfold buildUserMessage
  split
  · refine Program.issues_bind (Program.issues_attempt (about_attemptOp trivial)) ?_
    rintro (e | chunks)
    · dsimp only
      split <;> trivial
    · trivial
  · trivial

theorem about_specialistNode {setup : AgentSetup} {agentType : AgentType} {state : GraphState}
    (hid : state.reviewId = event.reviewId) :
    (specialistNode (setup.engine.agents agentType) agentType event.reviewId state).Issues
      (OrchestratorOp.About event) := by
  rw [specialistNode, hid]
  refine about_tracedSpan (Program.issues_bind (Program.issues_attempt ?_) fun _ =>
    Program.issues_done _)
  unfold runSpecialist
  split
  · trivial
  · exact about_runSpecialistAnalysis

/-- The aggregator's rows and its review are about what its state is about. -/
theorem about_aggregateNode {settings : Settings} {state : GraphState}
    (hsubject : state.subject = event.subject) :
    (aggregateNode settings state).Yields (OrchestratorOp.About event)
      fun r => ∀ made, r = .ok made → made.1.subject = event.subject := by
  have hid : state.reviewId = event.reviewId := congrArg Prod.fst hsubject
  refine Program.ofExcept_yields (fun routed _ => ?_) (by simp)
  refine Program.Issues.bind_yields (about_ask trivial) (fun createdAt => ?_) (by simp)
  refine Program.ofExcept_yields (fun review hreview => ?_) (by simp)
  have hreview : review.subject = event.subject :=
    (Review.subject_of_validate hreview).trans hsubject
  refine Program.Issues.bind_yields (about_emitAt fun _ => hid) (fun _ => ?_) (by simp)
  refine Program.Issues.bind_yields ?_ (fun _ made hmade => ?_) (by simp)
  · refine Program.issues_tryCatch (about_attemptOp hreview) fun e => ?_
    split <;> trivial
  · obtain rfl := Except.ok.inj hmade
    exact hreview

end

end ReviewAgent
