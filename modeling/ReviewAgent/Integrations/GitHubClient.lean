import ReviewAgent.Integrations.DiffMapping
import ReviewAgent.Integrations.GitHubAuth
import ReviewAgent.Models.Review

/-! The real GitHub client: errors, rendering of a review, and the operations. -/
namespace ReviewAgent

open Effects

/-- `_NON_RETRYABLE_EXCEPTIONS` of the client. -/
def gitHubNonRetryableExceptions : List ExcClass :=
  [.typeError, .valueError, .keyError, .attributeError, .circuitOpenError,
    .gitHubUnauthorizedError, .gitHubForbiddenError, .gitHubValidationError, .gitHubAuthError,
    .repositoryNotAuthorizedError]

def gitHubCircuitBreakerName : String := "github_api"

def filesPageSize : ℕ := 100

def responseBodyPreviewChars : ℕ := 500

/-- `_response_preview`. -/
def responsePreview (reply : Reply) : String :=
  if responseBodyPreviewChars < reply.text.length then
    String.ofList (reply.text.toList.take responseBodyPreviewChars) ++ "...(truncated)"
  else reply.text

/-- `_raise_for_status`. -/
def raiseForStatus (reply : Reply) (context : String) : Except Exc Unit :=
  if reply.statusCode < 300 then .ok ()
  else if reply.statusCode = 401 then
    .error (.plain .gitHubUnauthorizedError s!"{context}: HTTP 401 -- {responsePreview reply}")
  else if reply.statusCode = 429 ∨
      (reply.statusCode = 403 ∧ reply.rateLimitRemaining = some "0") then
    let reset := reply.rateLimitReset.getD "unknown"
    .error (.plain .gitHubRateLimitedError
      s!"{context}: rate limited (HTTP {reply.statusCode}, resets at epoch {reset})")
  else if reply.statusCode = 403 then
    .error (.plain .gitHubForbiddenError s!"{context}: HTTP 403 -- {responsePreview reply}")
  else if reply.statusCode = 422 then
    .error (.plain .gitHubValidationError s!"{context}: HTTP 422 -- {responsePreview reply}")
  else
    .error (.plain .gitHubAPIError
      s!"{context}: HTTP {reply.statusCode} -- {responsePreview reply}")

def gitHubUnavailable (e : Exc) : Exc :=
  .plain .gitHubUnavailableError
    ("GitHub API temporarily unavailable (retries exhausted or " ++
      s!"circuit breaker open): {e.message}")

/-- What the code raises for the status of an answer. -/
def GitHubRequest.statusError (reply : Reply) : GitHubRequest → Except Exc Unit
  | .installation owner repo =>
    (installationStatusError owner repo reply).mapError (notFoundAsUnauthorized owner repo)
  | .accessToken installationId => exchangeStatusError installationId reply
  | .pull pr => raiseForStatus reply s!"GET pulls/{pr.prNumber}"
  | .diff pr => raiseForStatus reply s!"GET diff for pulls/{pr.prNumber}"
  | .files pr _ page => raiseForStatus reply s!"GET pulls/{pr.prNumber}/files page={page}"
  | .reviews pr _ => raiseForStatus reply s!"GET pulls/{pr.prNumber}/reviews"
  | .createReview pr _ => raiseForStatus reply s!"POST pulls/{pr.prNumber}/reviews"

theorem raiseForStatus_ok {reply : Reply} {context : String} :
    raiseForStatus reply context = .ok () ↔ reply.statusCode < 300 := by
  unfold raiseForStatus
  repeat' split
  all_goals simp_all

theorem raiseForStatus_error {reply : Reply} {context : String} {e : Exc}
    (h : raiseForStatus reply context = .error e) : e.isInstance .gitHubAPIError = true := by
  unfold raiseForStatus at h
  repeat' split at h
  all_goals cases h
  all_goals rfl

theorem notFoundAsUnauthorized_exception {owner repo : String} {e : Exc}
    (h : e.isInstance .exception = true) :
    (notFoundAsUnauthorized owner repo e).isInstance .exception = true := by
  unfold notFoundAsUnauthorized
  split
  · rfl
  · exact h

namespace GitHubRequest

variable {request : GitHubRequest} {reply : Reply} {e : Exc}

/-- The code goes on with an answer exactly when its status is below 300. -/
theorem statusError_ok : request.statusError reply = .ok () ↔ reply.statusCode < 300 := by
  cases request with
  | installation owner repo =>
    simp only [statusError, installationStatusError]
    split
    · simp only [Except.mapError, reduceCtorEq, false_iff]
      omega
    · simp only [Except.mapError, true_iff]
      omega
  | accessToken installationId =>
    simp only [statusError, exchangeStatusError]
    split
    · simp only [reduceCtorEq, false_iff]
      omega
    · simp only [true_iff]
      omega
  | _ => exact raiseForStatus_ok

theorem statusError_exception (h : request.statusError reply = .error e) :
    e.isInstance .exception = true := by
  cases request with
  | installation owner repo =>
    simp only [statusError, installationStatusError] at h
    split at h
    · cases h
      exact notFoundAsUnauthorized_exception rfl
    · cases h
  | accessToken installationId =>
    simp only [statusError, exchangeStatusError] at h
    split at h <;> cases h
    rfl
  | _ => exact Exc.isInstance_of_isSubclass (raiseForStatus_error h) rfl

end GitHubRequest

def idempotencyMarkerPrefix : String := "<!-- pr-review-agent:review_id="

def idempotencyMarkerSuffix : String := " -->"

/-- The hidden comment that identifies a posted review. -/
def idempotencyMarker (reviewId : String) : String :=
  idempotencyMarkerPrefix ++ reviewId ++ idempotencyMarkerSuffix

/-- A review on the pull request carries the marker. -/
def ExistingReview.carries (reviewId : String) (review : ExistingReview) : Bool :=
  strIn (idempotencyMarker reviewId) review.body

def severityEmoji (severity : String) : String :=
  match severity with
  | "CRITICAL" => "🚨"
  | "HIGH" => "⚠️"
  | "MEDIUM" => "📝"
  | "LOW" => "ℹ️"
  | "INFO" => "💬"
  | _ => "•"

def formatFindingBody (finding : Finding) : String :=
  s!"{severityEmoji finding.severity.value} **{finding.severity.value}** " ++
    s!"({finding.agentType.value} / {finding.category}, " ++
    s!"confidence {finding.confidence.str})\n\n{finding.rationale}"

theorem formatFindingBody_length (finding : Finding) : 1 ≤ (formatFindingBody finding).length := by
  have := finding.rationale_length.1
  simp only [formatFindingBody, String.length_append, toString]
  omega

/-- The lines about the findings that have no place in the diff. -/
def degradedLines (degradedFindings : List Finding) : List String :=
  if degradedFindings.isEmpty then []
  else
    ["",
      "### Additional findings (could not be anchored to a specific diff line)",
      "_These findings' reported line numbers do not correspond to a line " ++
        "this diff actually touches or shows as context (a stale line number, " ++
        "or a file outside this PR) -- shown here instead of being dropped._"] ++
    degradedFindings.flatMap fun finding =>
      ["", s!"- `{finding.filePath}:{finding.lineStart}` -- {formatFindingBody finding}"]

/-- `_format_summary_body`. -/
def formatSummaryBody (review : Review) (degradedFindings : List Finding) (mappedCount : ℕ) :
    String :=
  let overview :=
    ["## pr-review-agent review", "",
      s!"**{review.findings.length}** finding(s), overall confidence " ++
        s!"**{review.overallConfidence.str}** -- {mappedCount} posted inline, " ++
        s!"{degradedFindings.length} below."]
  "\n".intercalate
    (overview ++ degradedLines degradedFindings ++ ["", idempotencyMarker review.reviewId])

/-- Every rendered summary carries the marker of its review. -/
theorem carries_formatSummaryBody (review : Review) (degradedFindings : List Finding)
    (mappedCount : ℕ) :
    (ExistingReview.mk (formatSummaryBody review degradedFindings mappedCount)).carries
      review.reviewId = true := by
  have hlast : "\n".intercalate ["", idempotencyMarker review.reviewId] =
      "\n" ++ idempotencyMarker review.reviewId := by
    simp [String.intercalate_cons_cons]
  rw [ExistingReview.carries, formatSummaryBody,
    String.intercalate_append_of_ne_nil (by simp) (by simp), hlast, ← String.append_assoc,
    ← String.append_empty (s := _ ++ _)]
  exact strIn_append _ _ ""

/-- The loop over the findings: inline comments, and the findings that have no place. -/
def partitionFindings (diffIndex : DiffIndex) :
    List Finding → List ReviewCommentInput × List Finding
  | [] => ([], [])
  | finding :: findings =>
    let (mappable, degraded) := partitionFindings diffIndex findings
    match h : mapFindingToAnchor finding.filePath finding.lineStart diffIndex with
    | none => (mappable, finding :: degraded)
    | some anchor =>
      ({ path := anchor.path
         line := anchor.line
         side := anchor.side
         body := formatFindingBody finding
         path_length := (mapFindingToAnchor_eq h).1 ▸ finding.filePath_length.1
         line_pos := (mapFindingToAnchor_eq h).2 ▸ finding.lineStart_pos
         body_length := formatFindingBody_length finding } :: mappable, degraded)

/-- The request body that `post_review_comment` builds from the changed files. -/
def reviewRequest (review : Review) (changedFiles : List ChangedFile) :
    Except Exc CreateReviewRequest := do
  let diffIndex ← buildDiffIndex changedFiles
  let (mappable, degraded) := partitionFindings diffIndex review.findings
  pure
    { commitId := review.headSha
      body := formatSummaryBody review degraded mappable.length
      event := "COMMENT"
      comments := mappable
      commitId_length := review.headSha_length }

/-- A request body is rendered from the index of the changed files. -/
theorem reviewRequest_ok {review : Review} {changedFiles : List ChangedFile}
    {request : CreateReviewRequest} (h : reviewRequest review changedFiles = .ok request) :
    ∃ diffIndex, buildDiffIndex changedFiles = .ok diffIndex ∧
      request.comments = (partitionFindings diffIndex review.findings).1 ∧
      request.body = formatSummaryBody review (partitionFindings diffIndex review.findings).2
        (partitionFindings diffIndex review.findings).1.length := by
  cases hindex : buildDiffIndex changedFiles with
  | error e =>
    rw [reviewRequest, hindex] at h
    cases h
  | ok diffIndex =>
    rw [reviewRequest, hindex] at h
    cases h
    exact ⟨diffIndex, rfl, rfl, rfl⟩

/-- What a caller may ask of the client. -/
inductive GitHubOperation where
  | getPrMetadata (pr : PullRequest)
  | fetchDiff (pr : PullRequest) (headSha : String)
  | postReviewComment (review : Review)

/-- The settings a client is built from. -/
structure RealGitHubClient where
  appId : String
  retryPolicy : RetryPolicy

def Review.pullRequest (review : Review) : PullRequest :=
  ⟨review.repositoryOwner, review.repositoryName, review.prNumber⟩

namespace RealGitHubClient

variable (client : RealGitHubClient)

/-- `_call_reliably`. -/
def callReliably {T : Type} (func : Session T) : Session T :=
  ReviewAgent.callReliably client.retryPolicy gitHubNonRetryableExceptions gitHubUnavailable func

/-- The closures `do`: one request, and the rejection of a status outside 2xx. -/
def attempt (request : GitHubRequest) (bearer : String) : Session (Response request.Content) := do
  let response ← http request bearer
  Program.ofExcept (request.statusError response.toReply)
  pure response

/-- `_installation_headers`, down to the bearer token. -/
def installationHeaders (owner repo : String) : Session String := do
  let now ← dep (D := GitHubSignature) .now
  let appJwt ← mintAppJwt client.appId now
  let installationId ← client.callReliably (authorize owner repo appJwt)
  client.callReliably (getToken client.appId installationId)

def getPrMetadata (pr : PullRequest) : Session PullRequestMetadata := do
  let headers ← client.installationHeaders pr.owner pr.repo
  let response ← client.callReliably (attempt (.pull pr) headers)
  Program.ofExcept response.json

/-- The loop of `_get_changed_files` from `page` on. -/
def changedFilesFrom (pr : PullRequest) (headers : String) :
    ℕ → ℕ → List ChangedFile → Session (List ChangedFile)
  | 0, _, _ => .step (.dep .loops : GuardOp GitHubSignature) Empty.elim
  | remaining + 1, page, files => do
    let response ← client.callReliably (attempt (.files pr filesPageSize page) headers)
    let batch ← Program.ofExcept (ε := Exc) (α := List ChangedFile) response.json
    if batch.isEmpty then pure files
    else if batch.length < filesPageSize then pure (files ++ batch)
    else changedFilesFrom pr headers remaining (page + 1) (files ++ batch)

/-- `_get_changed_files`. -/
def getChangedFiles (pr : PullRequest) (headers : String) : Session (List ChangedFile) := do
  let rounds ← dep (D := GitHubSignature) .rounds
  client.changedFilesFrom pr headers rounds 1 []

/-- `_get_diff_and_files`. -/
def getDiffAndFiles (pr : PullRequest) (headSha : String) : Session DiffAndFiles := do
  let cached ← dep (D := GitHubSignature) (.cachedDiff ⟨pr, headSha⟩)
  match cached with
  | some value => pure value
  | none => do
    let headers ← client.installationHeaders pr.owner pr.repo
    let response ← client.callReliably (attempt (.diff pr) headers)
    let changedFiles ← client.getChangedFiles pr headers
    let value := ⟨response.text, changedFiles⟩
    dep (D := GitHubSignature) (.storeDiff ⟨pr, headSha⟩ value)
    pure value

def fetchDiff (pr : PullRequest) (headSha : String) : Session String := do
  let value ← client.getDiffAndFiles pr headSha
  pure value.diffText

/-- `_find_existing_review_id_marker`. -/
def findExistingReviewIdMarker (pr : PullRequest) (headers reviewId : String) : Session Bool := do
  let response ← client.callReliably (attempt (.reviews pr filesPageSize) headers)
  let existing ← Program.ofExcept (ε := Exc) (α := List ExistingReview) response.json
  pure (existing.any (ExistingReview.carries reviewId))

def postReviewComment (review : Review) : Session Unit := do
  let pr := review.pullRequest
  let headers ← client.installationHeaders pr.owner pr.repo
  let alreadyPosted ← client.findExistingReviewIdMarker pr headers review.reviewId
  if alreadyPosted then pure ()
  else do
    let value ← client.getDiffAndFiles pr review.headSha
    let requestBody ← Program.ofExcept (reviewRequest review value.changedFiles)
    let response ← client.callReliably (attempt (.createReview pr requestBody) headers)
    let _posted ← Program.ofExcept (ε := Exc) (α := CreateReviewResponse) response.json

/-- `queue_for_hitl` only writes a log line. -/
def queueForHitl (_review : Review) : Session Unit := pure ()

/-- One operation; its result goes to the caller. -/
def operation : GitHubOperation → Session Unit
  | .getPrMetadata pr => do
    let _metadata ← client.getPrMetadata pr
  | .fetchDiff pr headSha => do
    let _diff ← client.fetchDiff pr headSha
  | .postReviewComment review => client.postReviewComment review

/-- Operations one after the other; one that raises does not keep the caller from the next. -/
def session : List GitHubOperation → Session Unit
  | [] => pure ()
  | op :: ops => do
    let _outcome ← (client.operation op).attempt
    session ops

end RealGitHubClient

/-- `GitHubClient`, over the operations of an implementation. -/
structure GitHubClient (S : Signature) where
  fetchDiff : PullRequest → String → Program S Exc String
  postReviewComment : Review → Program S Exc Unit
  queueForHitl : Review → Program S Exc Unit

/-- `post_or_queue`. -/
def GitHubClient.postOrQueue {S : Signature} (client : GitHubClient S) (review : Review) :
    Program S Exc Unit :=
  if review.status = .posted then client.postReviewComment review
  else client.queueForHitl review

def RealGitHubClient.toGitHubClient (client : RealGitHubClient) :
    GitHubClient (Guarded GitHubSignature) where
  fetchDiff := client.fetchDiff
  postReviewComment := client.postReviewComment
  queueForHitl := RealGitHubClient.queueForHitl

/-- The client under the default settings. -/
def RealGitHubClient.default (appId : String) : RealGitHubClient where
  appId := appId
  retryPolicy := ⟨3, 1 / 2, 8, true, one_le_defaultMaxAttempts, by decide +kernel, by decide +kernel⟩

/-- The client's breaker under the default settings, before its first call. -/
def RealGitHubClient.defaultBreaker : CircuitBreaker where
  config := ⟨5, 30, one_le_defaultThreshold, defaultResetTimeout_pos⟩
  name := gitHubCircuitBreakerName

/-- What happens to a session: an operation of it is resolved, or its world moves. -/
abbrev SessionEvent : Type := Machine.Event (GuardChoice GitHubChoice) (GuardMove GitHubMove)

def PullRequest.sample : PullRequest := ⟨"octo", "app", 7⟩

/-- A client of the default settings that already knows its installation and holds its token. -/
def warmWorld : GuardWorld GitHubWorld where
  breaker _ := RealGitHubClient.defaultBreaker
  clock := 0
  running := []
  dep :=
    { clients := fun _ =>
        { resolved := fun _ => some 1
          tokens := fun _ => some ⟨"token", 3600, token_nonempty⟩ } }

/-- The same client, with empty caches. -/
def coldWorld : GuardWorld GitHubWorld :=
  { warmWorld with dep := {} }

def timeout : Exc := .plain .httpError "timed out"

/-- The schedule of the JWT that every operation begins with. -/
def mintsJwt : List SessionEvent :=
  [.act (.dep .go), .act (.dep (.signs (.ok "jwt")))]

/-- The schedule of one request that GitHub answers. -/
def requestAnswered : List SessionEvent := [.act .go, .act (.dep .healthy), .act .go]

/-- The schedule of one cached lookup. -/
def lookupHits : List SessionEvent :=
  [.act .go, .act (.dep .go), .act .go]

end ReviewAgent
