import ReviewAgent.Agents.BaseAgent
import ReviewAgent.Database.ReviewStore
import ReviewAgent.Orchestrator.Routing
import ReviewAgent.Orchestrator.State

/-! The nodes of the graph: the specialists' shared body, and the aggregator. -/
namespace ReviewAgent

open Effects

/-- `BaseAgent.analyze`: of a diff, with the id that its events are attributed to. -/
abbrev Analyze : Type := String → Option String → Orchestrated (List Finding)

/-- `_INFRASTRUCTURE_FAILURE_EXCEPTIONS`. -/
def infrastructureFailureExceptions : List ExcClass :=
  [.budgetExceededError, .llmConfigurationError, .llmCallFailedError]

/-- `_run_specialist`, of a thread id from the run's configuration. -/
def runSpecialist (analyze : Analyze) (threadId diff : String) : Orchestrated (List Finding) :=
  if threadId = "" then
    throw (.plain .valueError "stub node invoked without a configurable.thread_id")
  else analyze diff (some threadId)

/-- The error map of one node. -/
def nodeError (agentType : AgentType) (e : Exc) : NodeErrors :=
  Function.update (fun _ => none) (agentName agentType) (some e.message)

/-- What a specialist node makes of how its analysis ended. -/
def specialistUpdate (agentType : AgentType) : Except Exc (List Finding) → Except Exc NodeUpdate
  | .ok findings => .ok ⟨findings, fun _ => none⟩
  | .error e =>
    if e.isInstance .agentExecutionError then .ok ⟨[], nodeError agentType e⟩
    else if e.isInstanceOfAny infrastructureFailureExceptions then do
      let fallback ← infrastructureFailureFallbackFinding agentType e
      pure ⟨[fallback], nodeError agentType e⟩
    else .error e

/-- `_specialist_node`. -/
def specialistNode (analyze : Analyze) (agentType : AgentType) (threadId : String)
    (state : GraphState) : Orchestrated NodeUpdate :=
  tracedSpan state.reviewId (agentName agentType) do
    let analysed ← (runSpecialist analyze threadId (state.diff.getD "")).attempt
    Program.ofExcept (specialistUpdate agentType analysed)

/-- `aggregate_node`. -/
def aggregateNode (settings : Settings) (state : GraphState) : Orchestrated (Review × String) := do
  let routed ← Program.ofExcept (routeFindings settings.hitlConfidenceThreshold state.findings)
  let createdAt ← ask (.now .createdAt)
  let review ← Program.ofExcept (Review.validate state.reviewId state.prNumber
    state.repositoryOwner state.repositoryName state.headSha routed.findings
    routed.overallConfidence routed.status createdAt)
  emitDecision state.reviewId (some "aggregator") routed.status.value
    (some routed.overallConfidence)
  persistReview review routed.reason
  pure (review, routed.reason)

section

variable {answers : Answers} {analyze : Analyze} {agentType : AgentType} {threadId : String}
  {state : GraphState} {settings : Settings}

theorem agentName_attributable (agentType : AgentType)
    (h : 1 ≤ state.reviewId.length ∧ state.reviewId.length ≤ 200) :
    Attributable state.reviewId (agentName agentType) := by
  have := (agentName_length agentType).2
  exact ⟨h, by omega⟩

/-- What is in none of the handled classes goes through. -/
theorem specialistUpdate_unhandled {e : Exc} (h : e.isInstance .agentExecutionError = false)
    (h' : e.isInstanceOfAny infrastructureFailureExceptions = false) :
    specialistUpdate agentType (.error e) = .error e := by
  rw [specialistUpdate, if_neg (by simp [h]), if_neg (by simp [h'])]

/-- A node ends as its analysis lets it. -/
theorem specialistNode_outcome (hwrites : WritesSwallowed answers)
    (hid : 1 ≤ state.reviewId.length ∧ state.reviewId.length ≤ 200) :
    (specialistNode analyze agentType threadId state).outcome answers =
      specialistUpdate agentType
        ((runSpecialist analyze threadId (state.diff.getD "")).outcome answers) := by
  rw [specialistNode, tracedSpan_outcome hwrites (agentName_attributable agentType hid),
    Program.outcome_bind, Program.outcome_attempt]
  rfl

/-- A node that cannot attribute its span raises. -/
theorem specialistNode_unattributable
    (hid : ¬ (1 ≤ state.reviewId.length ∧ state.reviewId.length ≤ 200)) :
    (specialistNode analyze agentType threadId state).outcome answers =
      .error (validationError "AgentEvent" "review_id") := by
  rw [specialistNode, tracedSpan, Program.outcome_bind, emitSpanStart, emitAt_raises]
  · rfl
  · simp only [EventFields.checks, decide_eq_false hid]
    rfl

/-- The fields that a review takes from the state are within its bounds. -/
structure GraphState.Reviewable (state : GraphState) : Prop where
  reviewId : 1 ≤ state.reviewId.length ∧ state.reviewId.length ≤ 100
  prNumber : 0 < state.prNumber
  repositoryOwner : 1 ≤ state.repositoryOwner.length ∧ state.repositoryOwner.length ≤ 255
  repositoryName : 1 ≤ state.repositoryName.length ∧ state.repositoryName.length ≤ 255
  headSha : state.headSha.length = 40

theorem Review.validate_ok (h : state.Reviewable) (status : ReviewStatus) (createdAt : ℚ)
    {findings : List Finding} {confidence : ℕ}
    (hconfidence : computeOverallConfidence findings = .ok confidence) (hle : confidence ≤ 1000) :
    ∃ review : Review, Review.validate state.reviewId state.prNumber state.repositoryOwner
        state.repositoryName state.headSha findings confidence status createdAt = .ok review ∧
      review.findings = findings ∧ review.status = status ∧ review.reviewId = state.reviewId := by
  unfold Review.validate
  rw [dif_pos h.reviewId, dif_pos h.prNumber, dif_pos h.repositoryOwner, dif_pos h.repositoryName,
    dif_pos h.headSha, dif_pos hle]
  split
  · rename_i e he
    rw [hconfidence] at he
    cases he
  · rename_i expected hexpected
    obtain rfl := Except.ok.inj (hconfidence.symm.trans hexpected)
    rw [dif_pos rfl]
    exact ⟨_, rfl, rfl, rfl, rfl⟩

/-- A review is built only of fields within its bounds. -/
theorem Review.reviewable_of_validate {findings : List Finding} {confidence : ℕ}
    {status : ReviewStatus} {createdAt : ℚ} {review : Review}
    (h : Review.validate state.reviewId state.prNumber state.repositoryOwner
      state.repositoryName state.headSha findings confidence status createdAt = .ok review) :
    state.Reviewable := by
  obtain ⟨⟨hid, hnumber, howner, hname, hsha⟩, -⟩ := Review.fields_of_validate h
  exact ⟨hid ▸ review.reviewId_length, hnumber ▸ review.prNumber_pos,
    howner ▸ review.repositoryOwner_length, hname ▸ review.repositoryName_length,
    hsha ▸ review.headSha_length⟩

/-- What a review is about. -/
def Review.subject (review : Review) : String × ℕ × String × String × String :=
  (review.reviewId, review.prNumber, review.repositoryOwner, review.repositoryName, review.headSha)

theorem Review.subject_of_validate {findings : List Finding} {confidence : ℕ}
    {status : ReviewStatus} {createdAt : ℚ} {review : Review}
    (h : Review.validate state.reviewId state.prNumber state.repositoryOwner
      state.repositoryName state.headSha findings confidence status createdAt = .ok review) :
    review.subject = state.subject := by
  obtain ⟨⟨hid, hnumber, howner, hname, hsha⟩, -⟩ := Review.fields_of_validate h
  simp only [Review.subject, GraphState.subject, hid, hnumber, howner, hname, hsha]

/-- The review that the aggregator makes of a state, and the reason of its status. -/
def reviewOf (settings : Settings) (state : GraphState) (createdAt : ℚ) :
    Except Exc (Review × String) := do
  let routed ← routeFindings settings.hitlConfidenceThreshold state.findings
  let review ← Review.validate state.reviewId state.prNumber state.repositoryOwner
    state.repositoryName state.headSha routed.findings routed.overallConfidence routed.status
    createdAt
  pure (review, routed.reason)

/-- Routing never raises. -/
theorem routeFindings_total (threshold : Confidence) (findings : List Finding) :
    ∃ routed, routeFindings threshold findings = .ok routed ∧
      routed.findings = dedupeFindings findings ∧ routed.overallConfidence ≤ 1000 ∧
      computeOverallConfidence routed.findings = .ok routed.overallConfidence ∧
      routed.status = (routeReview routed.overallConfidence routed.findings threshold).1 := by
  obtain ⟨confidence, hconfidence, hle⟩ := computeOverallConfidence_total (dedupeFindings findings)
  refine ⟨⟨dedupeFindings findings, confidence,
    (routeReview confidence (dedupeFindings findings) threshold).1,
    (routeReview confidence (dedupeFindings findings) threshold).2⟩, ?_, rfl, hle, hconfidence, rfl⟩
  simp only [routeFindings, hconfidence]
  rfl

/-- A review is made of every state whose fields fit one. -/
theorem reviewOf_ok (settings : Settings) (h : state.Reviewable) (createdAt : ℚ) : ∃ review reason confidence,
    reviewOf settings state createdAt = .ok (review, reason) ∧
      review.findings = dedupeFindings state.findings ∧ review.reviewId = state.reviewId ∧
      review.status = (routeReview confidence review.findings
        settings.hitlConfidenceThreshold).1 := by
  obtain ⟨routed, hrouted, hfindings, hle, hconfidence, hstatus⟩ :=
    routeFindings_total settings.hitlConfidenceThreshold state.findings
  obtain ⟨review, hreview, hkept, hsame, hid⟩ := Review.validate_ok h routed.status createdAt
    hconfidence hle
  refine ⟨review, routed.reason, routed.overallConfidence, ?_, hkept.trans hfindings, hid, ?_⟩
  · simp only [reviewOf, hrouted, bind, Except.bind, hreview]
    rfl
  · rw [hsame, hkept, hstatus]

theorem reviewable_of_reviewOf {createdAt : ℚ} {made : Review × String}
    (h : reviewOf settings state createdAt = .ok made) : state.Reviewable := by
  obtain ⟨routed, hrouted, -⟩ :=
    routeFindings_total settings.hitlConfidenceThreshold state.findings
  cases hvalid : Review.validate state.reviewId state.prNumber state.repositoryOwner
      state.repositoryName state.headSha routed.findings routed.overallConfidence routed.status
      createdAt with
  | ok review => exact Review.reviewable_of_validate hvalid
  | error e =>
    simp only [reviewOf, hrouted, bind, Except.bind, hvalid] at h
    cases h

theorem reviewOf_findings {createdAt : ℚ} {made : Review × String}
    (h : reviewOf settings state createdAt = .ok made) :
    made.1.findings = dedupeFindings state.findings := by
  obtain ⟨review, reason, -, hreview, hfindings, -⟩ :=
    reviewOf_ok settings (reviewable_of_reviewOf h) createdAt
  rw [hreview] at h
  obtain rfl := Except.ok.inj h
  exact hfindings

/-- A review depends on what it is about, and on the findings that survive. -/
theorem reviewOf_congr {createdAt : ℚ} {state' : GraphState}
    (hsubject : state'.subject = state.subject)
    (h : dedupeFindings state'.findings = dedupeFindings state.findings) :
    reviewOf settings state' createdAt = reviewOf settings state createdAt := by
  simp only [GraphState.subject, Prod.mk.injEq] at hsubject
  obtain ⟨hid, hnumber, howner, hname, hsha⟩ := hsubject
  simp only [reviewOf, routeFindings, h, hid, hnumber, howner, hname, hsha]

theorem ReviewStatus.value_length (status : ReviewStatus) : status.value.length ≤ 100 := by
  cases status <;> decide

/-- What the aggregator returns is the review of its state. -/
theorem aggregateNode_made {made : Review × String}
    (h : (aggregateNode settings state).outcome answers = .ok made) :
    reviewOf settings state (answers (.now .createdAt)) = .ok made := by
  obtain ⟨routed, hrouted, -⟩ :=
    routeFindings_total settings.hitlConfidenceThreshold state.findings
  rw [aggregateNode, Program.outcome_bind, Program.outcome_ofExcept, hrouted] at h
  change Program.outcome answers (ask (.now .createdAt) >>= _) = _ at h
  rw [outcome_ask_bind, Program.outcome_bind, Program.outcome_ofExcept] at h
  cases hvalid : Review.validate state.reviewId state.prNumber state.repositoryOwner
      state.repositoryName state.headSha routed.findings routed.overallConfidence routed.status
      (answers (.now .createdAt)) with
  | error e =>
    rw [hvalid] at h
    cases h
  | ok review =>
    rw [hvalid] at h
    change Program.outcome answers (emitDecision _ _ _ _ >>= fun _ =>
      persistReview review routed.reason >>= fun _ => _) = _ at h
    rw [Program.outcome_bind] at h
    cases hdecision : (emitDecision state.reviewId (some "aggregator") routed.status.value
        (some routed.overallConfidence)).outcome answers with
    | error e =>
      rw [hdecision] at h
      cases h
    | ok u =>
      rw [hdecision] at h
      change Program.outcome answers (persistReview review routed.reason >>= fun _ => _) = _ at h
      rw [Program.outcome_bind] at h
      cases hpersist : (persistReview review routed.reason).outcome answers with
      | error e =>
        rw [hpersist] at h
        cases h
      | ok u' =>
        rw [hpersist] at h
        obtain rfl := Except.ok.inj h
        simp only [reviewOf, hrouted, bind, Except.bind, hvalid]
        rfl

/-- Whatever the databases do, the aggregator ends with the review of its state. -/
theorem aggregateNode_outcome (hwrites : WritesSwallowed answers)
    (hupserts : UpsertsSwallowed answers) : (aggregateNode settings state).outcome answers =
      reviewOf settings state (answers (.now .createdAt)) := by
  obtain ⟨routed, hrouted, -, hle, -⟩ :=
    routeFindings_total settings.hitlConfidenceThreshold state.findings
  rw [aggregateNode, Program.outcome_bind, Program.outcome_ofExcept, reviewOf, hrouted]
  show Program.outcome answers (ask (.now .createdAt) >>= _) = _
  rw [outcome_ask_bind, Program.outcome_bind, Program.outcome_ofExcept]
  cases hvalid : Review.validate state.reviewId state.prNumber state.repositoryOwner
      state.repositoryName state.headSha routed.findings routed.overallConfidence routed.status
      (answers (.now .createdAt)) with
  | error e => simp only [bind, Except.bind, hvalid]
  | ok review =>
    have hid := (Review.reviewable_of_validate hvalid).reviewId
    have hdecision : (emitDecision state.reviewId (some "aggregator") routed.status.value
        (some routed.overallConfidence)).outcome answers = .ok () := by
      apply emitAt_outcome hwrites
      have hstatus := routed.status.value_length
      have hagent : "aggregator".length ≤ 100 := by decide
      have hlong : state.reviewId.length ≤ 200 := by omega
      simp [EventFields.checks, hid.1, hlong, hagent, hstatus, hle]
    simp only [bind, Except.bind, hvalid]
    show Program.outcome answers (emitDecision _ _ _ _ >>= fun _ =>
      persistReview review routed.reason >>= fun _ => _) = _
    rw [Program.outcome_bind, hdecision]
    show Program.outcome answers (persistReview review routed.reason >>= fun _ => _) = _
    rw [Program.outcome_bind, persistReview_outcome hupserts]
    rfl

end

end ReviewAgent
