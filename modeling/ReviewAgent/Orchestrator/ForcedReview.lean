import ReviewAgent.Orchestrator.Analysis
import ReviewAgent.Orchestrator.Engine

/-! An infrastructure failure of a specialist forces human review, as far as its message fits. -/
namespace ReviewAgent

open Effects

theorem not_agentExecutionError {e : Exc}
    (h : e.isInstanceOfAny infrastructureFailureExceptions = true) :
    e.isInstance .agentExecutionError = false := by
  rw [← Bool.not_eq_true]
  intro he
  obtain ⟨c, hc, hec⟩ := Exc.isInstanceOfAny_iff.mp h
  have hapart : ∀ c ∈ infrastructureFailureExceptions, c.isSubclass .agentExecutionError = false ∧
      ExcClass.agentExecutionError.isSubclass c = false := by decide
  rcases ExcClass.isSubclass_comparable hec he with hs | hs
  · simp [(hapart c hc).1] at hs
  · simp [(hapart c hc).2] at hs

/-- What a node makes of an infrastructure failure. -/
theorem specialistUpdate_infrastructure (agentType : AgentType) {e : Exc}
    (h : e.isInstanceOfAny infrastructureFailureExceptions = true) :
    (MessageFits agentType e ∧ ∃ finding, ForcesReview finding ∧
        specialistUpdate agentType (.error e) = .ok ⟨[finding], nodeError agentType e⟩) ∨
      (¬ MessageFits agentType e ∧ specialistUpdate agentType (.error e) =
        .error (validationError "Finding" "rationale")) := by
  rw [specialistUpdate, if_neg (by simp [not_agentExecutionError h]), if_pos h]
  rcases infrastructureFailureFallbackFinding_cases agentType e with
    ⟨hfits, finding, hforces, hvalid⟩ | ⟨hlong, hinvalid⟩
  · refine Or.inl ⟨hfits, finding, hforces, ?_⟩
    rw [hvalid]
    rfl
  · refine Or.inr ⟨hlong, ?_⟩
    rw [hinvalid]
    rfl

namespace WorkflowEngine

variable {engine : WorkflowEngine} {answers : RunAnswers} {threadId : String}
  {initialState : GraphState} {agentType : AgentType} {e : Exc}

/-- A node turns an infrastructure failure into one finding that forces review, and a run of it
ends queued, exactly if the message fits into the rationale. -/
theorem infrastructure_failure_forces_review_iff
    (hwrites : ∀ node, WritesSwallowed (answers.at node))
    (hupserts : UpsertsSwallowed (answers.at .aggregate))
    (hraises : engine.analysis answers threadId initialState agentType = .error e)
    (hinfra : e.isInstanceOfAny infrastructureFailureExceptions = true) :
    ((∃ finding, ForcesReview finding ∧ engine.branchOutcome answers threadId
          (startState answers threadId initialState) agentType =
            .ok ⟨[finding], nodeError agentType e⟩) ↔
        (1 ≤ initialState.reviewId.length ∧ initialState.reviewId.length ≤ 200) ∧
          MessageFits agentType e) ∧
      (initialState.Reviewable → (∀ other ≠ agentType, ∃ update, engine.branchOutcome answers
          threadId (startState answers threadId initialState) other = .ok update) →
        ((∃ final review, (engine.run threadId initialState).outcome answers = .ok final ∧
            final.review = some review ∧ review.status = .queuedForHitl) ↔
          MessageFits agentType e)) := by
  have hnode : (1 ≤ initialState.reviewId.length ∧ initialState.reviewId.length ≤ 200) →
      engine.branchOutcome answers threadId (startState answers threadId initialState) agentType =
        specialistUpdate agentType (.error e) := by
    intro hid
    rw [branchOutcome_eq (hwrites _) hid, hraises]
  constructor
  · by_cases hid : 1 ≤ initialState.reviewId.length ∧ initialState.reviewId.length ≤ 200
    · rw [hnode hid]
      rcases specialistUpdate_infrastructure agentType hinfra with
        ⟨hfits, finding, hforces, hupdate⟩ | ⟨hlong, hupdate⟩
      · exact iff_of_true ⟨finding, hforces, hupdate⟩ ⟨hid, hfits⟩
      · rw [hupdate]
        exact iff_of_false (by simp) fun h => hlong h.2
    · rw [branchOutcome_unattributable hid]
      exact iff_of_false (by simp) fun h => hid h.1
  · intro hstate hothers
    have hid : 1 ≤ initialState.reviewId.length ∧ initialState.reviewId.length ≤ 200 :=
      ⟨hstate.reviewId.1, hstate.reviewId.2.trans (by norm_num)⟩
    rcases specialistUpdate_infrastructure agentType hinfra with
      ⟨hfits, finding, hforces, hupdate⟩ | ⟨hlong, hupdate⟩
    · refine iff_of_true ?_ hfits
      have hbranch := (hnode hid).trans hupdate
      have hall : ∀ other, ∃ update, engine.branchOutcome answers threadId
          (startState answers threadId initialState) other = .ok update := by
        intro other
        by_cases hother : other = agentType
        · exact ⟨_, hother ▸ hbranch⟩
        · exact hothers other hother
      obtain ⟨updates, hupdates⟩ := exists_runUpdates.mpr hall
      obtain ⟨final, review, confidence, hrun, hreview, hfindings, hstatus⟩ :=
        run_ends (hwrites _) hupserts hstate hupdates
      have hmerged := findings_merged hupdates hbranch (List.mem_singleton_self finding)
      have hcritical : hasCriticalFinding review.findings = true := by
        rw [hfindings, hasCriticalFinding_dedupeFindings]
        exact ⟨finding, hmerged, hforces.1⟩
      refine ⟨final, review, hrun, hreview, ?_⟩
      rw [hstatus, routeReview, if_pos hcritical]
    · refine iff_of_false ?_ hlong
      rintro ⟨final, review, hrun, -⟩
      rw [run_outcome] at hrun
      cases hupdates : engine.runUpdates answers threadId initialState with
      | error e' =>
        rw [hupdates] at hrun
        cases hrun
      | ok updates =>
        obtain ⟨update, hbranch⟩ := exists_runUpdates.mp ⟨updates, hupdates⟩ agentType
        rw [hnode hid, hupdate] at hbranch
        cases hbranch

end WorkflowEngine

/-- Specialists under a cap of a cent, with a key and an empty prompt. -/
def AgentSetup.sample : AgentSetup where
  settings :=
    { anthropicApiKey := some "key"
      anthropicModel := "claude-haiku-4-5"
      budgetDailyCapUsd := ⟨1, 2⟩
      hitlConfidenceThreshold := .ofThousandths 800 (by norm_num) }
  py := .sample
  modelValidate _ := none
  systemPrompt _ := ""
  retriever := false

def GraphState.sample : GraphState where
  reviewId := "webhook-12345678-1234-1234-1234-123456789012"
  prNumber := 7
  repositoryOwner := "octo"
  repositoryName := "app"
  headSha := "abc123def456abc123def456abc123def456abc1"
  findings := []
  nodeErrors _ := none
  diff := some ""

theorem GraphState.sample_reviewable : GraphState.sample.Reviewable := by
  constructor <;> decide

/-- A run in good order on a new thread: no spend so far, and nothing found. -/
def RunAnswers.healthy : RunAnswers
  | .node _ (.now _) => (0 : ℚ)
  | .node _ (.latencyMs _) => (1 : ℕ)
  | .node _ (.insertEvent _) => Except.ok ()
  | .node _ (.sumLlmCostForDay _) => Except.ok ⟨none, Spend.none_lt⟩
  | .node _ (.hybridSearch ..) => Except.ok []
  | .node _ (.createMessage _) => Except.ok ⟨[.text "[]"], 1, 1⟩
  | .node _ (.upsertReview ..) => Except.ok ()
  | .load _ => none
  | .save .. => ()

/-- The provider answers the call of one specialist with an error. -/
def RunAnswers.refused (agentType : AgentType) (e : Exc) : RunAnswers
  | .node node (.createMessage request) =>
    if node = .specialist agentType then .error e
    else RunAnswers.healthy (.node node (.createMessage request))
  | op => RunAnswers.healthy op

/-- The analysis of a call that the provider refuses. -/
theorem analysis_refused (e : Exc) :
    AgentSetup.sample.engine.analysis (.refused .security e) "run" .sample .security =
      tryCatch (.error e) fun e => .error (llmCallFailure e) := by
  have hspent : BudgetGuard.budgetRead ((RunAnswers.refused .security e).at
      (.specialist .security)) = .ok ⟨none, Spend.none_lt⟩ := rfl
  have hretrieval : RetrievalFails ((RunAnswers.refused .security e).at
      (.specialist .security)) := fun _ _ => rfl
  show (runSpecialistAnalysis AgentSetup.sample .security _ _).outcome _ = _
  rw [runSpecialistAnalysis_outcome hretrieval,
    AnthropicLlmClient.complete_admitted hspent (by decide +kernel)]
  rfl

theorem refused_writes (agentType : AgentType) (e : Exc) (node : Node) :
    WritesSwallowed ((RunAnswers.refused agentType e).at node) := by
  intro event e' h
  cases h

theorem refused_upserts (agentType : AgentType) (e : Exc) :
    UpsertsSwallowed ((RunAnswers.refused agentType e).at .aggregate) := by
  intro review reason e' h
  cases h

/-- An error of the provider, which is not retried. -/
def badRequest (message : String) : Exc :=
  .plain (.other "BadRequestError" anthropicError) message

/-- The failure embeds what the provider says. -/
theorem llmCallFailure_length (message : String) :
    message.length ≤ (llmCallFailure (badRequest message)).message.length := by
  show message.length ≤ (_ ++ message).length
  rw [String.length_append]
  omega

/-- A message of the provider that is longer than a rationale escapes from the node. -/
theorem long_refusal_escapes : ¬ ∀ (engine : WorkflowEngine) (answers : RunAnswers)
    (threadId : String) (initialState : GraphState) (agentType : AgentType) (e : Exc),
    (∀ node, WritesSwallowed (answers.at node)) → UpsertsSwallowed (answers.at .aggregate) →
    engine.analysis answers threadId initialState agentType = .error e →
    e.isInstanceOfAny infrastructureFailureExceptions = true → initialState.Reviewable →
    ∃ finding, ForcesReview finding ∧ engine.branchOutcome answers threadId
      (WorkflowEngine.startState answers threadId initialState) agentType =
        .ok ⟨[finding], nodeError agentType e⟩ := by
  intro h
  have hinfra : (llmCallFailure (badRequest (String.ofList (List.replicate 5000 'x')))).isInstanceOfAny
      infrastructureFailureExceptions = true := rfl
  have hraises := analysis_refused (badRequest (String.ofList (List.replicate 5000 'x')))
  obtain ⟨finding, -, hbranch⟩ := h _ _ _ _ _ _ (refused_writes _ _) (refused_upserts _ _) hraises
    hinfra GraphState.sample_reviewable
  rw [WorkflowEngine.branchOutcome_eq (refused_writes _ _ _) (by decide), hraises] at hbranch
  rcases specialistUpdate_infrastructure .security hinfra with ⟨hfits, -⟩ | ⟨-, hupdate⟩
  · have hlong : 5000 ≤ (llmCallFailure
        (badRequest (String.ofList (List.replicate 5000 'x')))).message.length := by
      have hembeds := llmCallFailure_length (String.ofList (List.replicate 5000 'x'))
      rwa [String.length_ofList, List.length_replicate] at hembeds
    unfold MessageFits at hfits
    omega
  · cases hupdate.symm.trans hbranch

theorem infrastructure_failure_forces_review_iff_overloaded : 
    ((∃ finding, ForcesReview finding ∧ AgentSetup.sample.engine.branchOutcome
        (.refused .security (badRequest "overloaded")) "run" (WorkflowEngine.startState
          (.refused .security (badRequest "overloaded")) "run" .sample) .security =
            .ok ⟨[finding], nodeError .security (llmCallFailure (badRequest "overloaded"))⟩)) :=
  ((WorkflowEngine.infrastructure_failure_forces_review_iff (refused_writes _ _) (refused_upserts _ _)
    (analysis_refused (badRequest "overloaded")) rfl).1.mpr ⟨by decide, by decide +kernel⟩)

end ReviewAgent
