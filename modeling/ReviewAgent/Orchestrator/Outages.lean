import ReviewAgent.Orchestrator.ForcedReview

/-! Runs while databases, the provider and the retriever fail: when a run still ends with its
review. -/
namespace ReviewAgent

open Effects

open WorkflowEngine

/-- The diff that the specialists of a run are given. -/
def runDiff (answers : RunAnswers) (initialState : GraphState) : String :=
  (startState answers initialState.reviewId initialState).diff.getD ""

example : runDiff .healthy .sample = "" := by decide +kernel

/-- What a specialist contributes to a run: what its response holds, or one finding that forces
review. -/
def Contributes (setup : AgentSetup) (answers : RunAnswers) (initialState : GraphState)
    (agentType : AgentType) : Prop :=
  ∃ update, setup.engine.branchOutcome answers initialState.reviewId
      (startState answers initialState.reviewId initialState) agentType = .ok update ∧
    ((∃ message, answers (.node (.specialist agentType) (.createMessage (specialistRequest setup
          (answers.at (.specialist agentType)) agentType (runDiff answers initialState)))) =
            .ok message ∧
        parseFindingsFromLlmResponse setup.py setup.modelValidate
          (Json.points (extractText message)) agentType = .ok update.findings) ∨
      ∃ finding, ForcesReview finding ∧ update.findings = [finding])

/-- A run ends with a review to which every specialist contributes. -/
def EndsWithReview (setup : AgentSetup) (answers : RunAnswers) (initialState : GraphState) : Prop :=
  (∃ final review, (setup.engine.run initialState.reviewId initialState).outcome answers =
      .ok final ∧ final.review = some review) ∧
    ∀ agentType, Contributes setup answers initialState agentType

section

variable {setup : AgentSetup} {answers : RunAnswers} {initialState : GraphState}
  {agentType : AgentType}

/-- A specialist contributes if its analysis can finish, and raises otherwise. -/
theorem contributes_cases (setup : AgentSetup) (hanswers : FailsByOutage (answers.at (.specialist agentType)))
    (hstate : initialState.Reviewable) :
    (CanFinish setup (answers.at (.specialist agentType)) agentType
        (runDiff answers initialState) ∧ Contributes setup answers initialState agentType) ∨
      (¬ CanFinish setup (answers.at (.specialist agentType)) agentType
        (runDiff answers initialState) ∧ ¬ ∃ update, setup.engine.branchOutcome answers
          initialState.reviewId (startState answers initialState.reviewId initialState) agentType =
            .ok update) := by
  have hid : 1 ≤ initialState.reviewId.length ∧ initialState.reviewId.length ≤ 200 :=
    ⟨hstate.reviewId.1, hstate.reviewId.2.trans (by norm_num)⟩
  have hname : initialState.reviewId ≠ "" := by
    intro h
    have hlen := hid.1
    rw [h] at hlen
    exact absurd hlen (by decide)
  have hanalysis : setup.engine.analysis answers initialState.reviewId initialState agentType =
      (runSpecialistAnalysis setup agentType (runDiff answers initialState)
        (some initialState.reviewId)).outcome (answers.at (.specialist agentType)) := by
    rw [analysis, runSpecialist, if_neg hname]
    rfl
  have hbranch := @branchOutcome_eq setup.engine answers initialState.reviewId initialState
    agentType hanswers.writes.swallowed hid
  rw [hanalysis] at hbranch
  simp only [Contributes, hbranch]
  have hcases := runSpecialistAnalysis_cases setup (runDiff answers initialState) hanswers
    (agentName_attributable agentType hid)
  cases hend : (runSpecialistAnalysis setup agentType (runDiff answers initialState)
      (some initialState.reviewId)).outcome (answers.at (.specialist agentType)) with
  | ok findings =>
    rw [hend] at hcases
    rcases hcases with ⟨hcan, message, hanswer, hcontributed⟩ | ⟨-, hescapes⟩
    · refine Or.inl ⟨hcan, ⟨findings, fun _ => none⟩, rfl, ?_⟩
      rcases hcontributed with hparsed | hforced
      · exact Or.inl ⟨message, hanswer, hparsed⟩
      · exact Or.inr hforced
    · exact hescapes.elim
  | error e =>
    rw [hend] at hcases
    rcases hcases with ⟨hcan, hinfra, hfits⟩ | ⟨hcannot, hunhandled | ⟨hinfra, hlong⟩⟩
    · rcases specialistUpdate_infrastructure agentType hinfra with
        ⟨-, finding, hforces, hupdate⟩ | ⟨hlong, -⟩
      · exact Or.inl ⟨hcan, _, hupdate, Or.inr ⟨finding, hforces, rfl⟩⟩
      · exact absurd hfits hlong
    · refine Or.inr ⟨hcannot, ?_⟩
      simp only [handledExceptions, Exc.isInstanceOfAny, List.any_cons, Bool.or_eq_false_iff]
        at hunhandled
      rw [specialistUpdate_unhandled hunhandled.1 hunhandled.2]
      simp
    · refine Or.inr ⟨hcannot, ?_⟩
      rcases specialistUpdate_infrastructure agentType hinfra with ⟨hfits, -⟩ | ⟨-, hupdate⟩
      · exact absurd hfits hlong
      · rw [hupdate]
        simp

/-- While only databases, the provider and the retriever fail, and in the ways they do, a run ends
with its review exactly if the state fits one and every specialist can finish. -/
theorem ends_with_review_iff (hanswers : ∀ node, FailsByOutage (answers.at node))
    (hupserts : UpsertsSwallowed (answers.at .aggregate)) :
    EndsWithReview setup answers initialState ↔ initialState.Reviewable ∧
      ∀ agentType, CanFinish setup (answers.at (.specialist agentType)) agentType
        (runDiff answers initialState) := by
  have hwrites := (hanswers .aggregate).writes.swallowed
  constructor
  · rintro ⟨⟨final, review, hrun, -⟩, hcontributes⟩
    obtain ⟨updates, made, -, hmade, -⟩ := run_ok hrun
    rw [aggregateNode_outcome hwrites hupserts] at hmade
    have hstate := (merged_reviewable updates).mp (reviewable_of_reviewOf hmade)
    refine ⟨hstate, fun agentType => ?_⟩
    rcases contributes_cases setup (hanswers (.specialist agentType)) hstate with
      ⟨hcan, -⟩ | ⟨-, hraises⟩
    · exact hcan
    · obtain ⟨update, hbranch, -⟩ := hcontributes agentType
      exact absurd ⟨update, hbranch⟩ hraises
  · rintro ⟨hstate, hcan⟩
    have hcontributes : ∀ agentType, Contributes setup answers initialState agentType := by
      intro agentType
      rcases contributes_cases setup (hanswers (.specialist agentType)) hstate with
        ⟨-, hcontributes⟩ | ⟨hcannot, -⟩
      · exact hcontributes
      · exact absurd (hcan agentType) hcannot
    obtain ⟨updates, hupdates⟩ := exists_runUpdates.mpr fun agentType => by
      obtain ⟨update, hbranch, -⟩ := hcontributes agentType
      exact ⟨update, hbranch⟩
    obtain ⟨final, review, -, hrun, hreview, -⟩ := run_ends hwrites hupserts hstate hupdates
    exact ⟨⟨final, review, hrun, hreview⟩, hcontributes⟩

end

/-- Postgres refuses the connection. -/
def connectionRefused : Exc := .plain .operationalError "connection refused"

/-- A run in good order, but for the databases: nothing can be written. -/
def RunAnswers.unwritten : RunAnswers
  | .node _ (.insertEvent _) => Except.error connectionRefused
  | .node _ (.upsertReview ..) => Except.error connectionRefused
  | op => RunAnswers.healthy op

theorem unwritten_fails (node : Node) : FailsByOutage (RunAnswers.unwritten.at node) where
  writes := by
    intro event e h
    cases h
    decide
  budget := by
    intro dayStart e h
    cases h
  retrieval _ _ := rfl
  calls := by
    intro request e h
    cases h

/-- A run that can write neither its events nor its review ends with the review. -/
theorem ends_with_review_unwritten :
    EndsWithReview .sample .unwritten .sample := by
  have hupserts : UpsertsSwallowed (RunAnswers.unwritten.at .aggregate) := by
    intro review reason e h
    cases h
    decide
  refine (ends_with_review_iff unwritten_fails hupserts).mpr
    ⟨GraphState.sample_reviewable, fun agentType => ⟨⟨none, Spend.none_lt⟩, rfl, ?_⟩⟩
  rw [if_neg (by decide +kernel)]
  intro _
  exact ⟨⟨6, by decide +kernel, by norm_num⟩, ⟨some (.array []), by rfl⟩⟩

/-- A run in good order, but for the database that is down when the budget is read. -/
def RunAnswers.unread : RunAnswers
  | .node _ (.sumLlmCostForDay _) => Except.error connectionRefused
  | op => RunAnswers.healthy op

theorem unread_fails (node : Node) : FailsByOutage (RunAnswers.unread.at node) where
  writes := by
    intro event e h
    cases h
  budget := by
    intro dayStart e h
    cases h
    decide
  retrieval _ _ := rfl
  calls := by
    intro request e h
    cases h

/-- The failed read escapes from the specialists' nodes and aborts the run. -/
theorem unread_budget_aborts : ¬ ∀ (setup : AgentSetup) (answers : RunAnswers)
    (initialState : GraphState), (∀ node, FailsByOutage (answers.at node)) →
    UpsertsSwallowed (answers.at .aggregate) → initialState.Reviewable →
    EndsWithReview setup answers initialState := by
  intro h
  obtain ⟨⟨final, review, hrun, -⟩, -⟩ := h .sample .unread .sample unread_fails
    (fun _ _ _ h => by cases h) GraphState.sample_reviewable
  have haborts : ((AgentSetup.sample.engine.run GraphState.sample.reviewId .sample).outcome
      RunAnswers.unread).isOk = false := by
    decide +kernel
  rw [hrun] at haborts
  cases haborts

end ReviewAgent
