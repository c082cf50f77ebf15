import ReviewAgent.Orchestrator.Engine

/-! The order in which the specialists finish, and what the review keeps of it. -/
namespace ReviewAgent

open BestPerKey (TiesSettled)

theorem BranchOrder.perm (order order' : BranchOrder) : order.agents.Perm order'.agents := by
  rw [List.perm_ext_iff_of_nodup order.nodup order'.nodup]
  intro agentType
  exact iff_of_true (order.complete agentType) (order'.complete agentType)

/-- The survivors do not depend on the order of the findings exactly if no two different findings
tie for a place that no third one takes. -/
theorem dedupeFindings_perm_iff (findings : List Finding) :
    (∀ findings', findings.Perm findings' → dedupeFindings findings' = dedupeFindings findings) ↔
      TiesSettled dedupeKey findingRank findings :=
  BestPerKey.survivors_perm_iff isBetter_iff

namespace WorkflowEngine

variable {engine : WorkflowEngine} {answers : RunAnswers} {threadId : String}
  {initialState : GraphState}

/-- In another order, a run merges the same updates in another order. -/
theorem runUpdates_perm (order : BranchOrder) {updates updates' : List NodeUpdate}
    (hupdates : engine.runUpdates answers threadId initialState = .ok updates)
    (hupdates' : { engine with order }.runUpdates answers threadId initialState = .ok updates') :
    updates.Perm updates' := by
  have hended := (engine.order.perm order).map
    (engine.branchOutcome answers threadId (startState answers threadId initialState))
  rw [runUpdates_ok.mp hupdates] at hended
  have hrest : order.agents.map (engine.branchOutcome answers threadId
      (startState answers threadId initialState)) = updates'.map .ok := runUpdates_ok.mp hupdates'
  rw [hrest] at hended
  have hread : ∀ us : List NodeUpdate,
      (us.map (Except.ok (ε := Exc))).filterMap Except.toOption = us := by
    intro us
    rw [List.filterMap_map]
    exact List.filterMap_some
  have hperm := hended.filterMap Except.toOption
  rwa [hread, hread] at hperm

/-- Runs that differ in the order of their branches only end with the same review, if the findings
they merge settle their ties. -/
theorem review_of_any_order (order : BranchOrder) {final final' : GraphState}
    (hfinal : (engine.run threadId initialState).outcome answers = .ok final)
    (hfinal' : ({ engine with order }.run threadId initialState).outcome answers = .ok final')
    (hties : TiesSettled dedupeKey findingRank final.findings) : final'.review = final.review := by
  obtain ⟨updates, made, hupdates, hmade, rfl⟩ := run_ok hfinal
  obtain ⟨updates', made', hupdates', hmade', rfl⟩ := run_ok hfinal'
  have hreview := aggregateNode_made hmade
  have hreview' := aggregateNode_made hmade'
  have hsame : ((startState answers threadId initialState).reduceAll updates').findings.Perm
      ((startState answers threadId initialState).reduceAll updates).findings := by
    rw [GraphState.reduceAll_findings, GraphState.reduceAll_findings]
    exact ((runUpdates_perm order hupdates hupdates').symm.flatMap_right _).append_left _
  have hdeduped := (dedupeFindings_perm_iff _).mpr hties _ hsame.symm
  have hsubject : ((startState answers threadId initialState).reduceAll updates').subject =
      ((startState answers threadId initialState).reduceAll updates).subject := by
    rw [GraphState.subject_reduceAll, GraphState.subject_reduceAll]
  have hmade : made' = made :=
    Except.ok.inj (hreview'.symm.trans ((reviewOf_congr hsubject hdeduped).trans hreview))
  exact congrArg (fun made => some made.1) hmade

end WorkflowEngine

/-- The aggregator does not depend on the order of findings exactly if their ties are settled; and
then a run that merges them ends with the same review whatever the order its specialists finish
in. -/
theorem order_independent_iff (findings : List Finding) :
    ((∀ findings', findings.Perm findings' →
        dedupeFindings findings' = dedupeFindings findings) ↔
      TiesSettled dedupeKey findingRank findings) ∧
    ∀ (engine : WorkflowEngine) (order : BranchOrder) (answers : RunAnswers) (threadId : String)
      (initialState final final' : GraphState),
      (engine.run threadId initialState).outcome answers = .ok final →
      ({ engine with order }.run threadId initialState).outcome answers = .ok final' →
      final.findings = findings → TiesSettled dedupeKey findingRank findings →
      final'.review = final.review := by
  refine ⟨dedupeFindings_perm_iff findings, ?_⟩
  rintro engine order answers threadId initialState final final' hfinal hfinal' rfl hties
  exact WorkflowEngine.review_of_any_order order hfinal hfinal' hties

/-- Two findings that differ in their last line alone: the first to come survives. -/
theorem last_line_depends_on_order : ¬ ∀ findings findings' : List Finding,
    findings.Perm findings' → dedupeFindings findings' = dedupeFindings findings := by
  intro h
  have hswap := h [Finding.sample, { Finding.sample with lineEnd := 2, lineStart_le := by decide }]
    _ (List.Perm.swap _ _ _)
  revert hswap
  decide +kernel

end ReviewAgent
