import ReviewAgent.JobQueue.ArqWorker
import ReviewAgent.Orchestrator.ForcedReview

/-! Jobs that run again on the thread of their delivery: what of earlier executions survives. -/
namespace ReviewAgent

open Effects

/-- The checkpoint of every thread. -/
abbrev Checkpoints : Type := String → Option GraphState

/-- An execution of a job whose worker dies after some operations. -/
structure Execution (S : Signature) where
  event : WebhookEvent
  answers : JobAnswers S
  steps : ℕ

section

variable {S : Signature}

/-- The checkpoints after an operation. -/
def Checkpoints.record (kept : Checkpoints) : (S.sum WorkerSignature).Op → Checkpoints
  | .inr (.engine (.save threadId state)) => Function.update kept threadId (some state)
  | _ => kept

/-- The answers to a job that finds these checkpoints. -/
def JobAnswers.over (answers : JobAnswers S) (kept : Checkpoints) : JobAnswers S
  | .inr (.engine (.load threadId)) => kept threadId
  | op => answers op

variable (client : GitHubClient S) (engine : WorkflowEngine)

/-- What an execution leaves of the checkpoints that it found. -/
def Execution.leaves (kept : Checkpoints) (execution : Execution S) : Checkpoints :=
  (((processWebhookEvent client engine execution.event).issued
    (execution.answers.over kept)).take execution.steps).foldl Checkpoints.record kept

/-- The checkpoints after executions, one after the other. -/
def checkpointsAfter (history : List (Execution S)) : Checkpoints :=
  history.foldl (Execution.leaves client engine) fun _ => none

end

/-- Every finding that a checkpoint would contribute meets one of this run that is at least as
good, and every node that failed then fails again. -/
def LeavesNoTrace (checkpoint : Option GraphState) (own : GraphState) : Prop :=
  ∀ old ∈ checkpoint,
    (∀ f ∈ dedupeFindings old.findings, ∃ g ∈ dedupeFindings own.findings,
      dedupeKey g = dedupeKey f ∧ (isBetter g f = true ∨ g = f)) ∧
    ∀ name, (old.nodeErrors name).isSome = true → (own.nodeErrors name).isSome = true

section

variable {old own : GraphState} {left right : NodeErrors}

theorem mergeDicts_eq_right_iff : mergeDicts left right = right ↔
    ∀ name, (left name).isSome = true → (right name).isSome = true := by
  rw [funext_iff]
  apply forall_congr'
  intro name
  cases hright : right name <;> cases hleft : left name <;> simp [mergeDicts, hright, hleft]

theorem mergeDicts_none_left : mergeDicts (fun _ => none) right = right := by
  funext name
  cases hright : right name <;> simp [mergeDicts, hright]

theorem mergeDicts_none_right : mergeDicts left (fun _ => none) = left := by
  funext name
  simp [mergeDicts]

/-- Findings that come first leave the review as it is exactly if those that would survive are met
by findings at least as good. -/
theorem dedupeFindings_append_iff {findings findings' : List Finding} :
    dedupeFindings (findings ++ findings') = dedupeFindings findings' ↔
      ∀ f ∈ dedupeFindings findings, ∃ g ∈ dedupeFindings findings',
        dedupeKey g = dedupeKey f ∧ (isBetter g f = true ∨ g = f) :=
  BestPerKey.survivors_append_eq_iff isBetter_iff

end

section

variable {S : Signature} {client : GitHubClient S} {engine : WorkflowEngine}
  {event : WebhookEvent} {answers : JobAnswers S} {kept kept' : Checkpoints} {diff : String}

open WorkflowEngine

theorem startState_over : startState (answers.over kept).run event.reviewId
    (event.initialState diff) =
      GraphState.mergeInput (kept event.reviewId) (event.initialState diff) := rfl

/-- What the specialists of a run return does not depend on the checkpoint. -/
theorem runUpdates_over : engine.runUpdates (answers.over kept).run event.reviewId
    (event.initialState diff) =
      engine.runUpdates (answers.over kept').run event.reviewId (event.initialState diff) := by
  have hbranch : engine.branchOutcome (answers.over kept).run event.reviewId
      (startState (answers.over kept).run event.reviewId (event.initialState diff)) =
        engine.branchOutcome (answers.over kept').run event.reviewId
          (startState (answers.over kept').run event.reviewId (event.initialState diff)) := by
    have hdiff : ∀ checkpoint, (GraphState.mergeInput checkpoint (event.initialState diff)).diff =
        some diff := by
      rintro (_ | old) <;> rfl
    funext agentType
    simp only [branchOutcome, specialistNode, startState_reviewId]
    rw [startState_over, startState_over, hdiff, hdiff]
    rfl
  rw [runUpdates, runUpdates, hbranch]

theorem merged_findings (old : GraphState) (updates : List NodeUpdate) :
    ((GraphState.mergeInput (some old) (event.initialState diff)).reduceAll updates).findings =
      old.findings ++ ((event.initialState diff).reduceAll updates).findings := by
  simp [GraphState.reduceAll_findings, GraphState.mergeInput, WebhookEvent.initialState]

theorem merged_nodeErrors (old : GraphState) (updates : List NodeUpdate) :
    ((GraphState.mergeInput (some old) (event.initialState diff)).reduceAll updates).nodeErrors =
      mergeDicts old.nodeErrors ((event.initialState diff).reduceAll updates).nodeErrors := by
  simp [GraphState.reduceAll_nodeErrors, GraphState.mergeInput, WebhookEvent.initialState,
    mergeDicts_none_left, mergeDicts_none_right]

/-- A job that finds checkpoints ends as one on a fresh thread does, exactly if they leave no
trace. -/
theorem rerun_iff {final fresh : GraphState}
    (hfinal : (runJob client engine event).outcome (answers.over kept) = .ok final)
    (hfresh : (runJob client engine event).outcome (answers.over fun _ => none) = .ok fresh) :
    (final.review = fresh.review ∧ final.nodeErrors = fresh.nodeErrors) ↔
      LeavesNoTrace (kept event.reviewId) fresh := by
  obtain ⟨diff, hdiff, hrun⟩ := runJob_outcome hfinal
  obtain ⟨diff', hdiff', hrun'⟩ := runJob_outcome hfresh
  obtain rfl : diff = diff' := Except.ok.inj (hdiff.symm.trans hdiff')
  obtain ⟨updates, made, hupdates, hmade, rfl⟩ := run_ok hrun
  obtain ⟨updates', made', hupdates', hmade', rfl⟩ := run_ok hrun'
  rw [runUpdates_over, hupdates'] at hupdates
  obtain rfl := Except.ok.inj hupdates
  have hreview := aggregateNode_made hmade
  have hreview' : reviewOf engine.settings ((event.initialState diff).reduceAll updates')
      (answers.run.at .aggregate (.now .createdAt)) = .ok made' := aggregateNode_made hmade'
  change reviewOf engine.settings ((GraphState.mergeInput (kept event.reviewId)
    (event.initialState diff)).reduceAll updates')
      (answers.run.at .aggregate (.now .createdAt)) = .ok made at hreview
  show (some made.1 = some made'.1 ∧ ((GraphState.mergeInput (kept event.reviewId)
    (event.initialState diff)).reduceAll updates').nodeErrors =
      ((event.initialState diff).reduceAll updates').nodeErrors) ↔ _
  cases hkept : kept event.reviewId with
  | none =>
    rw [hkept] at hreview
    obtain rfl : made = made' := Except.ok.inj (hreview.symm.trans hreview')
    exact iff_of_true ⟨rfl, rfl⟩ fun old hold => by cases hold
  | some old =>
    rw [hkept] at hreview
    have hsame : made.1 = made'.1 ↔
        dedupeFindings (old.findings ++ ((event.initialState diff).reduceAll updates').findings) =
          dedupeFindings ((event.initialState diff).reduceAll updates').findings := by
      rw [← merged_findings]
      constructor
      · intro h
        rw [← reviewOf_findings hreview, ← reviewOf_findings hreview', h]
      · intro h
        rw [reviewOf_congr _ h] at hreview
        · rw [Except.ok.inj (hreview.symm.trans hreview')]
        · rw [GraphState.subject_reduceAll, GraphState.subject_reduceAll,
            GraphState.subject_mergeInput]
    rw [merged_nodeErrors, mergeDicts_eq_right_iff, Option.some_inj, hsame,
      dedupeFindings_append_iff]
    constructor
    · rintro ⟨hfindings, herrors⟩ old' hold
      obtain rfl := Option.some.inj hold
      exact ⟨hfindings, herrors⟩
    · intro h
      exact h old rfl

/-- A job that runs again after any executions, each up to any of its operations, gives the review
of that run alone exactly if what they left on its thread leaves no trace. -/
theorem review_of_that_run_alone_iff (history : List (Execution S)) {final fresh : GraphState}
    (hfinal : (runJob client engine event).outcome
      (answers.over (checkpointsAfter client engine history)) = .ok final)
    (hfresh : (runJob client engine event).outcome (answers.over fun _ => none) = .ok fresh) :
    (final.review = fresh.review ∧ final.nodeErrors = fresh.nodeErrors) ↔
      LeavesNoTrace (checkpointsAfter client engine history event.reviewId) fresh :=
  rerun_iff hfinal hfresh

end

/-- The specialists, where what validates is the sample. -/
def AgentSetup.reading : AgentSetup :=
  { AgentSetup.sample with modelValidate := fun _ => some Finding.sample }

/-- A run in good order in which the security specialist answers with the sample. -/
def RunAnswers.finding : RunAnswers
  | .node (.specialist .security) (.createMessage _) =>
    Except.ok
      ⟨[.text
        ("[\x7b\"category\":\"xss\",\"confidence\":0.9,\"file_path\":\"a.py\"," ++
          "\"line_end\":1,\"line_start\":1,\"rationale\":\"raw\"," ++
          "\"severity\":\"LOW\"\x7d]")], 1, 1⟩
  | op => RunAnswers.healthy op

/-- An execution that finds the sample and dies after some operations. -/
def findingExecution (steps : ℕ) : Execution NoOperations where
  event := .sample
  answers := RunAnswers.finding.job
  steps

/-- A rerun that meets these answers ends, in a state that passes the check. -/
def rerunEnds (answers : RunAnswers) (history : List (Execution NoOperations))
    (check : GraphState → Bool) : Bool :=
  match (runJob (.mock "") AgentSetup.reading.engine .sample).outcome
    (answers.job.over (checkpointsAfter (.mock "") AgentSetup.reading.engine history)) with
  | .ok final => check final
  | .error _ => false

theorem exists_of_rerunEnds {answers : RunAnswers} {history : List (Execution NoOperations)}
    {check : GraphState → Bool} (h : rerunEnds answers history check = true) : ∃ final,
      (runJob (.mock "") AgentSetup.reading.engine .sample).outcome (answers.job.over
        (checkpointsAfter (.mock "") AgentSetup.reading.engine history)) = .ok final ∧
      check final = true := by
  unfold rerunEnds at h
  split at h
  · rename_i final hfinal
    exact ⟨final, hfinal, h⟩
  · cases h

/-- A finding of an execution that died survives: the rerun finds nothing, and posts it. -/
theorem dead_finding_posted : ¬ ∀ (history : List (Execution NoOperations)) (final fresh : GraphState),
    (runJob (.mock "") AgentSetup.reading.engine .sample).outcome (RunAnswers.healthy.job.over
      (checkpointsAfter (.mock "") AgentSetup.reading.engine history)) = .ok final →
    (runJob (.mock "") AgentSetup.reading.engine .sample).outcome
      (RunAnswers.healthy.job.over fun _ => none) = .ok fresh →
    final.review = fresh.review ∧ final.nodeErrors = fresh.nodeErrors := by
  intro h
  have hrerun : rerunEnds .healthy [findingExecution 48] (fun final =>
      final.review.any fun review => decide (review.status = .posted)) = true := by
    decide +kernel
  have hfresh : rerunEnds .healthy [] (fun fresh =>
      fresh.review.any fun review => decide (review.status = .queuedForHitl)) = true := by
    decide +kernel
  obtain ⟨final, hfinal, hposted⟩ := exists_of_rerunEnds hrerun
  obtain ⟨fresh, hfresh, hqueued⟩ := exists_of_rerunEnds hfresh
  obtain ⟨review, hreview, hstatus⟩ := (Option.any_eq_true _ _).mp hposted
  obtain ⟨review', hreview', hstatus'⟩ := (Option.any_eq_true _ _).mp hqueued
  obtain rfl : review = review' :=
    Option.some.inj (hreview.symm.trans ((h _ _ _ hfinal hfresh).1.trans hreview'))
  rw [decide_eq_true_eq] at hstatus hstatus'
  cases hstatus.symm.trans hstatus'

set_option maxRecDepth 4000 in
/-- An execution that died after its specialists were done leaves what they found, and no error. -/
theorem finding_left : ∃ old, checkpointsAfter (.mock "") AgentSetup.reading.engine
      [findingExecution 48] WebhookEvent.sample.reviewId = some old ∧
    old.findings = [.sample] ∧ ∀ name, old.nodeErrors name = none := by
  have hfindings : (checkpointsAfter (.mock "") AgentSetup.reading.engine [findingExecution 48]
      WebhookEvent.sample.reviewId).any
        (fun old => decide (old.findings = [Finding.sample])) = true := by
    decide +kernel
  have herrors : ∀ name, (checkpointsAfter (.mock "") AgentSetup.reading.engine
      [findingExecution 48] WebhookEvent.sample.reviewId).map
        (fun old => old.nodeErrors name) = some none := by
    intro name
    with_unfolding_all rfl
  obtain ⟨old, hold, hfound⟩ := (Option.any_eq_true _ _).mp hfindings
  refine ⟨old, hold, of_decide_eq_true hfound, fun name => ?_⟩
  have hname := herrors name
  rw [hold] at hname
  exact Option.some.inj hname

/-- The rerun finds again what the execution that died has left. -/
theorem review_of_that_run_alone_iff_foundAgain : ∃ final fresh : GraphState,
    (runJob (.mock "") AgentSetup.reading.engine .sample).outcome (RunAnswers.finding.job.over
      (checkpointsAfter (.mock "") AgentSetup.reading.engine [findingExecution 48])) = .ok final ∧
    (runJob (.mock "") AgentSetup.reading.engine .sample).outcome
      (RunAnswers.finding.job.over fun _ => none) = .ok fresh ∧
    fresh.findings = [.sample] ∧ final.review = fresh.review ∧
      final.nodeErrors = fresh.nodeErrors := by
  have hrerun : rerunEnds .finding [findingExecution 48] (fun _ => true) = true := by
    decide +kernel
  have hfresh : rerunEnds .finding [] (fun fresh => decide (fresh.findings = [.sample])) = true := by
    decide +kernel
  obtain ⟨final, hfinal, -⟩ := exists_of_rerunEnds hrerun
  obtain ⟨fresh, hfresh, hfound⟩ := exists_of_rerunEnds hfresh
  rw [decide_eq_true_eq] at hfound
  refine ⟨final, fresh, hfinal, hfresh, hfound,
    (review_of_that_run_alone_iff _ hfinal hfresh).mpr ?_⟩
  intro old hold
  obtain ⟨old', hleft, hfindings, herrors⟩ := finding_left
  obtain rfl := Option.some.inj (hleft.symm.trans hold)
  refine ⟨fun f hf => ⟨f, ?_, rfl, Or.inr rfl⟩, fun name hname => ?_⟩
  · rwa [hfound, ← hfindings]
  · rw [herrors name] at hname
    cases hname

end ReviewAgent
