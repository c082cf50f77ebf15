import ReviewAgent.Orchestrator.ForcedReview
import ReviewAgent.Orchestrator.Resumption

/-! A run that crashes and is resumed ends as one that was never interrupted. -/
namespace ReviewAgent

open Effects

/-- The answers to a run on a thread that has no state. -/
def OnNewThread : (op : EngineOp) → EngineSignature.Answer op → Prop
  | .load _, answer => answer = none
  | _, _ => True

section

variable {engine : WorkflowEngine} {threadId : String} {initialState final : GraphState}
  {update : AgentType → NodeUpdate} {made : Review × String} {db db' : CheckpointDb}
  {history : List CheckpointEvents} {left : List (Checkpointed GraphState)}

theorem mayEnd_issue {α : Type} {node : Node} {p : Orchestrated α} {r : Except Exc α}
    (h : p.MayEnd (fun _ _ => True) r) : (node.issue p).MayEnd OnNewThread r :=
  h.relabel fun _ answer _ => ⟨answer, trivial, rfl⟩

theorem mayEnd_branches (agents : List AgentType)
    (h : ∀ agentType, BranchMayReturn engine threadId initialState agentType (update agentType)) :
    (engine.branches threadId initialState agents).MayEnd OnNewThread
      (.ok ((agents.map update).map .ok)) := by
  induction agents with
  | nil => rfl
  | cons agentType agents ih =>
    exact (mayEnd_issue (h agentType)).attempt.bind (ih.bind rfl)

/-- An uninterrupted run may return what its branches and its aggregator may. -/
theorem mayEnd_run
    (hbranches : ∀ agentType, BranchMayReturn engine threadId initialState agentType (update agentType))
    (hmade : AggregateMayReturn engine (mergedOf engine initialState update) made) :
    (engine.run threadId initialState).MayEnd OnNewThread
      (.ok (WorkflowEngine.finalState (mergedOf engine initialState update) made)) := by
  have hload : (WorkflowEngine.load threadId).MayEnd OnNewThread (.ok none) :=
    Program.mayEnd_perform (S := EngineSignature) rfl
  have hsave : ∀ state, (WorkflowEngine.save threadId state).MayEnd OnNewThread (.ok ()) :=
    fun state => Program.mayEnd_perform (S := EngineSignature) trivial
  refine hload.bind ((hsave _).bind ((mayEnd_branches _ hbranches).bind ?_))
  rw [updatesOf_ok.mpr rfl]
  exact (hsave _).bind ((mayEnd_issue hmade).bind ((hsave _).bind rfl))

/-- Every process of a history keeps the thread sound, and returns only the end of the run. -/
theorem processes_sound (hfresh : db.threads threadId = none) (hlog : db.log = [])
    (h : (checkpointer threadId).attempts 0 db (processes engine threadId initialState history) =
      some (db', left)) :
    Of threadId (Sound engine threadId initialState) db' ∧
      ∀ r, left.getLast? = some (.done r) → Concludes engine threadId initialState r db' := by
  have hstart : Of threadId (Sound engine threadId initialState) db := by
    rw [Of, hfresh, hlog]
    exact ⟨fun write hwrite => absurd hwrite List.not_mem_nil, List.Pairwise.nil⟩
  cases history with
  | nil =>
    obtain ⟨rfl, rfl⟩ := Prod.mk.inj (Option.some.inj h)
    exact ⟨hstart, fun r hr => by cases hr⟩
  | cons first rest =>
    obtain ⟨v, p, ps, hrun, hrest, rfl⟩ := Machine.attempts_cons h
    have hrely : ∀ db m db', (checkpointer threadId).move db m = some db' →
        (threadContract engine threadId initialState).rely db db' := fun _ _ _ => checkpointer_rely
    have hguarantee : Stable (threadContract engine threadId initialState).guarantee
        (Of threadId (Sound engine threadId initialState)) := fun _ _ hkeeps => hkeeps
    have hfirst : Triple (checkpointer threadId) 0 _ _ _ (Concludes engine threadId initialState) :=
      run_of
    have hv := hfirst.run_invariant hrely ⟨hfresh, hstart⟩ hrun stable_of hguarantee hstart
    have hresumes : ∀ a ∈ rest.map fun events =>
        (LangGraphWorkflowEngine.resume engine threadId, events),
        Triple (checkpointer threadId) 0 (threadContract engine threadId initialState)
          (Of threadId (Sound engine threadId initialState)) a.1
          (Concludes engine threadId initialState) := by
      intro a ha
      obtain ⟨events, -, rfl⟩ := List.mem_map.mp ha
      exact resume_of
    refine ⟨Machine.attempts_invariant hrely stable_of hguarantee hresumes hrest hv, fun r hr => ?_⟩
    cases rest with
    | nil =>
      obtain ⟨rfl, rfl⟩ := Prod.mk.inj (Option.some.inj hrest)
      obtain rfl : p = .done r := by simpa using hr
      exact hfirst.run_done hrely ⟨hfresh, hstart⟩ hrun
    | cons second rest =>
      obtain ⟨v', p', ps', -, -, rfl⟩ := Machine.attempts_cons hrest
      exact Machine.attempts_last hrely stable_of hguarantee hresumes hrest hv (by simpa using hr)

/-- However often a run is cut short and resumed, what is returned in the end is what one
uninterrupted run may return, and is made of every result that was recorded on the way. -/
theorem resumed_run_ends_as_uninterrupted (hfresh : db.threads threadId = none) (hlog : db.log = [])
    (h : (checkpointer threadId).attempts 0 db (processes engine threadId initialState history) =
      some (db', left))
    (hreturned : left.getLast? = some (.done (.ok final))) :
    (engine.run threadId initialState).MayEnd OnNewThread (.ok final) ∧
      ∃ update made, final = WorkflowEngine.finalState
          (initialState.reduceAll (engine.order.agents.map update)) made ∧
        (∀ agentType u, .recorded (.specialist agentType u) ∈ db'.log → u = update agentType) ∧
        ∀ made', .recorded (.aggregate made') ∈ db'.log → made' = made := by
  obtain ⟨update, made, hbranches, hmade, hrecorded, rfl⟩ :=
    (processes_sound hfresh hlog h).2 _ hreturned final rfl
  exact ⟨mayEnd_run hbranches.returned hmade, update, made, rfl, hbranches.recorded, hrecorded⟩

/-- In no history is a node run, or its result recorded, once a result of it is recorded. -/
theorem recorded_results_not_recomputed (hfresh : db.threads threadId = none) (hlog : db.log = [])
    (h : (checkpointer threadId).attempts 0 db (processes engine threadId initialState history) =
      some (db', left)) : RecordedOnce db'.log :=
  (processes_sound hfresh hlog h).1.settled

end

/-- An engine whose specialists find nothing. -/
def WorkflowEngine.idle : WorkflowEngine :=
  { AgentSetup.sample.engine with agents := fun _ _ _ => pure [] }

/-- The next operations of a process, with nothing lost and no database down. -/
def healthyEvents (n : ℕ) : CheckpointEvents :=
  List.replicate n (.act ⟨RunAnswers.healthy.at .aggregate, true⟩)

/-- What the last process returned. -/
def lastReturned (left : List (Checkpointed GraphState)) : Option GraphState :=
  match left.getLast? with
  | some (.done (.ok final)) => some final
  | _ => none

theorem getLast_of_lastReturned {left : List (Checkpointed GraphState)} {final : GraphState}
    (h : lastReturned left = some final) : left.getLast? = some (.done (.ok final)) := by
  unfold lastReturned at h
  split at h
  · rename_i final' hlast
    rw [hlast, Option.some.inj h]
  · cases h

/-- The first process dies after two specialists; the second finishes the run. -/
def crashedOnce : List CheckpointEvents := [healthyEvents 14, healthyEvents 20]

theorem crashedOnce_returns : ∃ db left final, (checkpointer "run").attempts 0 ⟨fun _ => none, []⟩
    (processes .idle "run" .sample crashedOnce) = some (db, left) ∧
      left.getLast? = some (.done (.ok final)) := by
  have hreturns : (((checkpointer "run").attempts 0 ⟨fun _ => none, []⟩
      (processes .idle "run" .sample crashedOnce)).bind fun r => lastReturned r.2).isSome := by
    decide +kernel
  obtain ⟨final, hfinal⟩ := Option.isSome_iff_exists.mp hreturns
  obtain ⟨⟨db, left⟩, hattempts, hlast⟩ := Option.bind_eq_some_iff.mp hfinal
  exact ⟨db, left, final, hattempts, getLast_of_lastReturned hlast⟩

theorem crashed_run_ends_as_uninterrupted : ∃ db left final, (checkpointer "run").attempts 0
      ⟨fun _ => none, []⟩ (processes .idle "run" .sample crashedOnce) = some (db, left) ∧
    ((WorkflowEngine.idle.run "run" .sample).MayEnd OnNewThread (.ok final) ∧
      ∃ update made, final = WorkflowEngine.finalState
          (GraphState.sample.reduceAll (WorkflowEngine.idle.order.agents.map update)) made ∧
        (∀ agentType u, .recorded (.specialist agentType u) ∈ db.log → u = update agentType) ∧
        ∀ made', .recorded (.aggregate made') ∈ db.log → made' = made) := by
  obtain ⟨db, left, final, hattempts, hlast⟩ := crashedOnce_returns
  exact ⟨db, left, final, hattempts,
    resumed_run_ends_as_uninterrupted rfl rfl hattempts hlast⟩

theorem crashed_run_not_recomputed : ∃ db left, (checkpointer "run").attempts 0
      ⟨fun _ => none, []⟩ (processes .idle "run" .sample crashedOnce) = some (db, left) ∧
    RecordedOnce db.log := by
  obtain ⟨db, left, -, hattempts, -⟩ := crashedOnce_returns
  exact ⟨db, left, hattempts, recorded_results_not_recomputed rfl rfl hattempts⟩

/-- How every operation of one invocation is answered. -/
abbrev InvocationAnswers : Type := (op : CheckpointOp) → CheckpointSignature.Answer op

def InvocationAnswers.at (answers : InvocationAnswers) (node : Node) : Answers :=
  fun op => answers (.node node op)

namespace LangGraphWorkflowEngine

section

variable {engine : WorkflowEngine} {threadId : String} {values : GraphState}
  {written : AgentType → Option NodeUpdate} {answers : InvocationAnswers}

theorem outcome_invoke {α : Type} (node : Node) (p : Orchestrated α) :
    (node.invoke p).outcome answers = p.outcome (answers.at node) :=
  Program.outcome_relabel (T := CheckpointSignature) answers p

/-- How a specialist's task ends: as it is recorded, or as its node runs. -/
def taskOutcome (engine : WorkflowEngine) (threadId : String) (values : GraphState)
    (written : AgentType → Option NodeUpdate) (answers : InvocationAnswers)
    (agentType : AgentType) : Except Exc NodeUpdate :=
  match written agentType with
  | some update => .ok update
  | none => (specialistNode (engine.agents agentType) agentType threadId values).outcome
      (answers.at (.specialist agentType))

theorem recordTask_outcome (agentType : AgentType) (ended : Except Exc NodeUpdate) :
    (recordTask threadId agentType ended).outcome answers = .ok () := by
  cases ended <;> rfl

theorem runTasks_outcome (agents : List AgentType) :
    (runTasks engine threadId values written agents).outcome answers =
      .ok (agents.map (taskOutcome engine threadId values written answers)) := by
  induction agents with
  | nil => rfl
  | cons agentType agents ih =>
    cases hwritten : written agentType with
    | some update =>
      have hhead : taskOutcome engine threadId values written answers agentType = .ok update := by
        simp only [taskOutcome, hwritten]
      rw [List.map_cons, hhead]
      simp only [runTasks, hwritten, Program.outcome_bind, ih]
      rfl
    | none =>
      have hhead : taskOutcome engine threadId values written answers agentType =
          (specialistNode (engine.agents agentType) agentType threadId values).outcome
            (answers.at (.specialist agentType)) := by
        simp only [taskOutcome, hwritten]
      rw [List.map_cons, hhead]
      simp only [runTasks, hwritten, Program.outcome_bind, Program.outcome_attempt, outcome_invoke,
        ok_bind, recordTask_outcome, ih]
      rfl

/-- An operation of another node than this specialist. -/
def NotOf (recorded : AgentType) (op : CheckpointOp) : Prop := ∀ op', op ≠ .node (.specialist recorded) op'

theorem notOf_invoke {α : Type} {recorded : AgentType} {node : Node}
    (hnode : node ≠ .specialist recorded) (p : Orchestrated α) :
    (node.invoke p).Issues (NotOf recorded) := by
  induction p with
  | done r => trivial
  | step op next ih =>
    refine ⟨fun op' heq => hnode ?_, fun answer => ih answer⟩
    exact (CheckpointOp.node.inj heq).1

/-- Nothing is run of a specialist whose result is recorded. -/
theorem runTasks_issues {recorded : AgentType} (hrecorded : (written recorded).isSome)
    (agents : List AgentType) :
    (runTasks engine threadId values written agents).Issues (NotOf recorded) := by
  induction agents with
  | nil => trivial
  | cons agentType agents ih =>
    cases hwritten : written agentType with
    | some update =>
      simp only [runTasks, hwritten]
      exact Program.issues_bind ih fun rest => trivial
    | none =>
      have hne : agentType ≠ recorded := by
        rintro rfl
        rw [hwritten] at hrecorded
        cases hrecorded
      simp only [runTasks, hwritten]
      refine Program.issues_bind (Program.issues_attempt (notOf_invoke ?_ _)) fun ended => ?_
      · exact fun heq => hne (Node.specialist.inj heq)
      · refine Program.issues_bind ?_ fun _ => Program.issues_bind ih fun rest => trivial
        cases ended with
        | ok update => exact Program.issues_perform fun op' heq => by cases heq
        | error e => trivial

theorem fanIn_issues {recorded : AgentType} (merged : GraphState) :
    (fanIn engine threadId merged none).Issues (NotOf recorded) := by
  have hput : ∀ op : CheckpointOp, (∀ node op', op ≠ .node node op') →
      (Program.perform (S := CheckpointSignature) op : Checkpointed _).Issues (NotOf recorded) :=
    fun op hop => Program.issues_perform fun op' => hop _ op'
  refine Program.issues_bind (Program.issues_bind (notOf_invoke ?_ _) fun made =>
    Program.issues_bind (hput _ ?_) fun _ => trivial) fun made =>
    Program.issues_bind (hput _ ?_) fun _ => trivial
  all_goals intros; simp

theorem proceed_issues {recorded : AgentType} (hrecorded : (written recorded).isSome) :
    (proceed engine threadId ⟨values, .specialists written⟩).Issues (NotOf recorded) := by
  refine Program.issues_bind (runTasks_issues hrecorded _) fun ended =>
    Program.issues_bind (Program.issues_done _) fun updates => Program.issues_bind ?_ fun _ =>
      fanIn_issues _
  exact Program.issues_perform fun op' heq => by cases heq

theorem fanIn_outcome (merged : GraphState) :
    (fanIn engine threadId merged none).outcome answers =
      ((aggregateNode engine.settings merged).outcome (answers.at .aggregate) >>= fun made =>
        .ok (WorkflowEngine.finalState merged made)) := by
  simp only [fanIn, runAggregate, Program.outcome_bind, outcome_invoke]
  cases (aggregateNode engine.settings merged).outcome (answers.at .aggregate) <;> rfl

/-- A resumption from the specialists' super-step ends as the missing branches and the aggregator
let it. -/
theorem resume_outcome (hsnapshot : answers (.getTuple threadId) =
      some ⟨values, .specialists written⟩) :
    (resume engine threadId).outcome answers =
      (updatesOf (engine.order.agents.map (taskOutcome engine threadId values written answers)) >>=
        fun updates => (aggregateNode engine.settings (values.reduceAll updates)).outcome
            (answers.at .aggregate) >>= fun made =>
          .ok (WorkflowEngine.finalState (values.reduceAll updates) made)) := by
  have hresume : (resume engine threadId).outcome answers =
      (proceed engine threadId ⟨values, .specialists written⟩).outcome answers := by
    rw [resume, Program.outcome_bind]
    show (Except.ok (answers (.getTuple threadId)) >>= _) = _
    rw [hsnapshot]
    rfl
  rw [hresume, proceed, Program.outcome_bind, runTasks_outcome, ok_bind, Program.outcome_bind,
    Program.outcome_ofExcept]
  congr 1
  funext updates
  rw [Program.outcome_bind]
  exact fanIn_outcome _

/-- Once every missing branch returns, one resumption ends the run: with the results that were
recorded, without running their specialists again. -/
theorem resume_completes (hsnapshot : answers (.getTuple threadId) =
      some ⟨values, .specialists written⟩) (hreviewable : values.Reviewable)
    (hwrites : WritesSwallowed (answers.at .aggregate))
    (hupserts : UpsertsSwallowed (answers.at .aggregate))
    (hmissing : ∀ agentType, written agentType = none → ∃ update,
      (specialistNode (engine.agents agentType) agentType threadId values).outcome
        (answers.at (.specialist agentType)) = .ok update) :
    ∃ final review, (resume engine threadId).outcome answers = .ok final ∧
      final.review = some review ∧ review.findings = dedupeFindings final.findings ∧
      (∀ agentType update, written agentType = some update →
        ∀ finding ∈ update.findings, finding ∈ final.findings) ∧
      ∀ agentType, (written agentType).isSome →
        ∀ op, .node (.specialist agentType) op ∉ (resume engine threadId).issued answers := by
  have hreturned : ∀ agentType, ∃ update,
      taskOutcome engine threadId values written answers agentType = .ok update := by
    intro agentType
    cases hwritten : written agentType with
    | some update => exact ⟨update, by simp only [taskOutcome, hwritten]⟩
    | none =>
      obtain ⟨update, hupdate⟩ := hmissing agentType hwritten
      exact ⟨update, by simp only [taskOutcome, hwritten, hupdate]⟩
  choose update hupdate using hreturned
  have hupdates : engine.order.agents.map (taskOutcome engine threadId values written answers) =
      (engine.order.agents.map update).map .ok := by
    rw [List.map_map]
    exact List.map_congr_left fun agentType _ => hupdate agentType
  have hmerged : (values.reduceAll (engine.order.agents.map update)).Reviewable := by
    rw [GraphState.reduceAll_eq]
    exact ⟨hreviewable.reviewId, hreviewable.prNumber, hreviewable.repositoryOwner,
      hreviewable.repositoryName, hreviewable.headSha⟩
  obtain ⟨review, reason, confidence, hreview, hfindings, -⟩ :=
    reviewOf_ok engine.settings hmerged (answers.at .aggregate (.now .createdAt))
  refine ⟨WorkflowEngine.finalState (values.reduceAll (engine.order.agents.map update))
    (review, reason), review, ?_, rfl, hfindings, fun agentType u hwritten finding hfinding => ?_,
    fun agentType hwritten op hissued => ?_⟩
  · rw [resume_outcome hsnapshot, hupdates, updatesOf_ok.mpr rfl, ok_bind,
      aggregateNode_outcome hwrites hupserts, hreview]
    rfl
  · have hu : u = update agentType := by
      have hsame := hupdate agentType
      simp only [taskOutcome, hwritten] at hsame
      exact Except.ok.inj hsame
    show finding ∈ (values.reduceAll (engine.order.agents.map update)).findings
    rw [GraphState.reduceAll_findings]
    refine List.mem_append_right _ (List.mem_flatMap.mpr ⟨update agentType, ?_, hu ▸ hfinding⟩)
    exact List.mem_map_of_mem (engine.order.complete agentType)
  · have hresumed : (resume engine threadId).issued answers = .getTuple threadId ::
        (proceed engine threadId ⟨values, .specialists written⟩).issued answers := by
      have hread : (getTuple threadId).outcome answers =
          .ok (some ⟨values, .specialists written⟩) := congrArg Except.ok hsnapshot
      rw [resume, Program.issued_bind hread]
      rfl
    rw [hresumed] at hissued
    rcases List.mem_cons.mp hissued with hissued | hissued
    · cases hissued
    · exact (proceed_issues hwritten).issued answers _ hissued op rfl

end

/-- A resumption that finds the security specialist's result recorded. -/
def resumedAnswers : InvocationAnswers
  | .node _ op => RunAnswers.healthy.at .aggregate op
  | .getTuple _ => some ⟨.sample, .specialists fun agentType =>
      if agentType = .security then some ⟨[.sample], fun _ => none⟩ else none⟩
  | .put .. => ()
  | .putWrites .. => ()

theorem resume_completes_others : ∃ final review,
    (resume .idle "run").outcome resumedAnswers = .ok final ∧ final.review = some review ∧
      review.findings = dedupeFindings final.findings ∧ Finding.sample ∈ final.findings := by
  have hwrites : ∀ node, WritesSwallowed (resumedAnswers.at node) := by
    intro node event e h
    cases h
  have hupserts : UpsertsSwallowed (resumedAnswers.at .aggregate) := by
    intro review reason e h
    cases h
  have hreturns : ∀ agentType, ∃ update, (specialistNode (WorkflowEngine.idle.agents agentType)
      agentType "run" .sample).outcome (resumedAnswers.at (.specialist agentType)) = .ok update := by
    intro agentType
    rw [specialistNode_outcome (hwrites _) (by decide)]
    exact ⟨⟨[], fun _ => none⟩, rfl⟩
  have hsnapshot : resumedAnswers (.getTuple "run") = some ⟨.sample, .specialists fun agentType =>
      if agentType = .security then some ⟨[.sample], fun _ => none⟩ else none⟩ := rfl
  obtain ⟨final, review, hok, hreview, hfindings, hkept, -⟩ := resume_completes hsnapshot
    GraphState.sample_reviewable (hwrites _) hupserts fun agentType _ => hreturns agentType
  exact ⟨final, review, hok, hreview, hfindings, hkept .security _ rfl _ List.mem_cons_self⟩

end LangGraphWorkflowEngine

end ReviewAgent
