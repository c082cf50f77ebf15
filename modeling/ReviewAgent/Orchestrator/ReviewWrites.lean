import ReviewAgent.Effects.Writes
import ReviewAgent.JobQueue.ArqWorker

/-! The one write of a job to the reviews table. -/
namespace ReviewAgent

open Effects

/-- The review and the reason that an operation writes. -/
def OrchestratorOp.written : OrchestratorOp → Option (Review × String)
  | .upsertReview review reason => some (review, reason)
  | _ => none

def EngineOp.written : EngineOp → Option (Review × String)
  | .node _ op => op.written
  | _ => none

/-- A program that never writes to the reviews table. -/
abbrev WritesNoReview {α : Type} (p : Orchestrated α) : Prop :=
  p.Issues fun op : OrchestratorOp => op.written = none

section

variable {α : Type} {event : AgentEvent} {use : ClockUse} {fields : ℚ → EventFields}
  {reviewId agent : String} {threadId diff : String}

theorem writesNoReview_ask {op : OrchestratorOp} (h : op.written = none) :
    WritesNoReview (ask op) :=
  Program.issues_perform h

theorem writesNoReview_attemptOp {op : OrchestratorOp}
    {read : OrchestratorSignature.Answer op → Except Exc α} (h : op.written = none) :
    WritesNoReview (attemptOp op read) :=
  Program.issues_bind (writesNoReview_ask h) fun _ => Program.issues_done _

theorem writesNoReview_emit : WritesNoReview (emit event) := by
  apply Program.issues_tryCatch (writesNoReview_attemptOp rfl)
  intro e
  split
  · trivial
  · split <;> trivial

theorem writesNoReview_emitAt : WritesNoReview (emitAt use fields) := by
  apply Program.issues_bind (writesNoReview_ask rfl)
  intro ts
  exact Program.issues_bind (Program.issues_done _) fun _ => writesNoReview_emit

theorem writesNoReview_tracedSpan {block : Orchestrated α} (h : WritesNoReview block) :
    WritesNoReview (tracedSpan reviewId agent block) := by
  apply Program.issues_bind writesNoReview_emitAt
  intro _
  apply Program.issues_bind (Program.issues_attempt h)
  intro result
  apply Program.issues_bind (writesNoReview_ask rfl)
  intro latencyMs
  exact Program.issues_bind writesNoReview_emitAt fun _ => Program.issues_done _

theorem writesNoReview_buildUserMessage {retriever : Bool} :
    WritesNoReview (buildUserMessage diff retriever) := by
  unfold buildUserMessage
  split
  · apply Program.issues_bind (Program.issues_attempt (writesNoReview_attemptOp rfl))
    rintro (e | chunks)
    · dsimp only
      split <;> trivial
    · trivial
  · trivial

theorem writesNoReview_complete {settings : Settings} {system user : String}
    {reviewId : Option String} :
    WritesNoReview (AnthropicLlmClient.complete settings system user agent reviewId) := by
  have hbudget : WritesNoReview (BudgetGuard.mk settings.budgetDailyCapUsd).checkAndRaise := by
    apply Program.issues_bind
    · exact Program.issues_bind (writesNoReview_ask rfl) fun _ => writesNoReview_attemptOp rfl
    · intro spent
      split <;> trivial
  apply Program.issues_bind hbudget
  intro _
  apply Program.issues_bind (Program.issues_done _)
  intro _
  apply Program.issues_bind
  · exact Program.issues_tryCatch (writesNoReview_attemptOp rfl) fun _ => Program.issues_done _
  · intro message
    apply Program.issues_bind (writesNoReview_ask rfl)
    intro latencyMs
    apply Program.issues_bind (Program.issues_done _)
    intro costUsd
    cases reviewId with
    | none => exact Program.issues_done _
    | some reviewId => exact Program.issues_bind writesNoReview_emitAt fun _ => Program.issues_done _

theorem writesNoReview_runSpecialistAnalysis {setup : AgentSetup} {agentType : AgentType}
    {reviewId : Option String} :
    WritesNoReview (runSpecialistAnalysis setup agentType diff reviewId) := by
  apply Program.issues_bind writesNoReview_buildUserMessage
  intro userMessage
  exact Program.issues_bind writesNoReview_complete fun _ => Program.issues_done _

theorem writesNoReview_specialistNode {analyze : Analyze} {agentType : AgentType}
    {state : GraphState} (h : ∀ diff reviewId, WritesNoReview (analyze diff reviewId)) :
    WritesNoReview (specialistNode analyze agentType threadId state) := by
  apply writesNoReview_tracedSpan
  apply Program.issues_bind _ fun _ => Program.issues_done _
  apply Program.issues_attempt
  unfold runSpecialist
  split
  · trivial
  · exact h _ _

end

section

variable {setup : AgentSetup} {settings : Settings} {answers : Answers} {runAnswers : RunAnswers}
  {threadId : String} {initialState state final : GraphState} {made : Review × String}

theorem persistReview_writes {review : Review} {reason : String} {C : Review × String → Prop}
    {Q : Except Exc Unit → List (Review × String) → Prop} (hwritten : C (review, reason))
    (hq : ∀ r, Q r [(review, reason)]) :
    (persistReview review reason).Writes OrchestratorOp.written C Q [] := by
  refine ⟨?_, fun answer => ?_⟩
  · rintro d ⟨⟩
    exact hwritten
  · cases answer with
    | ok u => exact hq (.ok u)
    | error e =>
      show Program.Writes _ _ _ _ (if _ then pure () else throw e : Orchestrated Unit)
      split <;> exact hq _

/-- The aggregator writes a review of what its state is about; one that returns has written the
review that it returns, and no other. -/
theorem aggregateNode_writes : (aggregateNode settings state).Writes OrchestratorOp.written
    (fun made => made.1.subject = state.subject)
    (fun r written => ∀ made, r = .ok made → written = [made]) [] := by
  apply Program.Writes.ofExcept _ (by simp)
  intro routed _
  apply Program.Writes.bind_of_issues (writesNoReview_ask rfl) _ (by simp)
  intro createdAt
  apply Program.Writes.ofExcept _ (by simp)
  intro review hreview
  apply Program.Writes.bind_of_issues writesNoReview_emitAt _ (by simp)
  intro _
  apply Program.Writes.bind (R := fun _ written => written = [(review, routed.reason)])
  · exact persistReview_writes (Review.subject_of_validate hreview) fun _ => rfl
  · rintro _ _ rfl made ⟨⟩
    rfl
  · simp

/-- A node writes what its program does. -/
theorem issue_writes {α : Type} {node : Node} {p : Orchestrated α} {C : Review × String → Prop}
    {Q : Except Exc α → List (Review × String) → Prop} {written : List (Review × String)}
    (h : p.Writes OrchestratorOp.written C Q written) :
    (node.issue p).Writes EngineOp.written C Q written :=
  Program.Writes.relabel h

theorem written_issue {α : Type} {node : Node} {p : Orchestrated α} (h : WritesNoReview p) :
    (node.issue p).Issues fun op : EngineOp => op.written = none :=
  Program.issues_relabel h

theorem written_branches (agentTypes : List AgentType) :
    (setup.engine.branches threadId state agentTypes).Issues fun op : EngineOp =>
      op.written = none := by
  induction agentTypes with
  | nil => trivial
  | cons agentType agentTypes ih =>
    apply Program.issues_bind
    · apply Program.issues_attempt
      apply written_issue
      apply writesNoReview_specialistNode
      exact fun _ _ => writesNoReview_runSpecialistAnalysis
    · exact fun _ => Program.issues_bind ih fun _ => Program.issues_done _

/-- A state that ends in the one review that was written. -/
def EndsIn (final : GraphState) (written : List (Review × String)) : Prop :=
  ∃ made : Review × String,
    final.review = some made.1 ∧ final.routingReason = some made.2 ∧ written = [made]

/-- A run writes a review of what its input is about; one that ends has written the review that it
ends with, and no other. -/
theorem run_writes : (setup.engine.run threadId initialState).Writes EngineOp.written
    (fun made => made.1.subject = initialState.subject)
    (fun r written => ∀ final, r = .ok final → EndsIn final written) [] := by
  apply Program.Writes.bind_of_issues (Program.issues_perform rfl) _ (by simp)
  intro persisted
  apply Program.Writes.bind_of_issues (Program.issues_perform rfl) _ (by simp)
  intro _
  apply Program.Writes.bind_of_issues (written_branches _) _ (by simp)
  intro ended
  apply Program.Writes.ofExcept _ (by simp)
  intro updates _
  apply Program.Writes.bind_of_issues (Program.issues_perform rfl) _ (by simp)
  intro _
  have hsubject : initialState.subject =
      ((GraphState.mergeInput persisted initialState).reduceAll updates).subject := by
    rw [GraphState.subject_reduceAll, GraphState.subject_mergeInput]
  rw [hsubject]
  apply Program.Writes.bind (issue_writes aggregateNode_writes)
  · rintro made written hmade
    apply Program.Writes.bind_of_issues (Program.issues_perform rfl) _ (by simp)
    rintro _ final ⟨⟩
    exact ⟨made, rfl, rfl, hmade made rfl⟩
  · simp

end

/-- The review and the reason that an operation of a job writes. -/
def jobWritten {S : Signature} : (S.sum WorkerSignature).Op → Option (Review × String)
  | .inr (.engine op) => op.written
  | _ => none

section

variable {S : Signature} {client : GitHubClient S} {setup : AgentSetup} {event : WebhookEvent}
  {answers : JobAnswers S} {result : GraphState} {summary : JobSummary}

/-- The run of a job writes a review of what its event is about; when it ends, the review of the run
has been written, and no other. -/
theorem runReviewBlocking_writes {diff : String} :
    (runReviewBlocking setup.engine (event.initialState diff)).Writes
      (fun op => jobWritten (S := S) (.inr op))
      (fun made => made.1.subject = (event.initialState "").subject)
      (fun r written => ∀ result, r = .ok result → EndsIn result written) [] := by
  have hsubject : (event.initialState "").subject = (event.initialState diff).subject := rfl
  rw [hsubject, runReviewBlocking]
  exact Program.Writes.relabel run_writes

/-- A job writes a review of what its event is about; when its run ends, the review of the run has
been written, and no other. -/
theorem runJob_writes : (runJob client setup.engine event).Writes jobWritten
    (fun made => made.1.subject = (event.initialState "").subject)
    (fun r written => ∀ result, r = .ok result → EndsIn result written) [] := by
  apply Program.Writes.bind_of_issues _ _ (by simp)
  · exact Program.issues_right (Program.issues_bind (Program.issues_perform rfl) fun _ =>
      Program.issues_done _)
  intro _
  apply Program.Writes.bind_of_issues _ _ (by simp)
  · exact Program.issues_left (fun _ => rfl) _
  intro diff
  exact runReviewBlocking_writes.right

/-- A job that returns has written the review whose status it returns, and no other. -/
theorem processWebhookEvent_written
    (h : (processWebhookEvent client setup.engine event).outcome answers = .ok summary) :
    ∃ result made, (runJob client setup.engine event).outcome answers = .ok result ∧
      result.review = some made.1 ∧ result.routingReason = some made.2 ∧
      summary.reviewStatus = some made.1.status.value ∧
      ((processWebhookEvent client setup.engine event).issued answers).filterMap jobWritten =
        [made] := by
  obtain ⟨result, hresult, h⟩ := Program.outcome_bind_ok h
  obtain ⟨made, hreview, hreason, hwritten⟩ := runJob_writes.issued answers result hresult
  rw [processWebhookEvent, Program.issued_bind hresult]
  rw [dispatch, hreview] at h ⊢
  obtain ⟨u, hpost, h⟩ := Program.outcome_bind_ok h
  obtain rfl := Except.ok.inj h
  have hdispatch : (((client.postOrQueue made.1).left : Job S Unit).issued answers).filterMap
      jobWritten = [] :=
    List.filterMap_eq_nil_iff.mpr
      ((Program.issues_left (P := fun op => jobWritten op = none) (fun _ => rfl) _).issued answers)
  refine ⟨result, made, hresult, hreview, hreason, rfl, ?_⟩
  have hends : (Program.issued answers (pure ⟨true, event.deliveryId, event.reviewId,
      some made.1.status.value⟩ : Job S JobSummary)).filterMap jobWritten = [] := rfl
  rw [Program.issued_bind hpost, List.filterMap_append, List.filterMap_append, hdispatch, hends]
  simpa using hwritten

end

end ReviewAgent
