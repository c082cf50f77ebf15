import ReviewAgent.Orchestrator.ReviewWrites
import ReviewAgent.Orchestrator.Outages

/-! The queue that people read: when a review that was routed to it is on it. -/
namespace ReviewAgent

open Effects

/-- The answers to a job whose write to the reviews table meets an outage, or none. -/
def JobAnswers.against {S : Signature} (answers : JobAnswers S) (outage : Option Exc) :
    JobAnswers S
  | .inr (.engine (.node _ (.upsertReview review reason))) => upsertAnswer outage review reason
  | op => answers op

/-- The table after the writes of a job. -/
def Reviews.after {S : Signature} (table : Reviews) (outage : Option Exc)
    (ops : List (S.sum WorkerSignature).Op) : Reviews :=
  (ops.filterMap jobWritten).foldl (fun table made =>
    match upsertAnswer outage made.1 made.2 with
    | .ok _ => table.upsert made.1 made.2
    | .error _ => table) table

/-- The review is on the queue. -/
def Listed (table : Reviews) (review : Review) (reason : String) : Prop :=
  ∃ row ∈ table.listPendingHitl, row.Shows review reason

section

variable {S : Signature} {client : GitHubClient S} {setup : AgentSetup} {event : WebhookEvent}
  {answers : JobAnswers S} {summary : JobSummary} {review : Review} {reason : String}
  {table : Reviews} {outage : Option Exc}

/-- A queued review that is written is on the queue. -/
theorem listed_upsert (hqueued : review.status = .queuedForHitl) :
    Listed (table.upsert review reason) review reason := by
  obtain ⟨row, hrow, hshows⟩ := @Reviews.exists_shows_upsert table review reason
  exact ⟨row, Reviews.mem_listPendingHitl.mpr ⟨hrow, hshows.status.trans hqueued⟩, hshows⟩

/-- A job that returns with its review queued has it on the queue exactly if the database was
there for the write and the columns hold the review, or the queue held it before. -/
theorem queued_review_listed_iff
    (hreturns : (processWebhookEvent client setup.engine event).outcome (answers.against outage) =
      .ok summary)
    (hqueued : summary.reviewStatus = some ReviewStatus.queuedForHitl.value) :
    ∃ result review reason,
      (runJob client setup.engine event).outcome (answers.against outage) = .ok result ∧
      result.review = some review ∧ result.routingReason = some reason ∧
      (Listed (table.after outage ((processWebhookEvent client setup.engine event).issued
          (answers.against outage))) review reason ↔
        (outage = none ∧ review.storable reason = true) ∨ Listed table review reason) := by
  obtain ⟨result, ⟨review, reason⟩, hresult, hreview, hreason, hstatus, hwritten⟩ :=
    processWebhookEvent_written hreturns
  refine ⟨result, review, reason, hresult, hreview, hreason, ?_⟩
  have hqueued : review.status = .queuedForHitl :=
    ReviewStatus.value_injective (Option.some.inj (hstatus.symm.trans hqueued))
  rw [Reviews.after, hwritten, List.foldl_cons, List.foldl_nil, ← upsertAnswer_ok]
  cases hanswer : upsertAnswer outage review reason with
  | ok u => exact iff_of_true (listed_upsert hqueued) (Or.inl rfl)
  | error e => simp

end

/-- The status of the review of a job in good order, but for an outage at its write. -/
def statusAfter (outage : Option Exc) : Option String :=
  match (processWebhookEvent (.mock "") AgentSetup.sample.engine .sample).outcome
    (RunAnswers.healthy.job.against outage) with
  | .ok summary => summary.reviewStatus
  | .error _ => none

theorem summary_of_statusAfter {outage : Option Exc} {status : String}
    (h : statusAfter outage = some status) : ∃ summary,
      (processWebhookEvent (.mock "") AgentSetup.sample.engine .sample).outcome
        (RunAnswers.healthy.job.against outage) = .ok summary ∧
      summary.reviewStatus = some status := by
  unfold statusAfter at h
  split at h
  · rename_i summary hsummary
    exact ⟨summary, hsummary, h⟩
  · cases h

/-- Nothing is found, the review is queued, and it is on the queue. -/
theorem queued_review_listed_healthy : ∃ summary result review reason,
    (processWebhookEvent (.mock "") AgentSetup.sample.engine .sample).outcome
      (RunAnswers.healthy.job.against none) = .ok summary ∧
    (runJob (.mock "") AgentSetup.sample.engine .sample).outcome
      (RunAnswers.healthy.job.against none) = .ok result ∧
    result.review = some review ∧ result.routingReason = some reason ∧
    Listed (Reviews.after ⟨[], List.nodup_nil⟩ none
      ((processWebhookEvent (.mock "") AgentSetup.sample.engine .sample).issued
        (RunAnswers.healthy.job.against none))) review reason := by
  have hqueued : statusAfter none = some ReviewStatus.queuedForHitl.value := by decide +kernel
  have hstorable : ((runJob (.mock "") AgentSetup.sample.engine .sample).outcome
      (RunAnswers.healthy.job.against none)).toOption.any (fun result => result.review.any
        fun review => result.routingReason.any fun reason => review.storable reason) = true := by
    decide +kernel
  obtain ⟨summary, hreturns, hstatus⟩ := summary_of_statusAfter hqueued
  obtain ⟨result, review, reason, hresult, hreview, hreason, hlisted⟩ :=
    queued_review_listed_iff hreturns hstatus
  rw [hresult, Except.toOption, Option.any_some, hreview, Option.any_some, hreason, Option.any_some]
    at hstorable
  exact ⟨summary, result, review, reason, hreturns, hresult, hreview, hreason,
    hlisted.mpr (Or.inl ⟨rfl, hstorable⟩)⟩

/-- The database is down for the one write: the job returns, and nobody sees the review. -/
theorem queued_review_lost : ¬ ∀ (table : Reviews) (outage : Option Exc) (summary : JobSummary),
    (∀ e ∈ outage, e.isInstance .psycopgError = true) →
    (processWebhookEvent (.mock "") AgentSetup.sample.engine .sample).outcome
      (RunAnswers.healthy.job.against outage) = .ok summary →
    summary.reviewStatus = some ReviewStatus.queuedForHitl.value →
    ∃ result review reason,
      (runJob (.mock "") AgentSetup.sample.engine .sample).outcome
        (RunAnswers.healthy.job.against outage) = .ok result ∧
      result.review = some review ∧
      Listed (table.after outage
        ((processWebhookEvent (.mock "") AgentSetup.sample.engine .sample).issued
          (RunAnswers.healthy.job.against outage))) review reason := by
  intro h
  have hqueued : statusAfter (some connectionRefused) =
      some ReviewStatus.queuedForHitl.value := by decide +kernel
  obtain ⟨summary, hreturns, hstatus⟩ := summary_of_statusAfter hqueued
  obtain ⟨result, review, reason, -, -, row, hrow, -⟩ := h ⟨[], List.nodup_nil⟩
    (some connectionRefused) summary (by rintro e ⟨⟩; decide) hreturns hstatus
  obtain ⟨-, made, -, -, -, -, hwritten⟩ := processWebhookEvent_written hreturns
  rw [Reviews.after, hwritten] at hrow
  cases hrow

end ReviewAgent
