import Mathlib.Data.List.Sort
import ReviewAgent.Database.AgentEvents

/-! The `reviews` table: the state of every review, and its log-and-continue policy. -/
namespace ReviewAgent

open Effects

/-- One row of `reviews`, as it is read back. -/
structure PersistedReview where
  reviewId : String
  prNumber : ℕ
  repositoryOwner : String
  repositoryName : String
  headSha : String
  status : ReviewStatus
  overallConfidence : Confidence
  reason : String
  findings : List Finding
  createdAt : ℚ
  postedAt : Option ℚ

/-- `JSONB` rejects U+0000 in a string. -/
def Finding.storable (finding : Finding) : Bool :=
  storableText finding.category && storableText finding.filePath && storableText finding.rationale

/-- The columns hold the review and the reason of its status. -/
def Review.storable (review : Review) (reason : String) : Bool :=
  storableText review.reviewId && storableInteger review.prNumber &&
    storableText review.repositoryOwner && storableText review.repositoryName &&
    storableText review.headSha && storableText reason && review.findings.all Finding.storable

/-- `ON CONFLICT (review_id) DO UPDATE`: what a row takes over from the values excluded. -/
def PersistedReview.overwrite (row : PersistedReview) (review : Review) (reason : String) :
    PersistedReview :=
  { row with
    status := review.status
    overallConfidence := review.overallConfidence
    reason
    findings := review.findings
    postedAt := review.postedAt }

/-- The row that a review is inserted as. -/
def Review.toRow (review : Review) (reason : String) : PersistedReview where
  reviewId := review.reviewId
  prNumber := review.prNumber
  repositoryOwner := review.repositoryOwner
  repositoryName := review.repositoryName
  headSha := review.headSha
  status := review.status
  overallConfidence := review.overallConfidence
  reason
  findings := review.findings
  createdAt := review.createdAt
  postedAt := review.postedAt

/-- The rows of the table. -/
structure Reviews where
  rows : List PersistedReview
  primaryKey : (rows.map (·.reviewId)).Nodup

/-- A row shows the state of a review. -/
structure PersistedReview.Shows (row : PersistedReview) (review : Review) (reason : String) :
    Prop where
  reviewId : row.reviewId = review.reviewId
  status : row.status = review.status
  overallConfidence : row.overallConfidence = review.overallConfidence
  reason : row.reason = reason
  findings : row.findings = review.findings

theorem PersistedReview.shows_overwrite {row : PersistedReview} {review : Review} {reason : String}
    (h : row.reviewId = review.reviewId) : (row.overwrite review reason).Shows review reason :=
  ⟨h, rfl, rfl, rfl, rfl⟩

theorem Review.shows_toRow {review : Review} {reason : String} :
    (review.toRow reason).Shows review reason :=
  ⟨rfl, rfl, rfl, rfl, rfl⟩

namespace Reviews

variable (table : Reviews) (review : Review) (reason : String)

def upsertRows : List PersistedReview :=
  if review.reviewId ∈ table.rows.map (·.reviewId) then
    table.rows.map fun row =>
      if row.reviewId = review.reviewId then row.overwrite review reason else row
  else table.rows ++ [review.toRow reason]

/-- `_UPSERT_SQL`, as it takes effect. -/
def upsert : Reviews where
  rows := table.upsertRows review reason
  primaryKey := by
    unfold upsertRows
    split
    · have hsame : (PersistedReview.reviewId ∘ fun row => if row.reviewId = review.reviewId then
          row.overwrite review reason else row) = PersistedReview.reviewId := by
        funext row
        simp only [Function.comp]
        split <;> rfl
      rw [List.map_map]
      exact hsame.symm ▸ table.primaryKey
    · rename_i hnew
      rw [List.map_append, List.nodup_append]
      refine ⟨table.primaryKey, List.nodup_singleton _, ?_⟩
      rintro id hid id' hid' rfl
      have hsame : id = review.reviewId := List.mem_singleton.mp hid'
      exact hnew (hsame ▸ hid)

/-- `list_pending_hitl`. -/
def listPendingHitl : List PersistedReview :=
  (table.rows.filter fun row => row.status = .queuedForHitl).insertionSort fun row row' =>
    row.createdAt ≤ row'.createdAt

variable {table review reason} {row : PersistedReview}

/-- A row after an upsert is one of another review, the old one overwritten, or a new one. -/
theorem mem_upsert (h : row ∈ (table.upsert review reason).rows) :
    (row ∈ table.rows ∧ row.reviewId ≠ review.reviewId) ∨
      (∃ old ∈ table.rows, old.reviewId = review.reviewId ∧ row = old.overwrite review reason) ∨
      row = review.toRow reason := by
  simp only [upsert, upsertRows] at h
  split at h
  · obtain ⟨old, hold, rfl⟩ := List.mem_map.mp h
    by_cases hid : old.reviewId = review.reviewId
    · exact Or.inr (Or.inl ⟨old, hold, hid, if_pos hid⟩)
    · exact Or.inl (by rw [if_neg hid]; exact ⟨hold, hid⟩)
  · rename_i hnew
    rcases List.mem_append.mp h with hold | hrow
    · refine Or.inl ⟨hold, fun hid => hnew ?_⟩
      exact hid ▸ List.mem_map_of_mem hold
    · exact Or.inr (Or.inr (List.mem_singleton.mp hrow))

/-- After an upsert there is a row that shows the review. -/
theorem exists_shows_upsert : ∃ row ∈ (table.upsert review reason).rows, row.Shows review reason := by
  simp only [upsert, upsertRows]
  split
  · rename_i hid
    obtain ⟨old, hold, hid⟩ := List.mem_map.mp hid
    refine ⟨_, List.mem_map_of_mem hold, ?_⟩
    rw [if_pos hid]
    exact PersistedReview.shows_overwrite hid
  · exact ⟨_, List.mem_append_right _ (List.mem_singleton_self _), Review.shows_toRow⟩

theorem mem_listPendingHitl :
    row ∈ table.listPendingHitl ↔ row ∈ table.rows ∧ row.status = .queuedForHitl := by
  rw [listPendingHitl, List.mem_insertionSort, List.mem_filter, decide_eq_true_eq]

end Reviews

/-- How the database answers an upsert: an outage, or the columns decide. -/
def upsertAnswer (outage : Option Exc) (review : Review) (reason : String) : Except Exc Unit :=
  match outage with
  | some e => .error e
  | none => if review.storable reason then .ok () else .error dataError

theorem upsertAnswer_ok {outage : Option Exc} {review : Review} {reason : String} :
    upsertAnswer outage review reason = .ok () ↔
      outage = none ∧ review.storable reason = true := by
  cases outage with
  | some e => simp [upsertAnswer]
  | none =>
    simp only [upsertAnswer, true_and]
    split <;> simp_all

/-- `persist_review`. -/
def persistReview (review : Review) (reason : String) : Orchestrated Unit :=
  tryCatch (attemptOp (.upsertReview review reason) fun written => written) fun e =>
    if e.isInstanceOfAny [.psycopgError, .osError] then pure () else throw e

/-- Writes to the reviews table fail only as a database that rejects or is unavailable fails. -/
def UpsertsSwallowed (answers : Answers) : Prop :=
  ∀ review reason e, answers (.upsertReview review reason) = .error e →
    e.isInstanceOfAny [.psycopgError, .osError] = true

theorem persistReview_outcome {answers : Answers} (h : UpsertsSwallowed answers)
    (review : Review) (reason : String) : (persistReview review reason).outcome answers = .ok () := by
  rw [persistReview, Program.outcome_tryCatch, outcome_attemptOp]
  cases hwritten : answers (.upsertReview review reason) with
  | ok u => rfl
  | error e =>
    simp only [tryCatch, tryCatchThe, MonadExceptOf.tryCatch, Except.tryCatch,
      h review reason e hwritten]
    rfl

end ReviewAgent
