import ReviewAgent.Database.ReviewStore
import ReviewAgent.InsertionDict
import ReviewAgent.Models.FindingJson

/-! The columns of `reviews`: what an upsert writes there, and what is read back as a review. -/
namespace ReviewAgent

open InsertionDict (Dict)
open Json (Value)

/-- The columns of a row, as they are selected. -/
structure ReviewColumns where
  reviewId : String
  prNumber : ℕ
  repositoryOwner : String
  repositoryName : String
  headSha : String
  status : String
  overallConfidence : Confidence
  reason : String
  findings : Value
  createdAt : ℚ
  postedAt : Option ℚ

/-- What `NUMERIC(4, 3)` keeps of a confidence. -/
def Confidence.toNumeric (c : Confidence) : Confidence := .ofThousandths c.thousandths c.thousandths_le

/-- The values of `_UPSERT_SQL`. -/
def Review.columns (review : Review) (reason : String) : ReviewColumns where
  reviewId := review.reviewId
  prNumber := review.prNumber
  repositoryOwner := review.repositoryOwner
  repositoryName := review.repositoryName
  headSha := review.headSha
  status := review.status.value
  overallConfidence := review.overallConfidence.toNumeric
  reason
  findings := .array (review.findings.map Finding.modelDump)
  createdAt := review.createdAt
  postedAt := review.postedAt

/-- `DO UPDATE SET`. -/
def ReviewColumns.doUpdate (row excluded : ReviewColumns) : ReviewColumns :=
  { row with
    status := excluded.status
    overallConfidence := excluded.overallConfidence
    reason := excluded.reason
    findings := excluded.findings
    postedAt := excluded.postedAt }

/-- The table, by its primary key. -/
abbrev ReviewsTable : Type := Dict String ReviewColumns

/-- `upsert_review`, as it takes effect. -/
def upsertReview (table : ReviewsTable) (review : Review) (reason : String) : ReviewsTable :=
  let excluded := review.columns reason
  table.set review.reviewId
    (match table.find review.reviewId with
    | some row => row.doUpdate excluded
    | none => excluded)

def ReviewStatus.all : List ReviewStatus := [.posted, .queuedForHitl, .rejected, .error]

/-- `ReviewStatus(status)`. -/
def ReviewStatus.ofValue (value : String) : Except Exc ReviewStatus :=
  match ReviewStatus.all.find? fun status => status.value = value with
  | some status => .ok status
  | none => .error (.plain .valueError s!"'{value}' is not a valid ReviewStatus")

/-- `_row_to_persisted_review`. -/
def rowToPersistedReview (row : ReviewColumns) : Except Exc PersistedReview :=
  match row.findings with
  | .array items => do
    let status ← ReviewStatus.ofValue row.status
    let findings ← items.mapM Finding.ofItem
    return {
      reviewId := row.reviewId
      prNumber := row.prNumber
      repositoryOwner := row.repositoryOwner
      repositoryName := row.repositoryName
      headSha := row.headSha
      status
      overallConfidence := row.overallConfidence
      reason := row.reason
      findings
      createdAt := row.createdAt
      postedAt := row.postedAt }
  | _ => .error (.plain .assertionError "")

/-- `get_review`. -/
def getReview (table : ReviewsTable) (reviewId : String) : Except Exc (Option PersistedReview) :=
  match table.find reviewId with
  | none => .ok none
  | some row => (rowToPersistedReview row).map some

/-- The table after upserts, the first one first, into an empty one. -/
def tableAfter (upserts : List (Review × String)) : ReviewsTable :=
  upserts.foldl (fun table upsert => upsertReview table upsert.1 upsert.2) .empty

def firstUpsert (reviewId : String) (upserts : List (Review × String)) : Option (Review × String) :=
  upserts.find? fun upsert => upsert.1.reviewId = reviewId

def lastUpsert (reviewId : String) (upserts : List (Review × String)) : Option (Review × String) :=
  firstUpsert reviewId upserts.reverse

/-- Every column has the value of the review; decimals are compared as numbers. -/
structure PersistedReview.Describes (row : PersistedReview) (review : Review) (reason : String) :
    Prop where
  reviewId : row.reviewId = review.reviewId
  prNumber : row.prNumber = review.prNumber
  repositoryOwner : row.repositoryOwner = review.repositoryOwner
  repositoryName : row.repositoryName = review.repositoryName
  headSha : row.headSha = review.headSha
  status : row.status = review.status
  overallConfidence : row.overallConfidence.value = review.overallConfidence.value
  reason : row.reason = reason
  findings : row.findings = review.findings
  createdAt : row.createdAt = review.createdAt
  postedAt : row.postedAt = review.postedAt

/-- What is found is the last review upserted, or nothing if there is none. -/
def Current (upserts : List (Review × String)) (reviewId : String) :
    Option PersistedReview → Prop
  | none => lastUpsert reviewId upserts = none
  | some row => ∃ review reason, lastUpsert reviewId upserts = some (review, reason) ∧
    row.Describes review reason

/-- The columns that a conflict leaves as they are agree. -/
def Review.SameSubject (review review' : Review) : Prop :=
  review.prNumber = review'.prNumber ∧ review.repositoryOwner = review'.repositoryOwner ∧
    review.repositoryName = review'.repositoryName ∧ review.headSha = review'.headSha ∧
      review.createdAt = review'.createdAt

section

variable {upserts : List (Review × String)} {reviewId : String} {review first last : Review}
  {reason firstReason lastReason : String}

theorem firstUpsert_append (upsert : Review × String) :
    firstUpsert reviewId (upserts ++ [upsert]) =
      (firstUpsert reviewId upserts).or
        (if upsert.1.reviewId = reviewId then some upsert else none) := by
  unfold firstUpsert
  rw [List.find?_append]
  by_cases hid : upsert.1.reviewId = reviewId <;> simp [hid]

theorem lastUpsert_append (upsert : Review × String) :
    lastUpsert reviewId (upserts ++ [upsert]) =
      if upsert.1.reviewId = reviewId then some upsert else lastUpsert reviewId upserts := by
  unfold lastUpsert firstUpsert
  rw [List.reverse_append, List.reverse_singleton, List.singleton_append, List.find?_cons]
  by_cases hid : upsert.1.reviewId = reviewId <;> simp [hid]

theorem firstUpsert_isSome_iff :
    (firstUpsert reviewId upserts).isSome ↔ (lastUpsert reviewId upserts).isSome := by
  unfold lastUpsert firstUpsert
  simp

theorem reviewId_of_lastUpsert (h : lastUpsert reviewId upserts = some (review, reason)) :
    review.reviewId = reviewId := by
  simpa using List.find?_some h

/-- Where there is a last upsert, there is a first one. -/
theorem exists_firstUpsert {last : Review × String} (h : lastUpsert reviewId upserts = some last) :
    ∃ first, firstUpsert reviewId upserts = some first ∧ first.1.reviewId = reviewId := by
  obtain ⟨first, hfirst⟩ := Option.isSome_iff_exists.mp
    (firstUpsert_isSome_iff.mpr (by rw [h]; rfl))
  exact ⟨first, hfirst, by simpa using List.find?_some hfirst⟩

/-- A row has the columns of its first upsert, but for those that its last one has set. -/
theorem find_tableAfter (upserts : List (Review × String)) (reviewId : String) :
    (tableAfter upserts).find reviewId = (firstUpsert reviewId upserts).bind fun first =>
      (lastUpsert reviewId upserts).map fun last =>
        (first.1.columns first.2).doUpdate (last.1.columns last.2) := by
  induction upserts using List.reverseRecOn with
  | nil => rfl
  | append_singleton upserts upsert ih =>
    have hstep : tableAfter (upserts ++ [upsert]) =
        upsertReview (tableAfter upserts) upsert.1 upsert.2 := by
      simp [tableAfter]
    rw [hstep, firstUpsert_append, lastUpsert_append, upsertReview, Dict.find_set]
    by_cases hid : upsert.1.reviewId = reviewId
    · rw [if_pos hid.symm, if_pos hid, if_pos hid, hid, ih]
      cases hfirst : firstUpsert reviewId upserts with
      | none => rfl
      | some first =>
        have hsome : (firstUpsert reviewId upserts).isSome := by simp [hfirst]
        obtain ⟨last, hlast⟩ := Option.isSome_iff_exists.mp (firstUpsert_isSome_iff.mp hsome)
        simp [hlast, ReviewColumns.doUpdate]
    · rw [if_neg (Ne.symm hid), if_neg hid, if_neg hid, Option.or_none, ih]

/-- The row that `get_review` makes of these columns. -/
def mixedRow (first last : Review) (reason : String) : PersistedReview where
  reviewId := first.reviewId
  prNumber := first.prNumber
  repositoryOwner := first.repositoryOwner
  repositoryName := first.repositoryName
  headSha := first.headSha
  status := last.status
  overallConfidence := last.overallConfidence.toNumeric
  reason
  findings := last.findings
  createdAt := first.createdAt
  postedAt := last.postedAt

theorem ofValue_value (status : ReviewStatus) : ReviewStatus.ofValue status.value = .ok status := by
  cases status <;> rfl

theorem ofItem_modelDumps (findings : List Finding) :
    (findings.map Finding.modelDump).mapM Finding.ofItem = .ok findings := by
  rw [List.mapM_map]
  exact (mapM_ok (g := id) fun finding _ => finding.ofItem_modelDump).trans (by simp)

theorem rowToPersistedReview_doUpdate :
    rowToPersistedReview ((first.columns firstReason).doUpdate (last.columns lastReason)) =
      .ok (mixedRow first last lastReason) := by
  simp only [rowToPersistedReview, ReviewColumns.doUpdate, Review.columns, ofValue_value,
    ofItem_modelDumps, bind, Except.bind]
  rfl

theorem describes_mixedRow_iff (hid : first.reviewId = last.reviewId) :
    (mixedRow first last reason).Describes last reason ↔ first.SameSubject last := by
  constructor
  · intro h
    exact ⟨h.prNumber, h.repositoryOwner, h.repositoryName, h.headSha, h.createdAt⟩
  · rintro ⟨hnumber, howner, hname, hsha, hcreated⟩
    refine ⟨hid, hnumber, howner, hname, hsha, rfl, ?_, rfl, rfl, hcreated, rfl⟩
    exact Confidence.value_eq_iff.mpr (Confidence.thousandths_ofThousandths _)

theorem getReview_none (h : lastUpsert reviewId upserts = none) :
    getReview (tableAfter upserts) reviewId = .ok none := by
  have hfind : (tableAfter upserts).find reviewId = none := by
    simp [find_tableAfter, h]
  rw [getReview, hfind]

theorem getReview_some (hfirst : firstUpsert reviewId upserts = some (first, firstReason))
    (hlast : lastUpsert reviewId upserts = some (last, lastReason)) :
    getReview (tableAfter upserts) reviewId = .ok (some (mixedRow first last lastReason)) := by
  have hfind : (tableAfter upserts).find reviewId =
      some ((first.columns firstReason).doUpdate (last.columns lastReason)) := by
    simp [find_tableAfter, hfirst, hlast]
  rw [getReview, hfind]
  show (rowToPersistedReview _).map some = _
  rw [rowToPersistedReview_doUpdate]
  rfl

end

/-- A row describes the last review upserted for its id exactly if that one has the pull request,
the commit and the time of creation of the first. -/
theorem get_review_current_iff (upserts : List (Review × String)) (reviewId : String) :
    (∃ found, getReview (tableAfter upserts) reviewId = .ok found ∧
        Current upserts reviewId found) ↔
      ∀ first last, firstUpsert reviewId upserts = some first →
        lastUpsert reviewId upserts = some last → first.1.SameSubject last.1 := by
  cases hlast : lastUpsert reviewId upserts with
  | none =>
    refine ⟨fun _ first last _ h => ?_, fun _ => ⟨none, getReview_none hlast, hlast⟩⟩
    cases h
  | some last =>
    obtain ⟨first, hfirst, hfirstId⟩ := exists_firstUpsert hlast
    have hid : first.1.reviewId = last.1.reviewId :=
      hfirstId.trans (reviewId_of_lastUpsert hlast).symm
    have hfound := getReview_some hfirst hlast
    constructor
    · rintro ⟨found, hget, hcurrent⟩ first' last' hfirst' hlast'
      cases hfirst.symm.trans hfirst'
      cases hlast'
      cases hfound.symm.trans hget
      obtain ⟨review, reason, hlast', hdescribes⟩ := hcurrent
      cases hlast.symm.trans hlast'
      exact (describes_mixedRow_iff hid).mp hdescribes
    · intro hsame
      exact ⟨_, hfound, _, _, hlast, (describes_mixedRow_iff hid).mpr (hsame _ _ hfirst rfl)⟩

/-- A review without findings, of one commit. -/
def Review.ofCommit (headSha : String) (headSha_length : headSha.length = 40) : Review where
  reviewId := "webhook-1"
  prNumber := 7
  repositoryOwner := "octo"
  repositoryName := "app"
  headSha
  findings := []
  overallConfidence := .ofThousandths 0 Confidence.zeroThousandths_le
  status := .posted
  createdAt := 0
  reviewId_length := firstId_length
  prNumber_pos := pullSeven_pos
  repositoryOwner_length := octo_length
  repositoryName_length := app_length
  headSha_length
  overallConfidence_matches := noFindings_confidence

theorem rerunSha_length : "fedcba9876543210fedcba9876543210fedcba98".length = 40 := by
  decide

/-- The same id for two commits: the row has the commit of the first. -/
def rerunUpserts : List (Review × String) :=
  [(.ofCommit "0123456789abcdef0123456789abcdef01234567" Review.firstSha_length, "auto-posted"),
    (.ofCommit "fedcba9876543210fedcba9876543210fedcba98" rerunSha_length, "auto-posted")]

theorem rerun_keeps_head_sha : ¬ ∀ (upserts : List (Review × String)) (reviewId : String),
    ∃ found, getReview (tableAfter upserts) reviewId = .ok found ∧
      Current upserts reviewId found := by
  intro h
  obtain ⟨found, hget, hcurrent⟩ := h rerunUpserts "webhook-1"
  have hfound : getReview (tableAfter rerunUpserts) "webhook-1" = .ok (some (mixedRow _ _ _)) :=
    getReview_some rfl rfl
  cases hfound.symm.trans hget
  obtain ⟨review, reason, hlast, hdescribes⟩ := hcurrent
  cases hlast
  exact absurd hdescribes.headSha (by decide)

end ReviewAgent
