import ReviewAgent.Database.ReviewRows

/-! The reviews that await a decision, as the queue view reads them. -/
namespace ReviewAgent

open InsertionDict (Dict)

/-- `_SELECT_BY_STATUS_SQL`. -/
def selectByStatus (table : ReviewsTable) (status : String) : List ReviewColumns :=
  ((table.entries.map Prod.snd).filter fun row => row.status = status).insertionSort
    fun row row' => row.createdAt ≤ row'.createdAt

/-- `list_pending_hitl`, of the columns. -/
def listPendingHitl (table : ReviewsTable) : Except Exc (List PersistedReview) :=
  (selectByStatus table ReviewStatus.queuedForHitl.value).mapM rowToPersistedReview

/-- The columns of a row that shows a review. -/
def PersistedReview.columns (row : PersistedReview) : ReviewColumns where
  reviewId := row.reviewId
  prNumber := row.prNumber
  repositoryOwner := row.repositoryOwner
  repositoryName := row.repositoryName
  headSha := row.headSha
  status := row.status.value
  overallConfidence := row.overallConfidence.toNumeric
  reason := row.reason
  findings := .array (row.findings.map Finding.modelDump)
  createdAt := row.createdAt
  postedAt := row.postedAt

/-- The columns of a table of such rows. -/
def Reviews.columns (table : Reviews) : ReviewsTable where
  entries := table.rows.map fun row => (row.reviewId, row.columns)
  nodup_keys := by
    rw [List.map_map]
    exact table.primaryKey

/-- An upsert of a row does to its columns what the statement does. -/
theorem Reviews.columns_upsert (table : Reviews) (review : Review) (reason : String) :
    (table.upsert review reason).columns = upsertReview table.columns review reason := by
  have hkeys : table.columns.entries.map Prod.fst = table.rows.map (·.reviewId) := List.map_map
  refine Dict.ext ?_
  show (table.upsertRows review reason).map _ = InsertionDict.setEntry _ _ table.columns.entries
  unfold upsertRows
  split
  · rename_i hid
    obtain ⟨row, hrow, hid'⟩ := List.mem_map.mp hid
    have hfind : table.columns.find review.reviewId = some row.columns :=
      Dict.find_of_mem (hid' ▸ List.mem_map_of_mem hrow)
    rw [hfind, InsertionDict.setEntry_of_mem table.columns.nodup_keys (hkeys ▸ hid), List.map_map]
    show _ = (table.rows.map _).map _
    rw [List.map_map]
    refine List.map_congr_left fun row' hrow' => ?_
    simp only [Function.comp]
    by_cases hsame : row'.reviewId = review.reviewId
    · have hrows : row' = row :=
        List.inj_on_of_nodup_map table.primaryKey hrow' hrow (hsame.trans hid'.symm)
      rw [if_pos hsame, if_pos hsame, hrows]
      exact Prod.ext (hrows ▸ hsame) rfl
    · rw [if_neg hsame, if_neg hsame]
  · rename_i hid
    have hfind : table.columns.find review.reviewId = none := by
      rw [← Option.not_isSome_iff_eq_none, ← Dict.mem_keys_iff]
      exact fun hmem => hid (hkeys ▸ hmem)
    rw [hfind, InsertionDict.setEntry_of_notMem (hkeys ▸ hid), List.map_append]
    rfl

/-- The rows after upserts, the first one first, into an empty table. -/
def reviewsAfter (upserts : List (Review × String)) : Reviews :=
  upserts.foldl (fun table upsert => table.upsert upsert.1 upsert.2) ⟨[], List.nodup_nil⟩

/-- A row as it is read back. -/
def PersistedReview.readBack (row : PersistedReview) : PersistedReview :=
  { row with overallConfidence := row.overallConfidence.toNumeric }

section

variable {table : Reviews} {row : PersistedReview} {reviewId : String}
  {upserts : List (Review × String)}

/-- The columns follow the rows through every upsert. -/
theorem columns_reviewsAfter (upserts : List (Review × String)) :
    (reviewsAfter upserts).columns = tableAfter upserts := by
  induction upserts using List.reverseRecOn with
  | nil => rfl
  | append_singleton upserts upsert ih =>
    have hrows : reviewsAfter (upserts ++ [upsert]) =
        (reviewsAfter upserts).upsert upsert.1 upsert.2 := by
      simp [reviewsAfter]
    rw [hrows, Reviews.columns_upsert, ih]
    simp [tableAfter]

theorem rowToPersistedReview_columns (row : PersistedReview) :
    rowToPersistedReview row.columns = .ok row.readBack := by
  simp only [rowToPersistedReview, PersistedReview.columns, ofValue_value, ofItem_modelDumps, bind,
    Except.bind]
  rfl

/-- The statement selects the columns of the rows that are pending, in their order. -/
theorem selectByStatus_columns (table : Reviews) :
    selectByStatus table.columns ReviewStatus.queuedForHitl.value =
      table.listPendingHitl.map PersistedReview.columns := by
  have hrows : table.columns.entries.map Prod.snd = table.rows.map PersistedReview.columns :=
    List.map_map
  have hstatus : ((fun row : ReviewColumns =>
      decide (row.status = ReviewStatus.queuedForHitl.value)) ∘ PersistedReview.columns) =
      fun row => decide (row.status = .queuedForHitl) := by
    funext row
    exact decide_eq_decide.mpr ReviewStatus.value_injective.eq_iff
  rw [selectByStatus, hrows, List.filter_map, hstatus, Reviews.listPendingHitl]
  exact (List.map_insertionSort (fun row row' : PersistedReview => row.createdAt ≤ row'.createdAt)
    (fun row row' : ReviewColumns => row.createdAt ≤ row'.createdAt) PersistedReview.columns _
    fun _ _ _ _ => Iff.rfl).symm

theorem listPendingHitl_columns (table : Reviews) :
    listPendingHitl table.columns = .ok (table.listPendingHitl.map PersistedReview.readBack) := by
  rw [listPendingHitl, selectByStatus_columns, List.mapM_map]
  exact mapM_ok fun row _ => rowToPersistedReview_columns row

/-- What is found under an id is the row with that id, as it is read back. -/
theorem getReview_columns : getReview table.columns reviewId = .ok (some row) ↔
    ∃ shown ∈ table.rows, shown.reviewId = reviewId ∧ shown.readBack = row := by
  constructor
  · intro hget
    cases hfind : table.columns.find reviewId with
    | none =>
      rw [getReview, hfind] at hget
      cases hget
    | some columns =>
      obtain ⟨shown, hshown, hentry⟩ := List.mem_map.mp (Dict.mem_of_find hfind)
      cases hentry
      refine ⟨shown, hshown, rfl, ?_⟩
      rw [getReview, hfind] at hget
      simp only [rowToPersistedReview_columns] at hget
      cases hget
      rfl
  · rintro ⟨shown, hshown, rfl, rfl⟩
    have hfind : table.columns.find shown.reviewId = some shown.columns :=
      Dict.find_of_mem (List.mem_map_of_mem hshown)
    rw [getReview, hfind]
    show (rowToPersistedReview shown.columns).map some = _
    rw [rowToPersistedReview_columns]
    rfl

theorem getReview_status (h : getReview (tableAfter upserts) reviewId = .ok (some row)) :
    ∃ review reason, lastUpsert reviewId upserts = some (review, reason) ∧
      review.status = row.status := by
  cases hlast : lastUpsert reviewId upserts with
  | none =>
    rw [getReview_none hlast] at h
    cases h
  | some last =>
    obtain ⟨first, hfirst, -⟩ := exists_firstUpsert hlast
    rw [getReview_some hfirst hlast] at h
    cases h
    exact ⟨_, _, rfl, rfl⟩

theorem exists_getReview {review : Review} {reason : String}
    (h : lastUpsert reviewId upserts = some (review, reason)) :
    ∃ row, getReview (tableAfter upserts) reviewId = .ok (some row) ∧
      row.status = review.status := by
  obtain ⟨first, hfirst, -⟩ := exists_firstUpsert h
  exact ⟨_, getReview_some hfirst h, rfl⟩

end

/-- The queue view lists, oldest first and each once, exactly the reviews whose last upsert has
queued them, with the row that is found for each. -/
theorem list_pending_hitl_reads (upserts : List (Review × String)) :
    ∃ found, listPendingHitl (tableAfter upserts) = .ok found ∧
      found.Pairwise (fun row row' => row.createdAt ≤ row'.createdAt) ∧
      (found.map (·.reviewId)).Nodup ∧
      (∀ reviewId, reviewId ∈ found.map (·.reviewId) ↔ ∃ review reason,
        lastUpsert reviewId upserts = some (review, reason) ∧ review.status = .queuedForHitl) ∧
      ∀ row ∈ found, getReview (tableAfter upserts) row.reviewId = .ok (some row) := by
  have hfound := listPendingHitl_columns (reviewsAfter upserts)
  rw [columns_reviewsAfter] at hfound
  have hids : ((reviewsAfter upserts).listPendingHitl.map PersistedReview.readBack).map
      (·.reviewId) = (reviewsAfter upserts).listPendingHitl.map (·.reviewId) := List.map_map
  have hread : ∀ row ∈ (reviewsAfter upserts).listPendingHitl,
      getReview (tableAfter upserts) row.reviewId = .ok (some row.readBack) := by
    intro row hrow
    rw [← columns_reviewsAfter]
    exact getReview_columns.mpr ⟨row, (Reviews.mem_listPendingHitl.mp hrow).1, rfl, rfl⟩
  refine ⟨_, hfound, ?_, ?_, fun reviewId => ?_, ?_⟩
  · rw [List.pairwise_map]
    exact List.pairwise_insertionSort _ _
  · rw [hids]
    exact ((List.perm_insertionSort _ _).map _).nodup_iff.mpr
      ((reviewsAfter upserts).primaryKey.sublist (List.filter_sublist.map _))
  · rw [hids, List.mem_map]
    constructor
    · rintro ⟨row, hrow, rfl⟩
      obtain ⟨review, reason, hlast, hstatus⟩ := getReview_status (hread row hrow)
      exact ⟨review, reason, hlast, hstatus.trans (Reviews.mem_listPendingHitl.mp hrow).2⟩
    · rintro ⟨review, reason, hlast, hqueued⟩
      obtain ⟨row, hget, hstatus⟩ := exists_getReview hlast
      rw [← columns_reviewsAfter] at hget
      obtain ⟨shown, hshown, hid, rfl⟩ := getReview_columns.mp hget
      exact ⟨shown, Reviews.mem_listPendingHitl.mpr ⟨hshown, hstatus.trans hqueued⟩, hid⟩
  · rintro row hrow
    obtain ⟨shown, hshown, rfl⟩ := List.mem_map.mp hrow
    exact hread shown hshown

end ReviewAgent
