import Mathlib.Algebra.Order.BigOperators.Group.List
import Mathlib.Algebra.Order.Field.Rat
import Mathlib.Data.Finset.Card
import ReviewAgent.InsertionDict
import ReviewAgent.Orchestrator.Operations

/-! Retrieval from two searches, whose rankings are fused. -/
namespace ReviewAgent

open InsertionDict (Dict)

def candidatePoolMultiplier : ℤ := 4

def minCandidatePool : ℤ := 20

/-- `reciprocal_rank_fusion`. -/
def reciprocalRankFusion (rankings : List (List ℤ)) (k : ℤ) : Except Exc (List (ℤ × ℚ)) :=
  if k ≤ 0 then .error (.plain .valueError s!"k must be positive, got {k}")
  else
    let scores := rankings.foldl (fun scores ranking =>
      ranking.zipIdx.foldl (fun scores (documentId, zeroIndexedRank) =>
        let rank := zeroIndexedRank + 1
        scores.add documentId (1 / (k + rank : ℚ))) scores) Dict.empty
    .ok scores.descending

/-- A row of `code_chunks`, as the searches return it. -/
structure ChunkRow where
  id : ℤ
  path : String
  content : String

/-- `RetrievedChunk`, with its id and its fused score. -/
structure FusedChunk extends RetrievedChunk where
  id : ℤ
  score : ℚ

/-- `search_vector` and `search_fulltext`, which ask the database. -/
structure ChunkSearches where
  vector : String → ℤ → Except Exc (List ChunkRow)
  fulltext : String → ℤ → Except Exc (List ChunkRow)

structure HybridRetriever where
  defaultTopK : ℤ
  rrfK : ℤ

/-- `items[:k]`. -/
def sliceTo {α : Type} (items : List α) (k : ℤ) : List α :=
  if 0 ≤ k then items.take k.toNat else items.take (items.length - k.natAbs)

def ChunkRow.entry (row : ChunkRow) : ℤ × (String × String) := (row.id, row.path, row.content)

/-- `hybrid_search`. -/
def HybridRetriever.hybridSearch (retriever : HybridRetriever) (searches : ChunkSearches)
    (queryText : String) (topK : Option ℤ) : Except Exc (List FusedChunk) := do
  let k := topK.getD retriever.defaultTopK
  let candidatePool := max (k * candidatePoolMultiplier) minCandidatePool
  let vectorHits ← searches.vector queryText candidatePool
  let fulltextHits ← searches.fulltext queryText candidatePool
  let vectorRanking := vectorHits.map ChunkRow.id
  let fulltextRanking := fulltextHits.map ChunkRow.id
  let fused ← reciprocalRankFusion [vectorRanking, fulltextRanking] retriever.rrfK
  let rowsById := (Dict.empty.update (vectorHits.map ChunkRow.entry)).update
    (fulltextHits.map ChunkRow.entry)
  (sliceTo fused k).mapM fun (chunkId, score) =>
    match rowsById.find chunkId with
    | some (path, content) => .ok ⟨⟨path, content⟩, chunkId, score⟩
    | none => .error (.plain .keyError (toString chunkId))

/-- The 1-indexed rank of a document, the worst if it is absent. -/
def rankIn (ranking : List ℤ) (documentId : ℤ) : WithTop ℕ :=
  if documentId ∈ ranking then ((ranking.idxOf documentId + 1 : ℕ) : WithTop ℕ) else ⊤

/-- What a document scores in the rankings that contain it. -/
def fusedScore (k : ℤ) (rankings : List (List ℤ)) (documentId : ℤ) : ℚ :=
  ((rankings.filter fun ranking => documentId ∈ ranking).map fun ranking =>
    1 / (k + (ranking.idxOf documentId + 1 : ℕ) : ℚ)).sum

/-- The first document ranks nowhere worse than the second and somewhere better. -/
def Dominates (rankings : List (List ℤ)) (a b : ℤ) : Prop :=
  (∀ ranking ∈ rankings, rankIn ranking a ≤ rankIn ranking b) ∧
    ∃ ranking ∈ rankings, rankIn ranking a < rankIn ranking b

/-- The rankings are fused: each document once, with its score, the best first. -/
structure Fuses (k : ℤ) (rankings : List (List ℤ)) (fused : List (ℤ × ℚ)) : Prop where
  nodup : (fused.map Prod.fst).Nodup
  mem_iff : ∀ documentId, documentId ∈ fused.map Prod.fst ↔ ∃ ranking ∈ rankings, documentId ∈ ranking
  score : ∀ pair ∈ fused, pair.2 = fusedScore k rankings pair.1
  sorted : fused.Pairwise fun pair pair' => pair'.2 ≤ pair.2
  dominant : ∀ a b, Dominates rankings a b →
    (fused.map Prod.fst).idxOf a < (fused.map Prod.fst).idxOf b

section

variable {k : ℤ} {rankings : List (List ℤ)} {documentId : ℤ}

/-- The scores of one ranking, as pairs. -/
def rankScores (k : ℤ) (ranking : List ℤ) : List (ℤ × ℚ) :=
  ranking.zipIdx.map fun (documentId, zeroIndexedRank) =>
    (documentId, 1 / (k + (zeroIndexedRank + 1 : ℕ) : ℚ))

def fuseScores (k : ℤ) (rankings : List (List ℤ)) (scores : Dict ℤ ℚ) : Dict ℤ ℚ :=
  rankings.foldl (fun scores ranking => scores.addAll (rankScores k ranking)) scores

theorem map_fst_rankScores {ranking : List ℤ} : (rankScores k ranking).map Prod.fst = ranking := by
  rw [rankScores, List.map_map]
  exact List.zipIdx_map_fst 0 ranking

theorem reciprocalRankFusion_eq (hk : 1 ≤ k) : reciprocalRankFusion rankings k =
    .ok (fuseScores k rankings .empty).descending := by
  unfold reciprocalRankFusion fuseScores Dict.addAll rankScores
  rw [if_neg (by omega)]
  simp only [List.foldl_map]

/-- What a document scores in one ranking. -/
def rankScore (k : ℤ) (ranking : List ℤ) (documentId : ℤ) : ℚ :=
  if documentId ∈ ranking then 1 / (k + (ranking.idxOf documentId + 1 : ℕ) : ℚ) else 0

theorem sum_rankScores {ranking : List ℤ} (hnodup : ranking.Nodup) (start : ℕ) :
    (((ranking.zipIdx start).map fun (documentId, zeroIndexedRank) =>
      (documentId, 1 / (k + (zeroIndexedRank + 1 : ℕ) : ℚ))).map fun pair =>
        if documentId = pair.1 then pair.2 else 0).sum =
      if documentId ∈ ranking then 1 / (k + (start + ranking.idxOf documentId + 1 : ℕ) : ℚ)
      else 0 := by
  induction ranking generalizing start with
  | nil => simp
  | cons first ranking ih =>
    rw [List.nodup_cons] at hnodup
    have hrest := ih hnodup.2 (start + 1)
    rw [List.zipIdx_cons, List.map_cons, List.map_cons, List.sum_cons, hrest]
    by_cases hfirst : documentId = first
    · subst hfirst
      simp [hnodup.1]
    · have hidx : (first :: ranking).idxOf documentId = ranking.idxOf documentId + 1 :=
        List.idxOf_cons_ne _ (Ne.symm hfirst)
      simp only [hfirst, if_false, List.mem_cons, false_or, zero_add, hidx]
      congr 4
      omega

theorem total_fuseScores (hrankings : ∀ ranking ∈ rankings, ranking.Nodup) (scores : Dict ℤ ℚ) :
    (fuseScores k rankings scores).total documentId = scores.total documentId +
      (rankings.map fun ranking => rankScore k ranking documentId).sum := by
  induction rankings generalizing scores with
  | nil => simp [fuseScores]
  | cons ranking rankings ih =>
    rw [List.forall_mem_cons] at hrankings
    have hone : (scores.addAll (rankScores k ranking)).total documentId =
        scores.total documentId + rankScore k ranking documentId := by
      rw [Dict.total_addAll, rankScores, sum_rankScores hrankings.1]
      simp [rankScore]
    show (fuseScores k rankings (scores.addAll (rankScores k ranking))).total documentId = _
    rw [ih hrankings.2, hone, List.map_cons, List.sum_cons, add_assoc]

theorem mem_keys_fuseScores {scores : Dict ℤ ℚ} :
    documentId ∈ (fuseScores k rankings scores).keys ↔
      documentId ∈ scores.keys ∨ ∃ ranking ∈ rankings, documentId ∈ ranking := by
  induction rankings generalizing scores with
  | nil => simp [fuseScores]
  | cons ranking rankings ih =>
    show documentId ∈ (fuseScores k rankings (scores.addAll (rankScores k ranking))).keys ↔ _
    rw [ih, Dict.mem_keys_addAll, map_fst_rankScores]
    simp [or_assoc]

theorem fusedScore_eq : fusedScore k rankings documentId =
    (rankings.map fun ranking => rankScore k ranking documentId).sum := by
  induction rankings with
  | nil => rfl
  | cons ranking rankings ih =>
    by_cases hmem : documentId ∈ ranking
    · simpa [fusedScore, rankScore, hmem] using ih
    · simpa [fusedScore, rankScore, hmem] using ih

theorem rankScore_le (hk : 1 ≤ k) {ranking : List ℤ} {a b : ℤ}
    (hrank : rankIn ranking a ≤ rankIn ranking b) :
    rankScore k ranking b ≤ rankScore k ranking a := by
  have hpos : (0 : ℚ) < k := by exact_mod_cast hk
  unfold rankIn at hrank
  unfold rankScore
  by_cases hb : b ∈ ranking
  · by_cases ha : a ∈ ranking
    · simp only [ha, hb, if_true] at hrank ⊢
      have hidx : (ranking.idxOf a + 1 : ℕ) ≤ (ranking.idxOf b + 1 : ℕ) :=
        WithTop.coe_le_coe.mp hrank
      gcongr
    · simp [ha, hb] at hrank
  · simp only [hb, if_false]
    split
    · positivity
    · exact le_rfl

theorem rankScore_lt (hk : 1 ≤ k) {ranking : List ℤ} {a b : ℤ}
    (hrank : rankIn ranking a < rankIn ranking b) :
    rankScore k ranking b < rankScore k ranking a := by
  have hpos : (0 : ℚ) < k := by exact_mod_cast hk
  unfold rankIn at hrank
  unfold rankScore
  by_cases ha : a ∈ ranking
  · by_cases hb : b ∈ ranking
    · simp only [ha, hb, if_true] at hrank ⊢
      have hidx : (ranking.idxOf a + 1 : ℕ) < (ranking.idxOf b + 1 : ℕ) :=
        WithTop.coe_lt_coe.mp hrank
      gcongr
    · simp only [ha, hb, if_true, if_false]
      positivity
  · simp [ha] at hrank

theorem fusedScore_lt (hk : 1 ≤ k) {a b : ℤ} (hab : Dominates rankings a b) :
    fusedScore k rankings b < fusedScore k rankings a := by
  rw [fusedScore_eq, fusedScore_eq]
  obtain ⟨hnowhere, ranking, hranking, hbetter⟩ := hab
  exact List.sum_lt_sum _ _ (fun ranking hranking => rankScore_le hk (hnowhere ranking hranking))
    ⟨ranking, hranking, rankScore_lt hk hbetter⟩

end

section

variable {k : ℤ} {rankings : List (List ℤ)}

/-- Reciprocal rank fusion fuses. -/
theorem fuses_reciprocalRankFusion (hk : 1 ≤ k) (hrankings : ∀ ranking ∈ rankings, ranking.Nodup) :
    ∃ fused, reciprocalRankFusion rankings k = .ok fused ∧ Fuses k rankings fused := by
  refine ⟨_, reciprocalRankFusion_eq hk, ?_⟩
  set scores := fuseScores k rankings .empty with hscores
  have hkeys : (scores.descending.map Prod.fst).Perm scores.keys := Dict.descending_perm.map _
  have hscore : ∀ pair ∈ scores.descending, pair.2 = fusedScore k rankings pair.1 := by
    intro pair hpair
    rw [← Dict.total_of_mem (Dict.descending_perm.mem_iff.mp hpair), hscores,
      total_fuseScores hrankings, fusedScore_eq]
    exact zero_add _
  have hmem : ∀ documentId, documentId ∈ scores.descending.map Prod.fst ↔
      ∃ ranking ∈ rankings, documentId ∈ ranking := by
    intro documentId
    rw [hkeys.mem_iff, hscores, mem_keys_fuseScores]
    exact or_iff_right List.not_mem_nil
  refine ⟨hkeys.nodup_iff.mpr scores.nodup_keys, hmem, hscore, Dict.descending_sorted,
    fun a b hab => ?_⟩
  refine Dict.idxOf_lt_of_sorted hscore Dict.descending_sorted ?_ (fusedScore_lt hk hab)
  obtain ⟨-, ranking, hranking, hbetter⟩ := hab
  rw [hmem]
  refine ⟨ranking, hranking, ?_⟩
  by_contra ha
  simp [rankIn, ha] at hbetter

/-- The searches return rows of one table, each at most once. -/
structure Hits (table : ℤ → String × String) (hits : List ChunkRow) : Prop where
  nodup : (hits.map ChunkRow.id).Nodup
  rows : ∀ row ∈ hits, (row.path, row.content) = table row.id

theorem length_sliceTo {α : Type} {items : List α} (h : 1 ≤ k) :
    (sliceTo items k).length = min k.toNat items.length := by
  rw [sliceTo, if_pos (by omega), List.length_take]

theorem sliceTo_sublist {α : Type} {items : List α} : (sliceTo items k).Sublist items := by
  unfold sliceTo
  split <;> exact List.take_sublist _ _

theorem find_rowsById {table : ℤ → String × String} {vectorHits fulltextHits : List ChunkRow}
    (hv : Hits table vectorHits) (hf : Hits table fulltextHits) {chunkId : ℤ}
    (hfound : chunkId ∈ vectorHits.map ChunkRow.id ∨ chunkId ∈ fulltextHits.map ChunkRow.id) :
    ((Dict.empty.update (vectorHits.map ChunkRow.entry)).update
      (fulltextHits.map ChunkRow.entry)).find chunkId = some (table chunkId) := by
  have hentries : ∀ {hits}, Hits table hits → ∀ pair ∈ hits.map ChunkRow.entry,
      pair.2 = table pair.1 := by
    intro hits hhits pair hpair
    obtain ⟨row, hrow, rfl⟩ := List.mem_map.mp hpair
    exact hhits.rows row hrow
  have hids : ∀ hits : List ChunkRow, (hits.map ChunkRow.entry).map Prod.fst =
      hits.map ChunkRow.id := fun hits => List.map_map
  have hfirst : ∀ k v, (Dict.empty.update (vectorHits.map ChunkRow.entry)).find k = some v →
      v = table k := by
    intro k v hfind
    rw [Dict.find_update (fun k v hk => by cases hk) (hentries hv)] at hfind
    split at hfind
    · exact (Option.some.inj hfind).symm
    · cases hfind
  rw [Dict.find_update hfirst (hentries hf), if_pos]
  rcases hfound with hvector | hfulltext
  · left
    rw [Dict.mem_keys_iff, Dict.find_update (fun k v hk => by cases hk) (hentries hv),
      if_pos (Or.inr (hids vectorHits ▸ hvector))]
    rfl
  · exact Or.inr (hids fulltextHits ▸ hfulltext)

/-- A search fuses the rankings of its hits and returns the best chunks, each with its row. -/
theorem hybridSearch_eq {retriever : HybridRetriever} {searches : ChunkSearches}
    {queryText : String} {topK : Option ℤ} {table : ℤ → String × String}
    {vectorHits fulltextHits : List ChunkRow}
    (hvector : searches.vector queryText
      (max (topK.getD retriever.defaultTopK * candidatePoolMultiplier) minCandidatePool) =
        .ok vectorHits)
    (hfulltext : searches.fulltext queryText
      (max (topK.getD retriever.defaultTopK * candidatePoolMultiplier) minCandidatePool) =
        .ok fulltextHits)
    (hv : Hits table vectorHits) (hf : Hits table fulltextHits) (hrrf : 1 ≤ retriever.rrfK) :
    ∃ fused, Fuses retriever.rrfK [vectorHits.map ChunkRow.id, fulltextHits.map ChunkRow.id] fused ∧
      retriever.hybridSearch searches queryText topK =
        .ok ((sliceTo fused (topK.getD retriever.defaultTopK)).map fun pair =>
          ⟨⟨(table pair.1).1, (table pair.1).2⟩, pair.1, pair.2⟩) := by
  obtain ⟨fused, hfused, hfuses⟩ := @fuses_reciprocalRankFusion _
    [vectorHits.map ChunkRow.id, fulltextHits.map ChunkRow.id] hrrf
    (List.forall_mem_cons.mpr ⟨hv.nodup, List.forall_mem_cons.mpr ⟨hf.nodup, by simp⟩⟩)
  refine ⟨fused, hfuses, ?_⟩
  simp only [HybridRetriever.hybridSearch, hvector, hfulltext, hfused, bind, Except.bind]
  apply mapM_ok
  rintro ⟨chunkId, score⟩ hpair
  have hfound := (hfuses.mem_iff chunkId).mp
    (List.mem_map_of_mem (f := Prod.fst) (sliceTo_sublist.subset hpair))
  rw [find_rowsById hv hf (by simpa using hfound)]

end

/-- Rankings are fused, and a search returns the best chunks of the fused rankings of its hits: as
many as asked for or as there are, each once and with its own row. -/
theorem hybrid_search_fuses :
    (∀ (k : ℤ) (rankings : List (List ℤ)), 1 ≤ k → (∀ ranking ∈ rankings, ranking.Nodup) →
      ∃ fused, reciprocalRankFusion rankings k = .ok fused ∧ Fuses k rankings fused) ∧
    ∀ (retriever : HybridRetriever) (searches : ChunkSearches) (queryText : String)
      (topK : Option ℤ) (table : ℤ → String × String) (vectorHits fulltextHits : List ChunkRow),
      let k := topK.getD retriever.defaultTopK
      let candidatePool := max (k * candidatePoolMultiplier) minCandidatePool
      let union := ((vectorHits ++ fulltextHits).map ChunkRow.id).toFinset
      searches.vector queryText candidatePool = .ok vectorHits →
      searches.fulltext queryText candidatePool = .ok fulltextHits →
      Hits table vectorHits → Hits table fulltextHits → 1 ≤ retriever.rrfK → 1 ≤ k →
      ∃ results, retriever.hybridSearch searches queryText topK = .ok results ∧
        results.length = min k.toNat union.card ∧ (results.map FusedChunk.id).Nodup ∧
        (∀ chunk ∈ results, chunk.id ∈ union ∧ (chunk.path, chunk.content) = table chunk.id) ∧
        ∃ fused, Fuses retriever.rrfK
            [vectorHits.map ChunkRow.id, fulltextHits.map ChunkRow.id] fused ∧
          results.map (fun chunk => (chunk.id, chunk.score)) = fused.take k.toNat := by
  refine ⟨fun k rankings hk hrankings => fuses_reciprocalRankFusion hk hrankings, ?_⟩
  intro retriever searches queryText topK table vectorHits fulltextHits k candidatePool union
    hvector hfulltext hv hf hrrf hk
  obtain ⟨fused, hfuses, heq⟩ := hybridSearch_eq hvector hfulltext hv hf hrrf
  have hunion : ∀ chunkId, chunkId ∈ fused.map Prod.fst ↔ chunkId ∈ union := by
    intro chunkId
    rw [hfuses.mem_iff, List.mem_toFinset, List.map_append, List.mem_append]
    simp
  have hcard : fused.length = union.card := by
    have hsame : (fused.map Prod.fst).toFinset = union := by
      ext chunkId
      rw [List.mem_toFinset, hunion]
    rw [← hsame, List.toFinset_card_of_nodup hfuses.nodup, List.length_map]
  refine ⟨_, heq, ?_, ?_, ?_, fused, hfuses, ?_⟩
  · rw [List.length_map, length_sliceTo hk, hcard]
  · rw [List.map_map]
    exact (sliceTo_sublist.map Prod.fst).nodup hfuses.nodup
  · intro chunk hchunk
    obtain ⟨pair, hpair, rfl⟩ := List.mem_map.mp hchunk
    exact ⟨(hunion pair.1).mp (List.mem_map_of_mem (sliceTo_sublist.subset hpair)), rfl⟩
  · rw [List.map_map, sliceTo, if_pos (by omega)]
    exact List.map_id _

/-- Three chunks, of which each search finds two. -/
def ChunkSearches.sample : ChunkSearches where
  vector _ _ := .ok [⟨3, "c.py", "c"⟩, ⟨1, "a.py", "a"⟩]
  fulltext _ _ := .ok [⟨1, "a.py", "a"⟩, ⟨2, "b.py", "b"⟩]

theorem hybrid_search_of_three :
    (∃ fused, reciprocalRankFusion [[3, 1], [1, 2]] 60 = .ok fused ∧
      Fuses 60 [[3, 1], [1, 2]] fused) ∧
    ∃ results, HybridRetriever.hybridSearch ⟨5, 60⟩ .sample "login" (some 2) = .ok results ∧
      results.length = 2 := by
  obtain ⟨hfuses, hsearch⟩ := hybrid_search_fuses
  refine ⟨hfuses 60 [[3, 1], [1, 2]] (by decide) (by decide), ?_⟩
  obtain ⟨results, hresults, hlength, -⟩ := hsearch ⟨5, 60⟩ .sample "login" (some 2)
    (fun id => if id = 3 then ("c.py", "c") else if id = 1 then ("a.py", "a") else ("b.py", "b"))
    _ _ rfl rfl ⟨by decide, by decide⟩ ⟨by decide, by decide⟩ (by decide) (by decide)
  exact ⟨results, hresults, hlength.trans (by decide)⟩

end ReviewAgent
