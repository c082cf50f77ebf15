import ReviewAgent.Memory.ContextRetriever

/-! The table of code chunks, and what a search over it returns. -/
namespace ReviewAgent

/-- A row of `code_chunks`, with its vector. -/
structure StoredChunk where
  id : ℤ
  path : String
  content : String
  embedding : List ℚ
  deriving DecidableEq

/-- The row, as the searches return it. -/
def StoredChunk.hit (row : StoredChunk) : ChunkRow := ⟨row.id, row.path, row.content⟩

/-- Where the chunk is from, and its text. -/
def StoredChunk.chunk (row : StoredChunk) : String × String := (row.path, row.content)

/-- `code_chunks` in the order of insertion, and the least id that its sequence may still give. -/
structure CodeChunks where
  rows : List StoredChunk
  nextId : ℤ
  increasing : (rows.map StoredChunk.id).Pairwise (· < ·)
  given : ∀ row ∈ rows, row.id < nextId

namespace CodeChunks

/-- `TRUNCATE code_chunks`, which leaves the sequence as it is. -/
def truncate (table : CodeChunks) : CodeChunks where
  rows := []
  nextId := table.nextId
  increasing := List.Pairwise.nil
  given := fun _ hmem => absurd hmem List.not_mem_nil

theorem increasing_insert (table : CodeChunks) {row : StoredChunk} (h : table.nextId ≤ row.id) :
    ((table.rows ++ [row]).map StoredChunk.id).Pairwise (· < ·) := by
  rw [List.map_append, List.pairwise_append]
  refine ⟨table.increasing, List.pairwise_singleton _ _, fun id hid last hlast => ?_⟩
  obtain ⟨earlier, hearlier, rfl⟩ := List.mem_map.mp hid
  rw [List.mem_singleton.mp hlast]
  exact (table.given earlier hearlier).trans_le h

theorem given_insert (table : CodeChunks) {row : StoredChunk} (h : table.nextId ≤ row.id) :
    ∀ row' ∈ table.rows ++ [row], row'.id < row.id + 1 := by
  intro row' hmem
  rcases List.mem_append.mp hmem with hmem | hmem
  · exact ((table.given row' hmem).trans_le h).trans (Int.lt_succ _)
  · rw [List.mem_singleton.mp hmem]
    exact Int.lt_succ _

/-- `_INSERT_SQL`, with an id that the sequence gives: failed statements leave gaps in it. -/
def insert (table : CodeChunks) (row : StoredChunk) (h : table.nextId ≤ row.id) : CodeChunks where
  rows := table.rows ++ [row]
  nextId := row.id + 1
  increasing := table.increasing_insert h
  given := table.given_insert h

/-- Rows of the table, each at most once. -/
structure Draws (table : CodeChunks) (hits : List ChunkRow) : Prop where
  nodup : (hits.map ChunkRow.id).Nodup
  rows : ∀ hit ∈ hits, ∃ row ∈ table.rows, row.hit = hit

/-- `search_vector` and `search_fulltext` over the table: whichever rows they find, as an index is
only approximate, and in whatever order. -/
structure Searched (table : CodeChunks) (searches : ChunkSearches) : Prop where
  vector : ∀ queryText topK hits, searches.vector queryText topK = .ok hits → table.Draws hits
  fulltext : ∀ queryText topK hits, searches.fulltext queryText topK = .ok hits → table.Draws hits

/-- What the table holds under an id. -/
def stored (table : CodeChunks) (id : ℤ) : String × String :=
  ((table.rows.find? fun row => row.id = id).map StoredChunk.chunk).getD ("", "")

variable {table : CodeChunks} {searches : ChunkSearches} {hits : List ChunkRow}

theorem stored_id {row : StoredChunk} (hrow : row ∈ table.rows) : table.stored row.id = row.chunk := by
  have hfound : table.rows.find? (fun row' => row'.id = row.id) = some row := by
    obtain ⟨before, after, hsplit⟩ := List.append_of_mem hrow
    have hincreasing := table.increasing
    rw [hsplit, List.map_append, List.pairwise_append] at hincreasing
    rw [hsplit, List.find?_append]
    have hnone : before.find? (fun row' => row'.id = row.id) = none := by
      rw [List.find?_eq_none]
      intro row' hrow'
      have hlt := hincreasing.2.2 row'.id (List.mem_map_of_mem hrow') row.id (by simp)
      simpa using hlt.ne
    rw [hnone]
    simp
  rw [CodeChunks.stored, hfound]
  rfl

theorem Draws.toHits (h : table.Draws hits) : Hits table.stored hits := by
  refine ⟨h.nodup, fun hit hhit => ?_⟩
  obtain ⟨row, hrow, rfl⟩ := h.rows hit hhit
  exact (stored_id hrow).symm

theorem hybridSearch_ok {retriever : HybridRetriever} {queryText : String} {topK : Option ℤ}
    {results : List FusedChunk} (h : retriever.hybridSearch searches queryText topK = .ok results) :
    ∃ vectorHits fulltextHits,
      searches.vector queryText
        (max (topK.getD retriever.defaultTopK * candidatePoolMultiplier) minCandidatePool) =
          .ok vectorHits ∧
      searches.fulltext queryText
        (max (topK.getD retriever.defaultTopK * candidatePoolMultiplier) minCandidatePool) =
          .ok fulltextHits ∧ 1 ≤ retriever.rrfK := by
  unfold HybridRetriever.hybridSearch at h
  cases hvector : searches.vector queryText
      (max (topK.getD retriever.defaultTopK * candidatePoolMultiplier) minCandidatePool) with
  | error e =>
    simp only [hvector] at h
    cases h
  | ok vectorHits =>
    cases hfulltext : searches.fulltext queryText
        (max (topK.getD retriever.defaultTopK * candidatePoolMultiplier) minCandidatePool) with
    | error e =>
      simp only [hvector, hfulltext] at h
      cases h
    | ok fulltextHits =>
      refine ⟨vectorHits, fulltextHits, rfl, rfl, ?_⟩
      by_contra hk
      simp only [hvector, hfulltext, reciprocalRankFusion, if_pos (show retriever.rrfK ≤ 0 by omega)]
        at h
      cases h

/-- What a search over a table returns is rows of it, each at most once. -/
theorem mem_of_hybridSearch {retriever : HybridRetriever} {queryText : String} {topK : Option ℤ}
    {results : List FusedChunk} (hsearched : table.Searched searches)
    (h : retriever.hybridSearch searches queryText topK = .ok results) :
    (results.map FusedChunk.id).Nodup ∧ ∀ chunk ∈ results, ∃ row ∈ table.rows,
      row.id = chunk.id ∧ row.chunk = (chunk.path, chunk.content) := by
  obtain ⟨vectorHits, fulltextHits, hvector, hfulltext, hrrf⟩ := hybridSearch_ok h
  have hv := hsearched.vector _ _ _ hvector
  have hf := hsearched.fulltext _ _ _ hfulltext
  obtain ⟨fused, hfuses, heq⟩ := hybridSearch_eq hvector hfulltext hv.toHits hf.toHits hrrf
  obtain rfl := Except.ok.inj (h.symm.trans heq)
  refine ⟨?_, fun chunk hchunk => ?_⟩
  · rw [List.map_map]
    exact (sliceTo_sublist.map Prod.fst).nodup hfuses.nodup
  · obtain ⟨pair, hpair, rfl⟩ := List.mem_map.mp hchunk
    obtain ⟨ranking, hranking, hmem⟩ := (hfuses.mem_iff pair.1).mp
      (List.mem_map_of_mem (sliceTo_sublist.subset hpair))
    have hdrawn : ∃ row ∈ table.rows, row.id = pair.1 := by
      simp only [List.mem_cons, List.not_mem_nil, or_false] at hranking
      rcases hranking with rfl | rfl
      · obtain ⟨hit, hhit, hid⟩ := List.mem_map.mp hmem
        obtain ⟨row, hrow, rfl⟩ := hv.rows hit hhit
        exact ⟨row, hrow, hid⟩
      · obtain ⟨hit, hhit, hid⟩ := List.mem_map.mp hmem
        obtain ⟨row, hrow, rfl⟩ := hf.rows hit hhit
        exact ⟨row, hrow, hid⟩
    obtain ⟨row, hrow, hid⟩ := hdrawn
    refine ⟨row, hrow, hid, ?_⟩
    show row.chunk = ((table.stored pair.1).1, (table.stored pair.1).2)
    rw [← hid, stored_id hrow]

end CodeChunks

end ReviewAgent
