import ReviewAgent.Agents.ContextBudget
import ReviewAgent.Agents.RetrievalQuery
import ReviewAgent.Orchestrator.ForcedReview
import ReviewAgent.Scripts.SeedRuns

/-! Prompts that are grounded in a seeded table: what stands in them besides the diff. -/
namespace ReviewAgent

open Effects
open GreedyFit (choices chosen)

variable {files : RepoFiles} {args : SeedArgs} {before w : SeedWorld} {searches : ChunkSearches}

theorem mem_limited {chunks : List (String × String)} {chunk : String × String}
    (h : chunk ∈ args.limited chunks) : chunk ∈ chunks := by
  unfold SeedArgs.limited at h
  split at h
  · exact h
  · exact sliceTo_sublist.subset h

/-- A chunk of the repository is one of a file that is not excluded, as it stands. -/
theorem mem_chunks {chunk : String × String} (h : chunk ∈ files.chunks args) :
    ∃ path ∈ files.paths, args.excluded path = false ∧ ∃ source found,
      files.text path = .ok source ∧ args.chunksOf path source = .ok found ∧ chunk ∈ found := by
  obtain ⟨path, hpath, hchunk⟩ := List.mem_flatMap.mp (mem_limited h)
  have hpath := List.mem_filter.mp ((List.mem_insertionSort _).mp hpath)
  refine ⟨path, hpath.1, by simpa using hpath.2, ?_⟩
  unfold RepoFiles.fileChunks at hchunk
  cases htext : files.text path with
  | error e =>
    rw [htext] at hchunk
    cases hchunk
  | ok source =>
    rw [htext] at hchunk
    cases hfound : args.chunksOf path source with
    | error e =>
      simp only [bind, Except.bind, hfound] at hchunk
      cases hchunk
    | ok found =>
      simp only [bind, Except.bind, hfound] at hchunk
      exact ⟨source, found, rfl, hfound, hchunk⟩

/-- The chunk is one of a file of the repository as it stands. -/
def RepoFiles.Has (files : RepoFiles) (args : SeedArgs) (chunk : RetrievedChunk) : Prop :=
  ∃ path ∈ files.paths, args.excluded path = false ∧ ∃ source found,
    files.text path = .ok source ∧ args.chunksOf path source = .ok found ∧
      (chunk.path, chunk.content) ∈ found

/-- After a seeding that returned zero, whatever rows the two searches find, a hybrid search returns
chunks of the repository, each under an id that is new. -/
theorem has_of_hybridSearch {es : List (Machine.Event SeedChoice Empty)}
    (h : (seedMachine files).run 0 before args.seedCodeChunks es = some (w, .done (.ok 0)))
    (hsearched : w.table.Searched searches) {retriever : HybridRetriever}
    {queryText : String} {topK : Option ℤ} {results : List FusedChunk}
    (hresults : retriever.hybridSearch searches queryText topK = .ok results) :
    ∀ chunk ∈ results, before.table.nextId ≤ chunk.id ∧ files.Has args chunk.toRetrievedChunk := by
  have hfilled : Filled files args before (files.chunks args).length w := by
    rcases (seedCodeChunks_ends files args before).run_done nobody_moves rfl h with
      ⟨hcode, -⟩ | ⟨-, -, hfilled⟩
    · cases hcode
    · exact hfilled
  intro chunk hchunk
  obtain ⟨-, hrows⟩ := CodeChunks.mem_of_hybridSearch hsearched hresults
  obtain ⟨row, hrow, hid, hstored⟩ := hrows chunk hchunk
  refine ⟨hid ▸ hfilled.fresh row hrow, ?_⟩
  have hmem := List.mem_map_of_mem (f := StoredChunk.chunk) hrow
  rw [hfilled.chunks, hstored] at hmem
  exact mem_chunks (List.mem_of_mem_take hmem)

/-- A grounded diff is the diff alone, or stands under whole blocks of some of the chunks. -/
theorem groundDiff_cases (diff : String) (chunks : List RetrievedChunk) :
    groundDiff diff chunks = diff ∨ ∃ picked : List RetrievedChunk, picked ≠ [] ∧
      picked.Sublist chunks ∧ groundDiff diff chunks =
        String.join (contextHeader :: picked.map contextBlock) ++ "Diff to review:\n" ++ diff := by
  by_cases hpicked : chosen (choices blockLength maxContextChars contextHeader.length chunks) = []
  · left
    have hempty : formatRetrievedContext chunks = "" := formatRetrievedContext_nil hpicked
    simp only [groundDiff, hempty, if_true]
  · right
    refine ⟨_, hpicked, ?_, ?_⟩
    · have hsublist := @GreedyFit.chosen_sublist _
        (choices blockLength maxContextChars contextHeader.length chunks)
      rwa [GreedyFit.map_fst_choices] at hsublist
    · have hblock := formatRetrievedContext_cons hpicked
      have hne : formatRetrievedContext chunks ≠ "" := fun hempty =>
        hpicked (formatRetrievedContext_eq_empty_iff.mp hempty)
      simp only [groundDiff, if_neg hne]
      rw [show formatRetrievedContext chunks = _ from hblock]
      rfl

/-- What the prompt of a specialist says besides the diff, after a seeding that returned zero: whole
blocks of chunks of the repository's files as they stand, or nothing at all. -/
theorem prompt_after_seeding {es : List (Machine.Event SeedChoice Empty)}
    (h : (seedMachine files).run 0 before args.seedCodeChunks es = some (w, .done (.ok 0)))
    (hsearched : w.table.Searched searches) {retriever : HybridRetriever} {words : WordChars}
    {answers : Answers} {diff message : String}
    (hfound : answers (.hybridSearch diff retrievalTopK) = (retriever.hybridSearch searches
      (extractRetrievalQuery words diff) (some retrievalTopK)).map
        (List.map FusedChunk.toRetrievedChunk))
    (hmessage : (buildUserMessage diff true).outcome answers = .ok message) :
    message = diff ∨ ∃ picked : List RetrievedChunk, picked ≠ [] ∧
      message =
        String.join (contextHeader :: picked.map contextBlock) ++ "Diff to review:\n" ++ diff ∧
      ∀ chunk ∈ picked, files.Has args chunk := by
  cases hresults : retriever.hybridSearch searches (extractRetrievalQuery words diff)
      (some retrievalTopK) with
  | error e =>
    rw [hresults] at hfound
    rw [buildUserMessage_error hfound] at hmessage
    split at hmessage
    · exact .inl (Except.ok.inj hmessage).symm
    · cases hmessage
  | ok results =>
    rw [hresults] at hfound
    rw [buildUserMessage_ok hfound] at hmessage
    obtain rfl := Except.ok.inj hmessage
    rcases groundDiff_cases diff (results.map FusedChunk.toRetrievedChunk) with
      halone | ⟨picked, hne, hsublist, heq⟩
    · exact .inl halone
    · refine .inr ⟨picked, hne, heq, fun chunk hchunk => ?_⟩
      obtain ⟨fused, hfused, rfl⟩ := List.mem_map.mp (hsublist.subset hchunk)
      exact (has_of_hybridSearch h hsearched hresults fused hfused).2

theorem isNamePart_of_isBlank (c : Char) (h : isBlank c = true) : isNamePart c = false := by
  have hall : ∀ n ∈ whitespace, isNamePart (Char.ofNat n) = false := by decide +kernel
  have hmem : c.toNat ∈ whitespace := List.contains_iff_mem.mp h
  rw [← Char.ofNat_toNat c]
  exact hall _ hmem

/-- Words of no other characters than those of names. -/
def WordChars.ascii : WordChars where
  isWord := isNamePart
  isWord_of_part _ h := h
  not_isWord_of_blank := isNamePart_of_isBlank

/-- Both searches find the one chunk that the sample leaves. -/
def ChunkSearches.ofSample : ChunkSearches where
  vector _ _ := .ok [⟨2, "a.py", "x = 1"⟩]
  fulltext _ _ := .ok [⟨2, "a.py", "x = 1"⟩]

def HybridRetriever.sample : HybridRetriever := ⟨5, 60⟩

def Answers.grounded : Answers
  | .hybridSearch diff _ =>
    (HybridRetriever.sample.hybridSearch .ofSample (extractRetrievalQuery .ascii diff)
      (some retrievalTopK)).map (List.map FusedChunk.toRetrievedChunk)
  | op => RunAnswers.healthy.at .aggregate op

theorem sample_prompt : ∃ message,
    (buildUserMessage "+x = 2" true).outcome Answers.grounded = .ok message ∧
    (message = "+x = 2" ∨ ∃ picked : List RetrievedChunk, picked ≠ [] ∧
      message = String.join (contextHeader :: picked.map contextBlock) ++ "Diff to review:\n" ++
        "+x = 2" ∧ ∀ chunk ∈ picked, RepoFiles.sample.Has .sample chunk) := by
  obtain ⟨w, code, hrun, hcheck⟩ := Machine.exists_of_returns sample_seeds
  obtain ⟨hcode, hrows⟩ := Bool.and_eq_true_iff.mp hcheck
  obtain rfl := beq_iff_eq.mp hcode
  have hdraws : w.table.Draws [⟨2, "a.py", "x = 1"⟩] := by
    refine ⟨List.nodup_singleton _, fun hit hhit => ?_⟩
    rw [List.mem_singleton.mp hhit, beq_iff_eq.mp hrows]
    exact ⟨_, List.mem_singleton_self _, rfl⟩
  have hsearched : w.table.Searched .ofSample := by
    refine ⟨fun _ _ hits hhits => ?_, fun _ _ hits hhits => ?_⟩
    · exact Except.ok.inj hhits ▸ hdraws
    · exact Except.ok.inj hhits ▸ hdraws
  obtain ⟨fused, -, hresults⟩ := @hybridSearch_eq .sample .ofSample
    (extractRetrievalQuery .ascii "+x = 2") (some retrievalTopK) _ _ _ rfl rfl
    hdraws.toHits hdraws.toHits (by decide)
  have hfound : Answers.grounded (.hybridSearch "+x = 2" retrievalTopK) =
      (HybridRetriever.sample.hybridSearch .ofSample (extractRetrievalQuery .ascii "+x = 2")
        (some retrievalTopK)).map (List.map FusedChunk.toRetrievedChunk) := rfl
  have hmessage := buildUserMessage_ok (hfound.trans (congrArg _ hresults))
  exact ⟨_, hmessage, prompt_after_seeding hrun hsearched hfound hmessage⟩

end ReviewAgent
