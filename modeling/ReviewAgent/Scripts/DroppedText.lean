import ReviewAgent.Scripts.SeedCodeChunks

/-! What chunking loses of a source: the characters beside a definition on the lines it covers. -/
namespace ReviewAgent

section

variable {α β : Type} {char : α → Char} {char' : β → Char} {f : α → β} {source : List α}
  {node : TopNode} {nodes : List TopNode}

theorem sourceLines_map (hf : ∀ a, char' (f a) = char a) :
    sourceLines char' (source.map f) = (sourceLines char source).map (List.map f) := by
  simp [sourceLines, PlacedText.lines_map hf]

theorem lineAt_map (lines : List (List α)) (index : ℕ) :
    lineAt (lines.map (List.map f)) index = (lineAt lines index).map (List.map f) := by
  rw [lineAt, lineAt, List.getElem?_map]
  cases lines[index]? <;> rfl

theorem decodeSlice_map (slice : Option (List α)) :
    decodeSlice (slice.map (List.map f)) = (decodeSlice slice).map (List.map f) := by
  cases slice <;> rfl

theorem getSourceSegment_map (hf : ∀ a, char' (f a) = char a) :
    getSourceSegment char' (source.map f) node =
      (getSourceSegment char source node).map (Option.map (List.map f)) := by
  unfold getSourceSegment
  cases node.endLineno with
  | none => rfl
  | some endLineno =>
    cases node.endColOffset with
    | none => rfl
    | some endColOffset =>
      simp only [sourceLines_map hf, lineAt_map]
      split
      · cases lineAt (sourceLines char source) (node.lineno - 1) with
        | error e => rfl
        | ok line =>
          simp only [Except.map, bind, Except.bind, PlacedText.sliceBytes_map hf, decodeSlice_map]
          cases decodeSlice (PlacedText.sliceBytes char node.colOffset endColOffset line) <;> rfl
      · cases lineAt (sourceLines char source) (node.lineno - 1) with
        | error e => rfl
        | ok line =>
          simp only [Except.map, bind, Except.bind, PlacedText.dropBytes_map hf, decodeSlice_map]
          cases decodeSlice (PlacedText.dropBytes char node.colOffset line) with
          | error e => rfl
          | ok first =>
            cases lineAt (sourceLines char source) (endLineno - 1) with
            | error e => rfl
            | ok line' =>
              simp only [PlacedText.takeBytes_map hf, decodeSlice_map]
              cases decodeSlice (PlacedText.takeBytes char endColOffset line') with
              | error e => rfl
              | ok last =>
                simp [Except.map, pure, Except.pure, ← List.map_take, ← List.map_drop,
                  List.map_flatten]

theorem keptSegment_map (hf : ∀ a, char' (f a) = char a) :
    keptSegment char' (source.map f) node =
      (keptSegment char source node).map (Option.map (List.map f)) := by
  unfold keptSegment
  split
  · rw [getSourceSegment_map hf]
    cases getSourceSegment char source node with
    | error e => rfl
    | ok segment =>
      cases segment with
      | none => rfl
      | some text =>
        simp only [Except.map, bind, Except.bind, Option.map_some, pure, Except.pure,
          Option.filter_some, PlacedText.strip_map hf, List.isEmpty_map]
        split <;> rfl
  · rfl

theorem chunkNode_map (hf : ∀ a, char' (f a) = char a) (state : List (List α) × List Bool) :
    chunkNode char' (source.map f) (state.1.map (List.map f), state.2) node =
      (chunkNode char source state node).map fun s => (s.1.map (List.map f), s.2) := by
  rw [chunkNode, chunkNode, keptSegment_map hf]
  cases keptSegment char source node with
  | error e => rfl
  | ok segment =>
    cases segment with
    | none => rfl
    | some chunk => simp [Except.map, bind, Except.bind, pure, Except.pure]

theorem foldlM_chunkNode_map (hf : ∀ a, char' (f a) = char a)
    (state : List (List α) × List Bool) :
    nodes.foldlM (chunkNode char' (source.map f)) (state.1.map (List.map f), state.2) =
      (nodes.foldlM (chunkNode char source) state).map fun s => (s.1.map (List.map f), s.2) := by
  induction nodes generalizing state with
  | nil => rfl
  | cons node nodes ih =>
    rw [List.foldlM_cons, List.foldlM_cons, chunkNode_map hf]
    cases chunkNode char source state node with
    | error e => rfl
    | ok next => exact ih next

/-- The text of the chunks is the text at their places. -/
theorem chunkPythonFile_map (hf : ∀ a, char' (f a) = char a) (tree : Option (List TopNode)) :
    chunkPythonFile char' tree (source.map f) =
      (chunkPythonFile char tree source).map (List.map (List.map f)) := by
  cases tree with
  | none =>
    simp only [chunkPythonFile, PlacedText.strip_map hf, List.isEmpty_map, Except.map]
    split <;> rfl
  | some nodes =>
    have hfold := @foldlM_chunkNode_map _ _ char char' f source nodes hf
      ([], List.replicate (PlacedText.lines char isLineBoundary source).length false)
    simp only [chunkPythonFile, PlacedText.lines_map hf, List.length_map]
    rw [List.map_nil] at hfold
    rw [hfold]
    cases nodes.foldlM (chunkNode char source)
        ([], List.replicate (PlacedText.lines char isLineBoundary source).length false) with
    | error e => rfl
    | ok state =>
      have huncovered : (((PlacedText.lines char isLineBoundary source).map (List.map f)).zip
          state.2).filterMap (fun pair => if pair.2 then none else some pair.1) =
            (((PlacedText.lines char isLineBoundary source).zip state.2).filterMap
              fun pair => if pair.2 then none else some pair.1).map (List.map f) := by
        rw [List.zip_map_left, List.filterMap_map, List.map_filterMap]
        congr 1
        funext pair
        by_cases hcovered : pair.2 = true <;> simp [hcovered]
      simp only [Except.map, bind, Except.bind, huncovered, ← List.map_flatten,
        PlacedText.strip_map hf, List.isEmpty_map]
      split <;> simp [pure, Except.pure]

theorem inRange_of_map (hf : ∀ a, char' (f a) = char a) (h : node.InRange char' (source.map f)) :
    node.InRange char source := by
  obtain ⟨endLineno, endColOffset, first, last, hend, hcol, hfirst, hdrop, hlast, htake, hle,
    hcols⟩ := h.exists_end
  rw [sourceLines_map hf, List.getElem?_map] at hfirst hlast
  obtain ⟨first', hfirst', rfl⟩ := Option.map_eq_some_iff.mp hfirst
  obtain ⟨last', hlast', rfl⟩ := Option.map_eq_some_iff.mp hlast
  rw [PlacedText.dropBytes_map hf, Option.isSome_map] at hdrop
  rw [PlacedText.takeBytes_map hf, Option.isSome_map] at htake
  exact ⟨endLineno, endColOffset, first', last', hend, hcol, hfirst', hdrop, hlast', htake, hle,
    hcols⟩

end

/-- Every character that is not blank occurs at its own place in some chunk: the chunks of the
definitions are pieces of the source, what is left is made of whole lines. -/
def DropsNothing (tree : Option (List TopNode)) (source : List Char) : Prop :=
  ∃ chunks rest : List (List (Char × ℕ)),
    chunkPythonFile Prod.fst tree source.zipIdx = .ok (chunks ++ rest) ∧
    chunkPythonFile id tree source = .ok ((chunks ++ rest).map (List.map Prod.fst)) ∧
    (∀ chunk ∈ chunks, chunk <:+: source.zipIdx) ∧
    (∃ kept : List (List (Char × ℕ)),
      kept.Sublist (PlacedText.lines Prod.fst isLineBoundary source.zipIdx) ∧
      rest.flatten = PlacedText.strip Prod.fst isSpaceChar kept.flatten) ∧
    ∀ p ∈ source.zipIdx, isSpaceChar p.1 = false → ∃ chunk ∈ chunks ++ rest, p ∈ chunk

/-- On the lines that the chunks of definitions cover, nothing but blanks stands beside them. -/
def NothingBeside (tree : Option (List TopNode)) (source : List Char) : Prop :=
  ∀ nodes, tree = some nodes → ∀ index line,
    (PlacedText.lines Prod.fst isLineBoundary source.zipIdx)[index]? = some line →
    covers Prod.fst source.zipIdx nodes index = true → ∀ p ∈ line, isSpaceChar p.1 = false →
    ∃ node ∈ nodes, ∃ chunk, chunkOf Prod.fst source.zipIdx node = some chunk ∧ p ∈ chunk

theorem mem_uncoveredLines {α : Type} {char : α → Char} {source line : List α}
    {nodes : List TopNode} : line ∈ uncoveredLines char source nodes ↔
      ∃ index : ℕ, (PlacedText.lines char isLineBoundary source)[index]? = some line ∧
        covers char source nodes index = false := by
  simp only [uncoveredLines, List.mem_filterMap, List.mk_mem_zipIdx_iff_getElem?, Prod.exists]
  constructor
  · rintro ⟨line', index, hline, hkept⟩
    split at hkept
    · cases hkept
    · rename_i hcovers
      cases hkept
      exact ⟨index, hline, by simpa using hcovers⟩
  · rintro ⟨index, hline, hcovers⟩
    exact ⟨line, index, hline, by simp [hcovers]⟩

theorem uncoveredLines_sublist {α : Type} {char : α → Char} {source : List α}
    {nodes : List TopNode} :
    (uncoveredLines char source nodes).Sublist (PlacedText.lines char isLineBoundary source) := by
  have hfilter : uncoveredLines char source nodes =
      ((PlacedText.lines char isLineBoundary source).zipIdx.filter fun pair =>
        !covers char source nodes pair.2).map Prod.fst := by
    rw [uncoveredLines, ← List.filterMap_eq_map, ← List.filterMap_eq_filter,
      List.filterMap_filterMap]
    congr 1
    funext pair
    by_cases hcovers : covers char source nodes pair.2 = true <;> simp [hcovers, Option.guard]
  rw [hfilter]
  have hsublist := (@List.filter_sublist _ (fun pair => !covers char source nodes pair.2)
    (PlacedText.lines char isLineBoundary source).zipIdx).map Prod.fst
  rwa [List.zipIdx_map_fst] at hsublist

/-- A character that is not blank is left exactly if its line is not covered. -/
theorem mem_leftover_iff {α : Type} {char : α → Char} {source : List α} {nodes : List TopNode}
    {p : α} (hblank : isSpaceChar (char p) = false) : p ∈ leftover char source nodes ↔
      ∃ (index : ℕ) (line : List α),
        (PlacedText.lines char isLineBoundary source)[index]? = some line ∧
        covers char source nodes index = false ∧ p ∈ line := by
  constructor
  · intro hp
    obtain ⟨line, hline, hp⟩ := List.mem_flatten.mp (PlacedText.strip_subset _ hp)
    obtain ⟨index, hindex, hcovers⟩ := mem_uncoveredLines.mp hline
    exact ⟨index, line, hindex, hcovers, hp⟩
  · rintro ⟨index, line, hindex, hcovers, hp⟩
    apply PlacedText.mem_strip _ hblank
    exact List.mem_flatten.mpr ⟨line, mem_uncoveredLines.mpr ⟨index, hindex, hcovers⟩, hp⟩

theorem exists_line {source : List (Char × ℕ)} {p : Char × ℕ} (hp : p ∈ source) :
    ∃ (index : ℕ) (line : List (Char × ℕ)),
      (PlacedText.lines Prod.fst isLineBoundary source)[index]? = some line ∧ p ∈ line := by
  rw [← PlacedText.flatten_lines Prod.fst isLineBoundary source,
    List.mem_flatten] at hp
  obtain ⟨line, hline, hp⟩ := hp
  obtain ⟨index, hindex⟩ := List.getElem?_of_mem hline
  exact ⟨index, line, hindex, hp⟩

section

variable {source : List Char} {tree : Option (List TopNode)} {nodes : List TopNode}

theorem inRange_zipIdx {node : TopNode} (h : node.InRange id source) :
    node.InRange Prod.fst source.zipIdx :=
  @inRange_of_map _ _ Prod.fst id Prod.fst source.zipIdx node (fun _ => rfl) (by simpa using h)

theorem nodup_zipIdx (source : List Char) : source.zipIdx.Nodup := by
  apply List.Nodup.of_map Prod.snd
  rw [List.zipIdx_map_snd]
  exact List.nodup_range'

/-- Chunking the characters with their places chunks the characters. -/
theorem chunkPythonFile_places (tree : Option (List TopNode)) (source : List Char) :
    chunkPythonFile id tree source =
      (chunkPythonFile Prod.fst tree source.zipIdx).map (List.map (List.map Prod.fst)) := by
  have h := @chunkPythonFile_map _ _ Prod.fst id Prod.fst source.zipIdx (fun _ => rfl) tree
  rwa [List.zipIdx_map_fst] at h

/-- A source that does not parse is one chunk. -/
theorem dropsNothing_none : DropsNothing none source := by
  refine ⟨if (PlacedText.strip Prod.fst isSpaceChar source.zipIdx).isEmpty then [] else
    [source.zipIdx], [], ?_, ?_, ?_, ⟨[], by simp, by simp [PlacedText.strip]⟩, ?_⟩
  · simp [chunkPythonFile]
  · rw [chunkPythonFile_places]
    simp [chunkPythonFile, Except.map]
  · intro chunk hchunk
    split at hchunk
    · cases hchunk
    · rw [List.mem_singleton.mp hchunk]
  · intro p hp hblank
    have hkept : p ∈ PlacedText.strip Prod.fst isSpaceChar source.zipIdx :=
      PlacedText.mem_strip hp hblank
    rw [if_neg (by simpa using List.ne_nil_of_mem hkept)]
    exact ⟨_, by simp, hp⟩

/-- A source that parses is chunked into the chunks of its definitions and what is left; nothing is
dropped if each character that is not blank is in one of them. -/
theorem dropsNothing_some_iff (hranges : ∀ node ∈ nodes, node.InRange id source) :
    DropsNothing (some nodes) source ↔ ∀ p ∈ source.zipIdx, isSpaceChar p.1 = false →
      (∃ node ∈ nodes, ∃ chunk, chunkOf Prod.fst source.zipIdx node = some chunk ∧ p ∈ chunk) ∨
        p ∈ leftover Prod.fst source.zipIdx nodes := by
  have hplaced : ∀ node ∈ nodes, node.InRange Prod.fst source.zipIdx :=
    fun node hnode => inRange_zipIdx (hranges node hnode)
  have heq := chunkPythonFile_eq hplaced
  have hmem : ∀ p, (∃ chunk ∈ nodes.filterMap (chunkOf Prod.fst source.zipIdx) ++
      (if (leftover Prod.fst source.zipIdx nodes).isEmpty then [] else
        [leftover Prod.fst source.zipIdx nodes]), p ∈ chunk) ↔
      (∃ node ∈ nodes, ∃ chunk, chunkOf Prod.fst source.zipIdx node = some chunk ∧ p ∈ chunk) ∨
        p ∈ leftover Prod.fst source.zipIdx nodes := by
    intro p
    simp only [List.mem_append, List.mem_filterMap]
    constructor
    · rintro ⟨chunk, ⟨node, hnode, hchunk⟩ | hleft, hp⟩
      · exact Or.inl ⟨node, hnode, chunk, hchunk, hp⟩
      · split at hleft
        · cases hleft
        · rw [List.mem_singleton.mp hleft] at hp
          exact Or.inr hp
    · rintro (⟨node, hnode, chunk, hchunk, hp⟩ | hp)
      · exact ⟨chunk, Or.inl ⟨node, hnode, hchunk⟩, hp⟩
      · refine ⟨_, Or.inr ?_, hp⟩
        rw [if_neg (by simpa using List.ne_nil_of_mem hp)]
        exact List.mem_singleton_self _
  constructor
  · rintro ⟨chunks, rest, hchunks, -, -, -, hall⟩ p hp hblank
    rw [heq] at hchunks
    rw [← hmem, Except.ok.inj hchunks]
    exact hall p hp hblank
  · intro hall
    refine ⟨_, _, heq, ?_, ?_, ⟨uncoveredLines Prod.fst source.zipIdx nodes,
      uncoveredLines_sublist, ?_⟩, fun p hp hblank => (hmem p).mpr (hall p hp hblank)⟩
    · rw [chunkPythonFile_places, heq]
      rfl
    · intro chunk hchunk
      obtain ⟨node, hnode, hchunk⟩ := List.mem_filterMap.mp hchunk
      exact infix_of_chunkOf (hplaced node hnode) hchunk
    · split
      · rename_i hempty
        rw [List.isEmpty_iff] at hempty
        exact hempty.symm
      · exact List.append_nil _

/-- Of a source whose nodes are in range nothing is dropped exactly if nothing stands beside the
definitions. -/
theorem chunks_drop_nothing_iff
    (hranges : ∀ nodes, tree = some nodes → ∀ node ∈ nodes, node.InRange id source) :
    DropsNothing tree source ↔ NothingBeside tree source := by
  cases tree with
  | none => exact iff_of_true dropsNothing_none fun nodes h => by cases h
  | some nodes =>
    rw [dropsNothing_some_iff (hranges nodes rfl)]
    constructor
    · intro h nodes' hnodes index line hline hcovers p hp hblank
      obtain rfl := Option.some.inj hnodes
      have hsource : p ∈ source.zipIdx := by
        rw [← PlacedText.flatten_lines Prod.fst isLineBoundary source.zipIdx]
        exact List.mem_flatten.mpr ⟨line, List.mem_of_getElem? hline, hp⟩
      rcases h p hsource hblank with hchunk | hleft
      · exact hchunk
      · -- what is left of the text is on other lines
        obtain ⟨index', line', hline', hcovers', hp'⟩ := (mem_leftover_iff hblank).mp hleft
        have hnodup := nodup_zipIdx source
        rw [← PlacedText.flatten_lines Prod.fst isLineBoundary source.zipIdx] at hnodup
        obtain rfl := PlacedText.index_unique hnodup hline hline' hp hp'
        rw [hcovers] at hcovers'
        cases hcovers'
    · intro h p hp hblank
      obtain ⟨index, line, hline, hmem⟩ := exists_line hp
      cases hcovers : covers Prod.fst source.zipIdx nodes index with
      | true => exact Or.inl (h nodes rfl index line hline hcovers p hmem hblank)
      | false => exact Or.inr ((mem_leftover_iff hblank).mpr ⟨index, line, hline, hcovers, hmem⟩)

end

/-- A definition that stands on one line from its start. -/
def definitionAt (lineno endColOffset : ℕ) (h : 0 < lineno) : TopNode where
  kind := .functionDef
  lineno := lineno
  colOffset := 0
  endLineno := some lineno
  endColOffset := some endColOffset
  lineno_pos := h

/-- An import, and a function on the line after it. -/
def plainSource : List Char := "import os\ndef f(): pass\n".toList

def plainTree : List TopNode := [definitionAt 2 13 Nat.zero_lt_two]

theorem plainTree_inRange : ∀ node ∈ plainTree, node.InRange id plainSource := by
  intro node hnode
  obtain rfl := List.mem_singleton.mp hnode
  exact ⟨⟨2, 13, "def f(): pass\n".toList, "def f(): pass\n".toList, rfl, rfl, by decide +kernel,
    by decide +kernel, by decide +kernel, by decide +kernel, le_rfl, fun _ => by decide⟩⟩

theorem chunks_drop_nothing_plain : DropsNothing (some plainTree) plainSource := by
  apply (chunks_drop_nothing_iff fun nodes h => Option.some.inj h ▸ plainTree_inRange).mpr
  rintro nodes hnodes index line hline hcovers p hp hblank
  obtain rfl := Option.some.inj hnodes
  have hlines : PlacedText.lines Prod.fst isLineBoundary plainSource.zipIdx =
      [plainSource.zipIdx.take 10, plainSource.zipIdx.drop 10] := by decide +kernel
  have hchunk : chunkOf Prod.fst plainSource.zipIdx (definitionAt 2 13 Nat.zero_lt_two) =
      some ((plainSource.zipIdx.drop 10).take 13) := by decide +kernel
  have hbeside : ∀ p ∈ plainSource.zipIdx.drop 10, isSpaceChar p.1 = false →
      p ∈ (plainSource.zipIdx.drop 10).take 13 := by decide +kernel
  rw [hlines] at hline
  rcases index with _ | _ | index
  · have hfree : covers Prod.fst plainSource.zipIdx plainTree 0 = false := by decide +kernel
    rw [hfree] at hcovers
    cases hcovers
  · cases hline
    exact ⟨_, List.mem_singleton_self _, _, hchunk, hbeside p hp hblank⟩
  · cases hline

/-- A function with a comment behind it. -/
def commentedSource : List Char := "def f(): pass  # why\n".toList

def commentedTree : List TopNode := [definitionAt 1 13 Nat.zero_lt_one]

theorem commentedTree_inRange : ∀ node ∈ commentedTree, node.InRange id commentedSource := by
  intro node hnode
  obtain rfl := List.mem_singleton.mp hnode
  exact ⟨⟨1, 13, commentedSource, commentedSource, rfl, rfl, by decide +kernel,
    by decide +kernel, by decide +kernel, by decide +kernel, le_rfl, fun _ => by decide⟩⟩

/-- The comment is in no chunk. -/
theorem comment_dropped : (∀ node ∈ commentedTree, node.InRange id commentedSource) ∧
    ¬ DropsNothing (some commentedTree) commentedSource := by
  refine ⟨commentedTree_inRange, fun h => ?_⟩
  have hchunk : chunkOf Prod.fst commentedSource.zipIdx (definitionAt 1 13 Nat.zero_lt_one) =
      some (commentedSource.zipIdx.take 13) := by decide +kernel
  have hleft : leftover Prod.fst commentedSource.zipIdx commentedTree = [] := by decide +kernel
  rcases (dropsNothing_some_iff commentedTree_inRange).mp h ('w', 17) (by decide +kernel)
    (by decide +kernel) with ⟨node, hnode, chunk, hmade, hmem⟩ | hmem
  · obtain rfl := List.mem_singleton.mp hnode
    obtain rfl := Option.some.inj (hchunk.symm.trans hmade)
    revert hmem
    decide +kernel
  · rw [hleft] at hmem
    cases hmem

end ReviewAgent
