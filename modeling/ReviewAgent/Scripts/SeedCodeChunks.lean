import ReviewAgent.Agents.ResponseParsing
import ReviewAgent.PlacedText

/-! Chunks of Python sources: one per top-level definition, and one of the lines that are left. -/
namespace ReviewAgent

inductive NodeKind where
  | functionDef | asyncFunctionDef | classDef
  | other
  deriving DecidableEq

/-- A top-level node of a syntax tree. Lines count from one, columns are bytes of UTF-8. -/
structure TopNode where
  kind : NodeKind
  lineno : ℕ
  colOffset : ℕ
  endLineno : Option ℕ
  endColOffset : Option ℕ
  lineno_pos : 0 < lineno

/-- `isinstance(node, ast.FunctionDef | ast.AsyncFunctionDef | ast.ClassDef)`. -/
def TopNode.isDefinition (node : TopNode) : Bool := node.kind != .other

/-- `str.isspace` of one character. -/
def isSpaceChar (c : Char) : Bool := isWhitespace c.toNat

/-- What the tokenizer counts as the end of a line. -/
def isNewline (c : Char) : Bool := c == '\n' || c == '\r'

def indexError : Exc := .plain (.other "IndexError" .lookupError) "list index out of range"

section

variable {α : Type} (char : α → Char)

/-- `ast._splitlines_no_ff`: the lines as the tokenizer counts them, and the empty one behind. -/
def sourceLines (source : List α) : List (List α) :=
  PlacedText.lines char isNewline source ++ [[]]

/-- A slice of bytes that does not end between two characters. -/
def decodeSlice (slice : Option (List α)) : Except Exc (List α) :=
  match slice with
  | some text => .ok text
  | none => .error (.plain unicodeDecodeError "'utf-8' codec can't decode bytes")

/-- `lines[index]`. -/
def lineAt (lines : List (List α)) (index : ℕ) : Except Exc (List α) :=
  match lines[index]? with
  | some line => .ok line
  | none => .error indexError

/-- `ast.get_source_segment`. -/
def getSourceSegment (source : List α) (node : TopNode) : Except Exc (Option (List α)) :=
  match node.endLineno, node.endColOffset with
  | some endLineno, some endColOffset => do
    let lines := sourceLines char source
    if endLineno = node.lineno then
      let line ← lineAt lines (node.lineno - 1)
      let segment ← decodeSlice (PlacedText.sliceBytes char node.colOffset endColOffset line)
      pure (some segment)
    else
      let line ← lineAt lines (node.lineno - 1)
      let first ← decodeSlice (PlacedText.dropBytes char node.colOffset line)
      let line ← lineAt lines (endLineno - 1)
      let last ← decodeSlice (PlacedText.takeBytes char endColOffset line)
      let between := (lines.take (endLineno - 1)).drop node.lineno
      pure (some (first ++ between.flatten ++ last))
  | _, _ => .ok none

/-- The segment that becomes a chunk: of a definition, and not blank. -/
def keptSegment (source : List α) (node : TopNode) : Except Exc (Option (List α)) :=
  if node.isDefinition then do
    let segment ← getSourceSegment char source node
    pure (segment.filter fun text => !(PlacedText.strip char isSpaceChar text).isEmpty)
  else .ok none

/-- The line, counted from zero, is one that the node spans. -/
def TopNode.spans (node : TopNode) (line : ℕ) : Bool :=
  node.lineno - 1 ≤ line && line < node.endLineno.getD node.lineno

/-- One pass of the loop over the nodes: the chunks so far, and the lines they cover. -/
def chunkNode (source : List α) (state : List (List α) × List Bool) (node : TopNode) :
    Except Exc (List (List α) × List Bool) := do
  let segment ← keptSegment char source node
  match segment with
  | none => pure state
  | some chunk => pure (state.1 ++ [chunk], state.2.mapIdx fun line covered =>
      covered || node.spans line)

/-- `_chunk_python_file`, of what `ast.parse` yields: its nodes, or `none` for a syntax error. -/
def chunkPythonFile (tree : Option (List TopNode)) (source : List α) :
    Except Exc (List (List α)) :=
  match tree with
  | none => .ok (if (PlacedText.strip char isSpaceChar source).isEmpty then [] else [source])
  | some nodes => do
    let lines := PlacedText.lines char isLineBoundary source
    let (chunks, lineIsCovered) ←
      nodes.foldlM (chunkNode char source) ([], List.replicate lines.length false)
    let uncovered := (lines.zip lineIsCovered).filterMap fun (line, covered) =>
      if covered then none else some line
    let leftover := PlacedText.strip char isSpaceChar uncovered.flatten
    pure (if leftover.isEmpty then chunks else chunks ++ [leftover])

/-- The node lies within the text: its first and its last line exist, its columns stand between
characters, and it does not end before it starts. -/
structure TopNode.InRange (source : List α) (node : TopNode) : Prop where
  exists_end : ∃ endLineno endColOffset first last,
    node.endLineno = some endLineno ∧ node.endColOffset = some endColOffset ∧
    (sourceLines char source)[node.lineno - 1]? = some first ∧
    (PlacedText.dropBytes char node.colOffset first).isSome ∧
    (sourceLines char source)[endLineno - 1]? = some last ∧
    (PlacedText.takeBytes char endColOffset last).isSome ∧
    node.lineno ≤ endLineno ∧ (endLineno = node.lineno → node.colOffset ≤ endColOffset)

/-- The chunk that a node becomes, if it becomes one. -/
def chunkOf (source : List α) (node : TopNode) : Option (List α) :=
  (keptSegment char source node).toOption.join

/-- The line is on the lines of a node that became a chunk. -/
def covers (source : List α) (nodes : List TopNode) (line : ℕ) : Bool :=
  nodes.any fun node => (chunkOf char source node).isSome && node.spans line

/-- The lines, as `splitlines` counts them, that no chunk covers. -/
def uncoveredLines (source : List α) (nodes : List TopNode) : List (List α) :=
  (PlacedText.lines char isLineBoundary source).zipIdx.filterMap fun (line, index) =>
    if covers char source nodes index then none else some line

def leftover (source : List α) (nodes : List TopNode) : List α :=
  PlacedText.strip char isSpaceChar (uncoveredLines char source nodes).flatten

end

section

variable {α β : Type} {char : α → Char} {char' : β → Char} {f : α → β} {source : List α}
  {node : TopNode} {nodes : List TopNode}

@[simp] theorem flatten_sourceLines : (sourceLines char source).flatten = source := by
  simp [sourceLines]

theorem getSourceSegment_line {line segment : List α} {endColOffset : ℕ}
    (hend : node.endLineno = some node.lineno) (hcol : node.endColOffset = some endColOffset)
    (hline : (sourceLines char source)[node.lineno - 1]? = some line)
    (hsegment : PlacedText.sliceBytes char node.colOffset endColOffset line = some segment) :
    getSourceSegment char source node = .ok (some segment) := by
  simp only [getSourceSegment, hend, hcol, lineAt, hline, if_pos, bind, Except.bind, hsegment,
    decodeSlice]
  rfl

theorem getSourceSegment_lines {line line' first last : List α} {endLineno endColOffset : ℕ}
    (hne : endLineno ≠ node.lineno) (hend : node.endLineno = some endLineno)
    (hcol : node.endColOffset = some endColOffset)
    (hline : (sourceLines char source)[node.lineno - 1]? = some line)
    (hline' : (sourceLines char source)[endLineno - 1]? = some line')
    (hfirst : PlacedText.dropBytes char node.colOffset line = some first)
    (hlast : PlacedText.takeBytes char endColOffset line' = some last) :
    getSourceSegment char source node = .ok (some (first ++
      (((sourceLines char source).take (endLineno - 1)).drop node.lineno).flatten ++ last)) := by
  simp only [getSourceSegment, hend, hcol, lineAt, hline, hline', if_neg hne, bind, Except.bind,
    hfirst, hlast, decodeSlice]
  rfl

/-- The segment of a node is a piece of the text. -/
theorem getSourceSegment_of_inRange (h : node.InRange char source) :
    ∃ segment before after, getSourceSegment char source node = .ok (some segment) ∧
      source = before ++ segment ++ after := by
  obtain ⟨endLineno, endColOffset, line, line', hend, hcol, hline, hdrop, hline', htake, hle,
    hcols⟩ := h.exists_end
  have hpos := node.lineno_pos
  have hsource := @flatten_sourceLines _ char source
  rcases eq_or_ne endLineno node.lineno with rfl | hne
  · obtain rfl : line = line' := Option.some.inj (hline.symm.trans hline')
    obtain ⟨segment, hsegment⟩ := Option.isSome_iff_exists.mp
      (PlacedText.sliceBytes_isSome (hcols rfl) hdrop htake)
    obtain ⟨front, back, rfl⟩ := PlacedText.sliceBytes_eq hsegment
    rw [PlacedText.flatten_around hline] at hsource
    refine ⟨segment, ((sourceLines char source).take (node.lineno - 1)).flatten ++ front,
      back ++ ((sourceLines char source).drop (node.lineno - 1 + 1)).flatten,
      getSourceSegment_line hend hcol hline hsegment, ?_⟩
    refine hsource.symm.trans ?_
    simp only [List.append_assoc]
  · obtain ⟨first, hfirst⟩ := Option.isSome_iff_exists.mp hdrop
    obtain ⟨last, hlast⟩ := Option.isSome_iff_exists.mp htake
    obtain ⟨front, rfl⟩ := PlacedText.dropBytes_eq hfirst
    obtain ⟨back, rfl⟩ := PlacedText.takeBytes_eq hlast
    rw [PlacedText.flatten_between (by omega) hline hline', Nat.sub_add_cancel hpos] at hsource
    refine ⟨_, ((sourceLines char source).take (node.lineno - 1)).flatten ++ front,
      back ++ ((sourceLines char source).drop (endLineno - 1 + 1)).flatten,
      getSourceSegment_lines hne hend hcol hline hline' hfirst hlast, ?_⟩
    refine hsource.symm.trans ?_
    simp only [List.append_assoc]

/-- A node in range becomes a chunk or not; nothing is raised. -/
theorem keptSegment_of_inRange (h : node.InRange char source) :
    keptSegment char source node = .ok (chunkOf char source node) := by
  obtain ⟨segment, -, -, hsegment, -⟩ := getSourceSegment_of_inRange h
  have hkept : ∃ kept, keptSegment char source node = .ok kept := by
    unfold keptSegment
    split
    · rw [hsegment]
      exact ⟨_, rfl⟩
    · exact ⟨_, rfl⟩
  obtain ⟨kept, hkept⟩ := hkept
  rw [chunkOf, hkept]
  cases kept <;> rfl

/-- A chunk of a node is a piece of the text, and not blank. -/
theorem infix_of_chunkOf {chunk : List α} (h : node.InRange char source)
    (hchunk : chunkOf char source node = some chunk) : chunk <:+: source := by
  obtain ⟨segment, before, after, hsegment, hsource⟩ := getSourceSegment_of_inRange h
  have hkept := keptSegment_of_inRange h
  rw [hchunk, keptSegment] at hkept
  split at hkept
  · rw [hsegment] at hkept
    obtain ⟨hsame, -⟩ := Option.filter_eq_some_iff.mp (Except.ok.inj hkept)
    obtain rfl := Option.some.inj hsame
    exact ⟨before, after, hsource.symm⟩
  · cases hkept

theorem mapIdx_same (marks : List Bool) : (marks.mapIdx fun _ covered => covered) = marks :=
  List.ext_getElem (by simp) (by simp)

theorem chunkNode_of_inRange (h : node.InRange char source) (state : List (List α) × List Bool) :
    chunkNode char source state node = .ok (state.1 ++ (chunkOf char source node).toList,
      state.2.mapIdx fun line covered => covered || covers char source [node] line) := by
  rw [chunkNode, keptSegment_of_inRange h]
  cases hchunk : chunkOf char source node with
  | none => simp [covers, hchunk, bind, Except.bind, pure, Except.pure, mapIdx_same]
  | some chunk => simp [covers, hchunk, bind, Except.bind, pure, Except.pure]

theorem covers_cons (line : ℕ) : covers char source (node :: nodes) line =
    (covers char source [node] line || covers char source nodes line) := by
  simp [covers]

/-- The loop collects the chunks and marks the lines they cover. -/
theorem foldlM_chunkNode (h : ∀ node ∈ nodes, node.InRange char source)
    (state : List (List α) × List Bool) :
    nodes.foldlM (chunkNode char source) state =
      .ok (state.1 ++ nodes.filterMap (chunkOf char source),
        state.2.mapIdx fun line covered => covered || covers char source nodes line) := by
  induction nodes generalizing state with
  | nil => simp [covers, pure, Except.pure, mapIdx_same]
  | cons node nodes ih =>
    rw [List.foldlM_cons, chunkNode_of_inRange (h node (by simp))]
    show nodes.foldlM _ _ = _
    rw [ih fun other hother => h other (by simp [hother])]
    have hmarks : ∀ line covered, (covered || covers char source (node :: nodes) line) =
        (covered || covers char source [node] line || covers char source nodes line) := by
      intro line covered
      rw [covers_cons, Bool.or_assoc]
    cases hchunk : chunkOf char source node <;>
      simp [hchunk, List.mapIdx_mapIdx, Function.comp_def, hmarks]

/-- What `_chunk_python_file` returns: the chunks of the definitions, then what is left. -/
theorem chunkPythonFile_eq (h : ∀ node ∈ nodes, node.InRange char source) :
    chunkPythonFile char (some nodes) source = .ok (nodes.filterMap (chunkOf char source) ++
      if (leftover char source nodes).isEmpty then [] else [leftover char source nodes]) := by
  have huncovered : ((PlacedText.lines char isLineBoundary source).zip
      ((List.replicate (PlacedText.lines char isLineBoundary source).length false).mapIdx
        fun line covered => covered || covers char source nodes line)).filterMap
          (fun (line, covered) => if covered then none else some line) =
        uncoveredLines char source nodes := by
    have hzip : (PlacedText.lines char isLineBoundary source).zip
        ((List.replicate (PlacedText.lines char isLineBoundary source).length false).mapIdx
          fun line covered => covered || covers char source nodes line) =
        (PlacedText.lines char isLineBoundary source).zipIdx.map
          fun (line, index) => (line, covers char source nodes index) :=
      List.ext_getElem (by simp) (by simp)
    rw [hzip, List.filterMap_map]
    rfl
  rw [chunkPythonFile]
  simp only [foldlM_chunkNode h, bind, Except.bind, huncovered, List.nil_append]
  rw [leftover]
  split <;> simp_all [pure, Except.pure]

end

end ReviewAgent
