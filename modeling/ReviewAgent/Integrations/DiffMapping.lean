import Mathlib.Data.Finset.Insert
import ReviewAgent.Integrations.GitHubModels
import ReviewAgent.Text

/-! From a finding's file and line to a place GitHub accepts a comment at. -/
namespace ReviewAgent

structure CommentAnchor where
  path : String
  line : ℕ
  side : Side
  deriving DecidableEq

/-- `_FileDiffIndex`. -/
structure FileDiffIndex where
  rightLines : Finset ℕ := ∅
  leftLines : Finset ℕ := ∅

/-- `DiffIndex`: the changed files by path. -/
structure DiffIndex where
  files : String → Option FileDiffIndex := fun _ => none

/-- What follows a fixed text in front. -/
def stripPrefix (text : String) (cs : List Char) : Option (List Char) :=
  if text.toList.isPrefixOf cs then some (cs.drop text.toList.length) else none

/-- `(\d+)(?:,(\d+))?`: the digits of the number, and what follows the optional count. -/
def matchRange (cs : List Char) : Option (List ℕ × List Char) :=
  match spanDigits cs with
  | ([], _) => none
  | (digits, ',' :: rest) =>
    match spanDigits rest with
    | ([], _) => some (digits, ',' :: rest)
    | (_, rest) => some (digits, rest)
  | (digits, rest) => some (digits, rest)

/-- `_HUNK_HEADER_RE.match`: the digits of its first and third group. -/
def matchHunkHeader (line : List Char) : Option (List ℕ × List ℕ) := do
  let rest ← stripPrefix "@@ -" line
  let (old, rest) ← matchRange rest
  let rest ← stripPrefix " +" rest
  let (new, rest) ← matchRange rest
  let _ ← stripPrefix " @@" rest
  pure (old, new)

/-- The local variables of `_parse_patch`. -/
structure PatchWalk where
  index : FileDiffIndex := {}
  oldLine : ℕ := 0
  newLine : ℕ := 0
  inHunk : Bool := false

/-- One line of a patch. -/
def PatchWalk.step (w : PatchWalk) (rawLine : List Char) : Except Exc PatchWalk :=
  match matchHunkHeader rawLine with
  | some (old, new) => do
    let oldLine ← intOfDigits old
    let newLine ← intOfDigits new
    pure { w with oldLine, newLine, inHunk := true }
  | none =>
    if w.inHunk then
      match rawLine with
      | '+' :: _ => pure
        { w with
          index.rightLines := insert w.newLine w.index.rightLines
          newLine := w.newLine + 1 }
      | '-' :: _ => pure
        { w with
          index.leftLines := insert w.oldLine w.index.leftLines
          oldLine := w.oldLine + 1 }
      | ' ' :: _ => pure
        { w with
          index.rightLines := insert w.newLine w.index.rightLines
          index.leftLines := insert w.oldLine w.index.leftLines
          oldLine := w.oldLine + 1
          newLine := w.newLine + 1 }
      -- a blank line, or a marker such as "\ No newline at end of file"
      | _ => pure w
    else pure w

/-- `_parse_patch`. -/
def parsePatch (patch : String) : Except Exc FileDiffIndex := do
  let walk ← (splitLines patch.toList).foldlM PatchWalk.step {}
  pure walk.index

/-- `files[path] = index`. -/
def DiffIndex.set (d : DiffIndex) (path : String) (index : FileDiffIndex) : DiffIndex where
  files := Function.update d.files path (some index)

def buildDiffIndex (changedFiles : List ChangedFile) : Except Exc DiffIndex :=
  changedFiles.foldlM (fun d changedFile =>
    match changedFile.patch with
    | none => pure (d.set changedFile.filename {})
    | some patch => do
      let index ← parsePatch patch
      pure (d.set changedFile.filename index)) {}

theorem foldlM_error {α β : Type} {f : β → α → Except Exc β} {P : Exc → Prop}
    (hf : ∀ b a e, f b a = .error e → P e) {l : List α} {b : β} {e : Exc}
    (h : l.foldlM f b = .error e) : P e := by
  induction l generalizing b with
  | nil => cases h
  | cons a l ih =>
    rw [List.foldlM_cons] at h
    cases hfa : f b a with
    | error e' =>
      rw [hfa] at h
      exact Except.error.inj h ▸ hf b a e' hfa
    | ok b' =>
      rw [hfa] at h
      exact ih h

theorem intOfDigits_error {digits : List ℕ} {e : Exc} (h : intOfDigits digits = .error e) :
    e.cls = .valueError := by
  unfold intOfDigits at h
  split at h <;> cases h
  rfl

theorem PatchWalk.step_error {w : PatchWalk} {rawLine : List Char} {e : Exc}
    (h : w.step rawLine = .error e) : e.cls = .valueError := by
  unfold PatchWalk.step at h
  split at h
  · rename_i old new hheader
    cases hold : intOfDigits old with
    | error e' =>
      rw [hold] at h
      exact Except.error.inj h ▸ intOfDigits_error hold
    | ok oldLine =>
      rw [hold] at h
      cases hnew : intOfDigits new with
      | error e' =>
        rw [hnew] at h
        exact Except.error.inj h ▸ intOfDigits_error hnew
      | ok newLine =>
        rw [hnew] at h
        cases h
  · split at h
    · split at h <;> cases h
    · cases h

/-- An index fails only on a hunk header with a number that `int` refuses. -/
theorem buildDiffIndex_error {changedFiles : List ChangedFile} {e : Exc}
    (h : buildDiffIndex changedFiles = .error e) : e.cls = .valueError := by
  refine foldlM_error (P := fun e => e.cls = .valueError) ?_ h
  intro d changedFile e hstep
  split at hstep
  · cases hstep
  · rename_i patch hpatch
    cases hwalk : (splitLines patch.toList).foldlM PatchWalk.step {} with
    | error e' =>
      have hparse : parsePatch patch = .error e' := by
        unfold parsePatch
        rw [hwalk]
        rfl
      rw [hparse] at hstep
      exact Except.error.inj hstep ▸ foldlM_error (P := fun e => e.cls = .valueError)
        (fun _ _ _ => PatchWalk.step_error) hwalk
    | ok walk =>
      have hparse : parsePatch patch = .ok walk.index := by
        unfold parsePatch
        rw [hwalk]
        rfl
      rw [hparse] at hstep
      cases hstep

def mapFindingToAnchor (filePath : String) (lineStart : ℕ) (diffIndex : DiffIndex) :
    Option CommentAnchor :=
  match diffIndex.files filePath with
  | none => none
  | some fileIndex =>
    if lineStart ∈ fileIndex.rightLines then some ⟨filePath, lineStart, .right⟩
    else if lineStart ∈ fileIndex.leftLines then some ⟨filePath, lineStart, .left⟩
    else none

theorem mapFindingToAnchor_eq {filePath : String} {lineStart : ℕ} {diffIndex : DiffIndex}
    {anchor : CommentAnchor} (h : mapFindingToAnchor filePath lineStart diffIndex = some anchor) :
    anchor.path = filePath ∧ anchor.line = lineStart := by
  unfold mapFindingToAnchor at h
  split at h
  · cases h
  · split at h
    · cases h
      exact ⟨rfl, rfl⟩
    · split at h <;> cases h
      exact ⟨rfl, rfl⟩

end ReviewAgent
