import ReviewAgent.Integrations.DiffMapping

/-! The line numbers of a patch: what the walk over it finds in the text that GitHub makes of some
hunks. -/
namespace ReviewAgent

inductive LineKind where
  | added | removed | context | noNewline
  deriving DecidableEq

/-- The character in front of a line of a hunk. -/
def LineKind.marker : LineKind → Char
  | added => '+'
  | removed => '-'
  | context => ' '
  | noNewline => '\\'

/-- The new file has the line. -/
def LineKind.inNew : LineKind → Bool
  | added | context => true
  | removed | noNewline => false

/-- The old file has the line. -/
def LineKind.inOld : LineKind → Bool
  | removed | context => true
  | added | noNewline => false

/-- A line of a hunk. -/
structure DiffLine where
  kind : LineKind
  content : String
  oneLine : '\n' ∉ content.toList

/-- A hunk, with what stands behind the `@@` of its header. -/
structure Hunk where
  oldStart : ℕ
  newStart : ℕ
  showsOldCount : Bool
  showsNewCount : Bool
  trailing : String
  lines : List DiffLine
  trailing_oneLine : '\n' ∉ trailing.toList

namespace Hunk

theorem noTrailing_oneLine : '\n' ∉ "".toList := by decide

variable (h : Hunk)

def oldCount : ℕ := h.lines.countP (·.kind.inOld)

def newCount : ℕ := h.lines.countP (·.kind.inNew)

/-- The numbers in the new file of the lines it has. -/
def newNumbers : Set ℕ :=
  {n | ∃ before line after, h.lines = before ++ line :: after ∧ line.kind.inNew = true ∧
    n = h.newStart + before.countP (·.kind.inNew)}

/-- The numbers in the old file of the lines it has. -/
def oldNumbers : Set ℕ :=
  {n | ∃ before line after, h.lines = before ++ line :: after ∧ line.kind.inOld = true ∧
    n = h.oldStart + before.countP (·.kind.inOld)}

end Hunk

/-- A range of a hunk header. -/
def renderRange (start count : ℕ) (showsCount : Bool) : String :=
  if showsCount then toString start ++ "," ++ toString count else toString start

def Hunk.header (h : Hunk) : String :=
  "@@ -" ++ renderRange h.oldStart h.oldCount h.showsOldCount ++ " +" ++
    renderRange h.newStart h.newCount h.showsNewCount ++ " @@" ++ h.trailing

def DiffLine.render (line : DiffLine) : String :=
  String.singleton line.kind.marker ++ line.content

/-- The patch of some hunks, as GitHub shows it. -/
def renderPatch (hunks : List Hunk) : String :=
  "\n".intercalate (hunks.flatMap fun h => h.header :: h.lines.map DiffLine.render)

/-- `_parse_patch` has exactly the line numbers of the hunks. -/
def Numbered (hunks : List Hunk) : Prop :=
  ∃ index, parsePatch (renderPatch hunks) = .ok index ∧
    (∀ n, n ∈ index.rightLines ↔ ∃ h ∈ hunks, n ∈ h.newNumbers) ∧
    ∀ n, n ∈ index.leftLines ↔ ∃ h ∈ hunks, n ∈ h.oldNumbers

/-- The elements of a list that count, numbered from `start`. -/
theorem exists_numbered_iff {α : Type} (counts : α → Bool) (as : List α) (start n : ℕ) :
    (∃ before a after, as = before ++ a :: after ∧ counts a = true ∧
      n = start + before.countP counts) ↔ start ≤ n ∧ n < start + as.countP counts := by
  constructor
  · rintro ⟨before, a, after, rfl, ha, rfl⟩
    rw [List.countP_append, List.countP_cons_of_pos ha]
    omega
  · rintro ⟨hlo, hhi⟩
    induction as generalizing start with
    | nil =>
      rw [List.countP_nil] at hhi
      omega
    | cons a as ih =>
      by_cases ha : counts a = true
      · rw [List.countP_cons_of_pos ha] at hhi
        by_cases hn : n = start
        · exact ⟨[], a, as, rfl, ha, by simp [hn]⟩
        · obtain ⟨before, b, after, rfl, hb, hnum⟩ := ih (start + 1) (by omega) (by omega)
          refine ⟨a :: before, b, after, rfl, hb, ?_⟩
          rw [List.countP_cons_of_pos ha]
          omega
      · rw [List.countP_cons_of_neg ha] at hhi
        obtain ⟨before, b, after, rfl, hb, hnum⟩ := ih start hlo hhi
        refine ⟨a :: before, b, after, rfl, hb, ?_⟩
        rwa [List.countP_cons_of_neg ha]

/-- A piece of text that the walk takes for a line of the new file, if it is no header. -/
def countsAsNew : List Char → Bool
  | '+' :: _ | ' ' :: _ => true
  | _ => false

/-- A piece of text that the walk takes for a line of the old file, if it is no header. -/
def countsAsOld : List Char → Bool
  | '-' :: _ | ' ' :: _ => true
  | _ => false

/-- Consecutive numbers on both sides of a patch. -/
structure Stretch where
  oldStart : ℕ
  newStart : ℕ
  oldCount : ℕ
  newCount : ℕ

namespace Stretch

variable (s : Stretch)

def newNumbers : Set ℕ := {n | s.newStart ≤ n ∧ n < s.newStart + s.newCount}

def oldNumbers : Set ℕ := {n | s.oldStart ≤ n ∧ n < s.oldStart + s.oldCount}

/-- Some more pieces of text, none of them a header. -/
def extend (pieces : List (List Char)) : Stretch :=
  { s with
    oldCount := s.oldCount + pieces.countP countsAsOld
    newCount := s.newCount + pieces.countP countsAsNew }

theorem extend_nil : s.extend [] = s := rfl

theorem extend_append (pieces pieces' : List (List Char)) :
    (s.extend pieces).extend pieces' = s.extend (pieces ++ pieces') := by
  simp only [extend, List.countP_append, Nat.add_assoc]

variable {s}

theorem mem_extend_new {n : ℕ} {pieces : List (List Char)} (hn : n ∈ s.newNumbers) :
    n ∈ (s.extend pieces).newNumbers :=
  ⟨hn.1, hn.2.trans_le (Nat.add_le_add_left (Nat.le_add_right _ _) _)⟩

theorem mem_extend_old {n : ℕ} {pieces : List (List Char)} (hn : n ∈ s.oldNumbers) :
    n ∈ (s.extend pieces).oldNumbers :=
  ⟨hn.1, hn.2.trans_le (Nat.add_le_add_left (Nat.le_add_right _ _) _)⟩

end Stretch

/-- A header whose numbers `int` reads, or no header. -/
def Legible (piece : List Char) : Prop :=
  ∀ old new, matchHunkHeader piece = some (old, new) →
    old.length ≤ intMaxStrDigits ∧ new.length ≤ intMaxStrDigits

/-- One side of a walk takes a piece in, or not. -/
theorem mem_insert_if {lines : Finset ℕ} {start count : ℕ} (counts : Bool)
    (hcovers : ∀ n, start ≤ n → n < start + count → n ∈ lines) (n : ℕ) :
    n ∈ (if counts then insert (start + count) lines else lines) ↔
      n ∈ lines ∨ start ≤ n ∧ n < start + (count + counts.toNat) := by
  cases counts with
  | false =>
    have hin := hcovers n
    rw [if_neg (by decide), Bool.toNat_false]
    tauto
  | true =>
    have hin := hcovers n
    rw [if_pos rfl, Finset.mem_insert, Bool.toNat_true]
    constructor
    · rintro (rfl | hn)
      · exact Or.inr (by omega)
      · exact Or.inl hn
    · rintro (hn | ⟨hlo, hhi⟩)
      · exact Or.inr hn
      · by_cases hlast : n = start + count
        · exact Or.inl hlast
        · exact Or.inr (hin hlo (by omega))

/-- The counters of the walk stand behind a stretch that the index covers. -/
structure PatchWalk.At (w : PatchWalk) (s : Stretch) : Prop where
  inHunk : w.inHunk = true
  oldLine : w.oldLine = s.oldStart + s.oldCount
  newLine : w.newLine = s.newStart + s.newCount
  right : ∀ n ∈ s.newNumbers, n ∈ w.index.rightLines
  left : ∀ n ∈ s.oldNumbers, n ∈ w.index.leftLines

/-- The index has the numbers of some stretches besides those it had. -/
structure PatchWalk.Gains (w w' : PatchWalk) (gained : List Stretch) : Prop where
  right : ∀ n, n ∈ w'.index.rightLines ↔
    n ∈ w.index.rightLines ∨ ∃ s ∈ gained, n ∈ s.newNumbers
  left : ∀ n, n ∈ w'.index.leftLines ↔
    n ∈ w.index.leftLines ∨ ∃ s ∈ gained, n ∈ s.oldNumbers

namespace PatchWalk

variable {w : PatchWalk} {s : Stretch}

theorem step_plain {piece : List Char} (hin : w.inHunk = true)
    (hpiece : matchHunkHeader piece = none) : w.step piece = .ok
      { index :=
          { rightLines :=
              if countsAsNew piece then insert w.newLine w.index.rightLines else w.index.rightLines
            leftLines :=
              if countsAsOld piece then insert w.oldLine w.index.leftLines else w.index.leftLines }
        oldLine := w.oldLine + (countsAsOld piece).toNat
        newLine := w.newLine + (countsAsNew piece).toNat
        inHunk := true } := by
  obtain ⟨index, oldLine, newLine, inHunk⟩ := w
  cases hin
  simp only [step, hpiece, if_true]
  split
  · rfl
  · rfl
  · rfl
  · rename_i hplus hminus hspace
    have hnew : countsAsNew piece = false := by
      unfold countsAsNew
      split
      · exact absurd rfl (hplus _)
      · exact absurd rfl (hspace _)
      · rfl
    have hold : countsAsOld piece = false := by
      unfold countsAsOld
      split
      · exact absurd rfl (hminus _)
      · exact absurd rfl (hspace _)
      · rfl
    simp [hnew, hold]
    rfl

theorem step_piece (hat : w.At s) {piece : List Char} (hpiece : matchHunkHeader piece = none) :
    ∃ w', w.step piece = .ok w' ∧ w'.At (s.extend [piece]) ∧ w.Gains w' [s.extend [piece]] := by
  have hcount : ∀ counts : List Char → Bool, [piece].countP counts = (counts piece).toNat := by
    intro counts
    cases hcounts : counts piece <;> simp [hcounts]
  have hright := mem_insert_if (countsAsNew piece) fun n hlo hhi => hat.right n ⟨hlo, hhi⟩
  have hleft := mem_insert_if (countsAsOld piece) fun n hlo hhi => hat.left n ⟨hlo, hhi⟩
  rw [← hat.newLine, ← hcount] at hright
  rw [← hat.oldLine, ← hcount] at hleft
  refine ⟨_, step_plain hat.inHunk hpiece, ⟨rfl, ?_, ?_, ?_, ?_⟩, ⟨?_, ?_⟩⟩
  · simp only [Stretch.extend, hcount, hat.oldLine, Nat.add_assoc]
  · simp only [Stretch.extend, hcount, hat.newLine, Nat.add_assoc]
  · exact fun n hn => (hright n).mpr (Or.inr hn)
  · exact fun n hn => (hleft n).mpr (Or.inr hn)
  · intro n
    simpa [Stretch.newNumbers, Stretch.extend] using hright n
  · intro n
    simpa [Stretch.oldNumbers, Stretch.extend] using hleft n

theorem step_header {piece : List Char} {old new : List ℕ}
    (hpiece : matchHunkHeader piece = some (old, new)) (hlegible : Legible piece) :
    w.step piece = .ok
      { w with oldLine := numberOf old, newLine := numberOf new, inHunk := true } := by
  obtain ⟨hold, hnew⟩ := hlegible old new hpiece
  simp only [step, hpiece, intOfDigits, if_neg (not_lt.mpr hold), if_neg (not_lt.mpr hnew)]
  rfl

theorem legible_of_step {w' : PatchWalk} {piece : List Char} (h : w.step piece = .ok w') :
    Legible piece := by
  intro old new hpiece
  simp only [step, hpiece, intOfDigits] at h
  by_contra hlong
  by_cases hold : intMaxStrDigits < old.length
  · rw [if_pos hold] at h
    cases h
  · by_cases hnew : intMaxStrDigits < new.length
    · rw [if_neg hold, if_pos hnew] at h
      cases h
    · exact hlong ⟨not_lt.mp hold, not_lt.mp hnew⟩

theorem At.of_header (w : PatchWalk) (old new : ℕ) :
    At { w with oldLine := old, newLine := new, inHunk := true } ⟨old, new, 0, 0⟩ := by
  refine ⟨rfl, rfl, rfl, ?_, ?_⟩
  · rintro n ⟨hlo, hhi⟩
    exact absurd hhi (not_lt.mpr hlo)
  · rintro n ⟨hlo, hhi⟩
    exact absurd hhi (not_lt.mpr hlo)

/-- What the walk over some pieces of text adds to the index, none of them a header. -/
theorem walk_pieces {pieces : List (List Char)} (hat : w.At s)
    (hpieces : ∀ piece ∈ pieces, matchHunkHeader piece = none) :
    ∃ w', pieces.foldlM step w = .ok w' ∧ w.Gains w' [s.extend pieces] := by
  induction pieces generalizing w s with
  | nil =>
    refine ⟨w, rfl, ⟨fun n => ?_, fun n => ?_⟩⟩
    · simpa [Stretch.extend_nil] using hat.right n
    · simpa [Stretch.extend_nil] using hat.left n
  | cons piece pieces ih =>
    obtain ⟨w₁, hstep, hat₁, hgains₁⟩ := step_piece hat (hpieces piece (by simp))
    obtain ⟨w', hwalk, hgains⟩ := ih hat₁ fun p hp => hpieces p (by simp [hp])
    rw [List.foldlM_cons, hstep]
    refine ⟨w', hwalk, ⟨fun n => ?_, fun n => ?_⟩⟩
    · have hgrows := @Stretch.mem_extend_new (s.extend [piece]) n pieces
      have hright := hgains.right n
      rw [hgains₁.right] at hright
      simp only [Stretch.extend_append, List.singleton_append, List.mem_singleton,
        exists_eq_left] at hright hgrows ⊢
      tauto
    · have hgrows := @Stretch.mem_extend_old (s.extend [piece]) n pieces
      have hleft := hgains.left n
      rw [hgains₁.left] at hleft
      simp only [Stretch.extend_append, List.singleton_append, List.mem_singleton,
        exists_eq_left] at hleft hgrows ⊢
      tauto

theorem legible_of_walk {pieces : List (List Char)} {w' : PatchWalk}
    (h : pieces.foldlM step w = .ok w') : ∀ piece ∈ pieces, Legible piece := by
  induction pieces generalizing w with
  | nil => simp
  | cons piece pieces ih =>
    rw [List.foldlM_cons] at h
    cases hstep : w.step piece with
    | error e =>
      rw [hstep] at h
      cases h
    | ok w₁ =>
      rw [hstep] at h
      intro p hp
      rcases List.mem_cons.mp hp with rfl | hp
      · exact legible_of_step hstep
      · exact ih h p hp

end PatchWalk

namespace DiffLine

variable (line : DiffLine)

theorem render_toList : line.render.toList = line.kind.marker :: line.content.toList := by
  simp [render]

theorem marker_not_boundary (kind : LineKind) : isLineBoundary kind.marker = false := by
  cases kind <;> decide

theorem not_header (kind : LineKind) (text : List Char) :
    matchHunkHeader (kind.marker :: text) = none := by
  cases kind <;> rfl

theorem splitLines_render : splitLines line.render.toList =
    (line.kind.marker :: firstLine line.content.toList) :: strays line.content.toList := by
  rw [render_toList, splitLines_cons (marker_not_boundary line.kind)]

theorem countsAsNew_marker (kind : LineKind) (text : List Char) :
    countsAsNew (kind.marker :: text) = kind.inNew := by
  cases kind <;> rfl

theorem countsAsOld_marker (kind : LineKind) (text : List Char) :
    countsAsOld (kind.marker :: text) = kind.inOld := by
  cases kind <;> rfl

end DiffLine

theorem matchRange_render {start count : ℕ} {showsCount : Bool} {rest : List Char} {c : Char}
    (hc : rest.head? = some c) (hdigit : decimalDigit? c = none) (hcomma : c ≠ ',') :
    matchRange ((renderRange start count showsCount).toList ++ rest) =
      some (digitValues start, rest) := by
  have hrest : ∀ d ∈ rest.head?, decimalDigit? d = none := by
    intro d hd
    rw [hc] at hd
    exact Option.some.inj hd ▸ hdigit
  obtain ⟨digit, digits, hvalues⟩ := List.exists_cons_of_ne_nil (digitValues_ne_nil start)
  cases showsCount with
  | false =>
    have hspan := spanDigits_toDigits start hrest
    rw [hvalues] at hspan ⊢
    simp only [renderRange, Bool.false_eq_true, if_false, Nat.toString_eq_repr, Nat.toList_repr,
      matchRange, hspan]
    split
    · rename_i heq
      cases heq
    · rename_i heq
      cases heq
      exact absurd (Option.some.inj hc).symm hcomma
    · rename_i heq
      cases heq
      rfl
  | true =>
    obtain ⟨digit', digits', hvalues'⟩ := List.exists_cons_of_ne_nil (digitValues_ne_nil count)
    have hcount := spanDigits_toDigits count hrest
    have hspan := @spanDigits_toDigits start (',' :: (Nat.toDigits 10 count ++ rest)) (by
      rintro d hd
      cases hd
      decide)
    rw [hvalues'] at hcount
    rw [hvalues] at hspan ⊢
    simp [renderRange, matchRange, hspan, hcount]

theorem renderRange_not_boundary {start count : ℕ} {showsCount : Bool} {c : Char}
    (hc : c ∈ (renderRange start count showsCount).toList) : isLineBoundary c = false := by
  have hdigits : ∀ n : ℕ, c ∈ Nat.toDigits 10 n → isLineBoundary c = false := by
    intro n hn
    have hdigit := Nat.isDigit_of_mem_toDigits (by decide) (by decide) hn
    simp only [Char.isDigit, Bool.and_eq_true, decide_eq_true_eq] at hdigit
    have hlo : 48 ≤ c.toNat := hdigit.1
    have hhi : c.toNat ≤ 57 := hdigit.2
    simp [isLineBoundary, lineBoundaries]
    omega
  cases showsCount with
  | false => exact hdigits start (by simpa [renderRange] using hc)
  | true =>
    simp only [renderRange, if_true, Nat.toString_eq_repr, String.toList_append, Nat.toList_repr,
      List.mem_append] at hc
    rcases hc with (hc | hc) | hc
    · exact hdigits start hc
    · obtain rfl : c = ',' := by simpa using hc
      decide
    · exact hdigits count hc

theorem stripPrefix_append (text : String) (rest : List Char) :
    stripPrefix text (text.toList ++ rest) = some rest := by
  simp [stripPrefix]

namespace Hunk

variable (h : Hunk)

/-- The header up to the second `@@`. -/
def ranges : List Char :=
  "@@ -".toList ++ ((renderRange h.oldStart h.oldCount h.showsOldCount).toList ++
    (" +".toList ++ ((renderRange h.newStart h.newCount h.showsNewCount).toList ++ " @@".toList)))

theorem header_toList : h.header.toList = h.ranges ++ h.trailing.toList := by
  simp [header, ranges]

theorem matchHunkHeader_ranges (text : List Char) : matchHunkHeader (h.ranges ++ text) =
    some (digitValues h.oldStart, digitValues h.newStart) := by
  have hstrip : stripPrefix " @@" (" @@".toList ++ text) = some text := stripPrefix_append _ _
  simp only [ranges, List.append_assoc, matchHunkHeader, stripPrefix_append]
  rw [Option.bind_eq_bind, Option.bind_some,
    matchRange_render (c := ' ') rfl (by decide) (by decide)]
  simp only [Option.bind_some, stripPrefix_append, Option.bind_eq_bind]
  rw [matchRange_render (c := ' ') rfl (by decide) (by decide)]
  simp only [Option.bind_some, stripPrefix_append, Option.pure_def]

theorem ranges_not_boundary : ∀ c ∈ h.ranges, isLineBoundary c = false := by
  have hall : (["@@ -", " +", " @@"].all fun text =>
      text.toList.all fun c => !isLineBoundary c) = true := by
    decide
  have hfixed : ∀ text ∈ ["@@ -", " +", " @@"], ∀ c ∈ text.toList, isLineBoundary c = false := by
    intro text htext c hc
    simpa using List.all_eq_true.mp (List.all_eq_true.mp hall text htext) c hc
  intro c hc
  simp only [ranges, List.mem_append] at hc
  rcases hc with hc | hc | hc | hc | hc
  · exact hfixed "@@ -" (by simp) c hc
  · exact renderRange_not_boundary hc
  · exact hfixed " +" (by simp) c hc
  · exact renderRange_not_boundary hc
  · exact hfixed " @@" (by simp) c hc

theorem splitLines_header : splitLines h.header.toList =
    (h.ranges ++ firstLine h.trailing.toList) :: strays h.trailing.toList := by
  rw [header_toList, splitLines_append _ h.ranges_not_boundary]
  simp [ranges]

/-- What `str.splitlines` cuts off the trailing text and the contents of the lines. -/
def strayPieces : List (List Char) :=
  strays h.trailing.toList ++ h.lines.flatMap fun line => strays line.content.toList

/-- What follows the ranges of the header, line by line. -/
def body : List (List Char) :=
  strays h.trailing.toList ++ h.lines.flatMap fun line => splitLines line.render.toList

/-- No stray reads as a header. -/
def Headless : Prop := ∀ piece ∈ h.strayPieces, matchHunkHeader piece = none

/-- `int` reads the numbers of the hunk, and of strays that read as headers. -/
def Legible : Prop :=
  (digitValues h.oldStart).length ≤ intMaxStrDigits ∧
    (digitValues h.newStart).length ≤ intMaxStrDigits ∧
    ∀ piece ∈ h.strayPieces, ReviewAgent.Legible piece

/-- The numbers that the strays add behind the hunk are numbers of some hunk. -/
def AddsNothing (hunks : List Hunk) : Prop :=
  (∀ i < h.strayPieces.countP countsAsNew,
    ∃ g ∈ hunks, h.newStart + h.newCount + i ∈ g.newNumbers) ∧
  ∀ i < h.strayPieces.countP countsAsOld,
    ∃ g ∈ hunks, h.oldStart + h.oldCount + i ∈ g.oldNumbers

/-- The numbers of the hunk, and behind them those that its strays add. -/
def stretch : Stretch where
  oldStart := h.oldStart
  newStart := h.newStart
  oldCount := h.oldCount + h.strayPieces.countP countsAsOld
  newCount := h.newCount + h.strayPieces.countP countsAsNew

theorem newNumbers_iff (n : ℕ) :
    n ∈ h.newNumbers ↔ h.newStart ≤ n ∧ n < h.newStart + h.newCount :=
  exists_numbered_iff (fun line : DiffLine => line.kind.inNew) h.lines h.newStart n

theorem oldNumbers_iff (n : ℕ) :
    n ∈ h.oldNumbers ↔ h.oldStart ≤ n ∧ n < h.oldStart + h.oldCount :=
  exists_numbered_iff (fun line : DiffLine => line.kind.inOld) h.lines h.oldStart n

/-- A piece of the body is a stray, or starts with the marker of a line. -/
theorem body_cases {piece : List Char} (hpiece : piece ∈ h.body) :
    piece ∈ h.strayPieces ∨ ∃ kind : LineKind, ∃ text, piece = kind.marker :: text := by
  simp only [body, strayPieces, List.mem_append, List.mem_flatMap,
    DiffLine.splitLines_render, List.mem_cons] at hpiece ⊢
  rcases hpiece with hstray | ⟨line, hline, rfl | hstray⟩
  · exact Or.inl (Or.inl hstray)
  · exact Or.inr ⟨line.kind, _, rfl⟩
  · exact Or.inl (Or.inr ⟨line, hline, hstray⟩)

theorem Headless.body {h : Hunk} (hheadless : h.Headless) :
    ∀ piece ∈ h.body, matchHunkHeader piece = none := by
  intro piece hpiece
  rcases h.body_cases hpiece with hstray | ⟨kind, text, rfl⟩
  · exact hheadless piece hstray
  · exact DiffLine.not_header kind text

theorem strayPieces_subset : h.strayPieces ⊆ h.body := by
  intro piece hpiece
  simp only [strayPieces, body, List.mem_append, List.mem_flatMap,
    DiffLine.splitLines_render, List.mem_cons] at hpiece ⊢
  rcases hpiece with hstray | ⟨line, hline, hstray⟩
  · exact Or.inl hstray
  · exact Or.inr ⟨line, hline, Or.inr hstray⟩

/-- The lines of the patch that a hunk makes, as `str.splitlines` cuts them. -/
def pieces : List (List Char) :=
  (h.header :: h.lines.map DiffLine.render).flatMap fun line => splitLines line.toList

theorem pieces_eq : h.pieces = (h.ranges ++ firstLine h.trailing.toList) :: h.body := by
  simp [pieces, splitLines_header, body, List.flatMap_map]

/-- The lines of a hunk count by their markers, its strays by their first characters. -/
theorem countP_body {counts : List Char → Bool} {has : LineKind → Bool}
    (hmarker : ∀ (kind : LineKind) text, counts (kind.marker :: text) = has kind) :
    h.body.countP counts = h.lines.countP (has ·.kind) + h.strayPieces.countP counts := by
  have hlines : ∀ lines : List DiffLine,
      (lines.flatMap fun line => splitLines line.render.toList).countP counts =
        lines.countP (has ·.kind) +
          (lines.flatMap fun line => strays line.content.toList).countP counts := by
    intro lines
    induction lines with
    | nil => rfl
    | cons line lines ih =>
      rw [List.flatMap_cons, List.countP_append, ih, List.flatMap_cons, List.countP_append,
        DiffLine.splitLines_render, List.countP_cons, List.countP_cons, hmarker]
      omega
  rw [body, strayPieces, List.countP_append, List.countP_append, hlines]
  omega

theorem extend_body : (⟨h.oldStart, h.newStart, 0, 0⟩ : Stretch).extend h.body = h.stretch := by
  simp only [Stretch.extend, stretch, h.countP_body DiffLine.countsAsOld_marker,
    h.countP_body DiffLine.countsAsNew_marker, Nat.zero_add]
  rfl

/-- What the walk over a hunk adds to the index, if no stray reads as a header. -/
theorem walk (w : PatchWalk) (hlegible : h.Legible) (hheadless : h.Headless) :
    ∃ w', h.pieces.foldlM PatchWalk.step w = .ok w' ∧ w.Gains w' [h.stretch] := by
  have hheader := h.matchHunkHeader_ranges (firstLine h.trailing.toList)
  have hstep := PatchWalk.step_header (w := w) hheader (by
    intro old new hnumbers
    rw [hheader] at hnumbers
    cases hnumbers
    exact ⟨hlegible.1, hlegible.2.1⟩)
  rw [numberOf_digitValues, numberOf_digitValues] at hstep
  rw [pieces_eq, List.foldlM_cons, hstep, ← extend_body]
  obtain ⟨w', hwalk, hgains⟩ := PatchWalk.walk_pieces
    (PatchWalk.At.of_header w h.oldStart h.newStart) hheadless.body
  exact ⟨w', hwalk, hgains.right, hgains.left⟩

theorem legible_of_walk {w w' : PatchWalk} (hwalk : h.pieces.foldlM PatchWalk.step w = .ok w') :
    h.Legible := by
  have hall := PatchWalk.legible_of_walk hwalk
  rw [pieces_eq] at hall
  obtain ⟨hold, hnew⟩ := hall _ List.mem_cons_self _ _ (h.matchHunkHeader_ranges _)
  exact ⟨hold, hnew, fun piece hp => hall piece (by simp [h.strayPieces_subset hp])⟩

theorem mem_stretch_new {n : ℕ} : n ∈ h.stretch.newNumbers ↔ n ∈ h.newNumbers ∨
    ∃ i < h.strayPieces.countP countsAsNew, n = h.newStart + h.newCount + i := by
  rw [newNumbers_iff]
  simp only [Stretch.newNumbers, stretch, Set.mem_ofPred_eq]
  constructor
  · rintro ⟨hlo, hhi⟩
    by_cases hown : n < h.newStart + h.newCount
    · exact Or.inl ⟨hlo, hown⟩
    · exact Or.inr ⟨n - (h.newStart + h.newCount), by omega, by omega⟩
  · rintro (⟨hlo, hhi⟩ | ⟨i, hi, rfl⟩)
    · omega
    · omega

theorem mem_stretch_old {n : ℕ} : n ∈ h.stretch.oldNumbers ↔ n ∈ h.oldNumbers ∨
    ∃ i < h.strayPieces.countP countsAsOld, n = h.oldStart + h.oldCount + i := by
  rw [oldNumbers_iff]
  simp only [Stretch.oldNumbers, stretch, Set.mem_ofPred_eq]
  constructor
  · rintro ⟨hlo, hhi⟩
    by_cases hown : n < h.oldStart + h.oldCount
    · exact Or.inl ⟨hlo, hown⟩
    · exact Or.inr ⟨n - (h.oldStart + h.oldCount), by omega, by omega⟩
  · rintro (⟨hlo, hhi⟩ | ⟨i, hi, rfl⟩)
    · omega
    · omega

end Hunk

theorem PatchWalk.foldlM_blank (w : PatchWalk) {blank : List (List Char)}
    (hblank : ∀ line ∈ blank, line = []) : blank.foldlM PatchWalk.step w = .ok w := by
  have hstep : w.step [] = .ok w := by
    have hnone : matchHunkHeader [] = none := rfl
    simp [PatchWalk.step, hnone]
    rfl
  induction blank with
  | nil => rfl
  | cons line blank ih =>
    rw [List.foldlM_cons, hblank line (by simp), hstep]
    exact ih fun l hl => hblank l (by simp [hl])

/-- The walk over joined lines is the walk over the lines. -/
theorem PatchWalk.foldlM_intercalate (w : PatchWalk) {lines : List (List Char)}
    (hlines : ∀ line ∈ lines, '\n' ∉ line) :
    (splitLines (['\n'].intercalate lines)).foldlM PatchWalk.step w =
      (lines.flatMap splitLines).foldlM PatchWalk.step w := by
  induction lines generalizing w with
  | nil => rfl
  | cons line lines ih =>
    have ih := fun w => ih w fun l hl => hlines l (by simp [hl])
    cases lines with
    | nil => simp
    | cons next lines =>
      obtain ⟨blank, hblank, hsplit⟩ := splitLines_lineFeed (hlines line (by simp))
        (['\n'].intercalate (next :: lines))
      rw [List.intercalate_cons_cons, List.append_assoc, List.singleton_append, hsplit,
        List.flatMap_cons, List.foldlM_append, List.foldlM_append, List.foldlM_append]
      cases (splitLines line).foldlM PatchWalk.step w with
      | error e => rfl
      | ok w' =>
        change (do
          let w'' ← blank.foldlM PatchWalk.step w'
          (splitLines (['\n'].intercalate (next :: lines))).foldlM PatchWalk.step w'') = _
        rw [PatchWalk.foldlM_blank w' hblank]
        exact ih w'

theorem DiffLine.render_oneLine (line : DiffLine) : '\n' ∉ line.render.toList := by
  rw [DiffLine.render_toList, List.mem_cons, not_or]
  refine ⟨?_, line.oneLine⟩
  cases line.kind <;> decide

theorem Hunk.header_oneLine (h : Hunk) : '\n' ∉ h.header.toList := by
  rw [Hunk.header_toList, List.mem_append, not_or]
  refine ⟨fun hin => ?_, h.trailing_oneLine⟩
  have := h.ranges_not_boundary '\n' hin
  exact absurd this (by decide)

theorem renderPatch_walk (hunks : List Hunk) :
    (splitLines (renderPatch hunks).toList).foldlM PatchWalk.step {} =
      (hunks.flatMap Hunk.pieces).foldlM PatchWalk.step {} := by
  have htext : (renderPatch hunks).toList = ['\n'].intercalate
      ((hunks.flatMap fun h => h.header :: h.lines.map DiffLine.render).map String.toList) := by
    simp [renderPatch, String.toList_intercalate]
  rw [htext, PatchWalk.foldlM_intercalate]
  · rw [List.flatMap_map, List.flatMap_assoc]
    rfl
  · intro line hline
    simp only [List.mem_map, List.mem_flatMap, List.mem_cons] at hline
    obtain ⟨_, ⟨h, _, rfl | ⟨l, _, rfl⟩⟩, rfl⟩ := hline
    · exact h.header_oneLine
    · exact l.render_oneLine

theorem walk_hunks (w : PatchWalk) {hunks : List Hunk} (hlegible : ∀ h ∈ hunks, h.Legible)
    (hheadless : ∀ h ∈ hunks, h.Headless) :
    ∃ w', (hunks.flatMap Hunk.pieces).foldlM PatchWalk.step w = .ok w' ∧
      w.Gains w' (hunks.map Hunk.stretch) := by
  induction hunks generalizing w with
  | nil => exact ⟨w, rfl, ⟨by simp, by simp⟩⟩
  | cons h hunks ih =>
    obtain ⟨w₁, hwalk₁, hgains₁⟩ := h.walk w (hlegible h (by simp)) (hheadless h (by simp))
    obtain ⟨w', hwalk, hgains⟩ := ih w₁ (fun g hg => hlegible g (by simp [hg]))
      fun g hg => hheadless g (by simp [hg])
    refine ⟨w', ?_, ⟨fun n => ?_, fun n => ?_⟩⟩
    · rw [List.flatMap_cons, List.foldlM_append, hwalk₁]
      exact hwalk
    · rw [hgains.right, hgains₁.right]
      simp only [List.map_cons, List.exists_mem_cons_iff, List.not_mem_nil, false_and, exists_false,
        or_false, or_assoc]
    · rw [hgains.left, hgains₁.left]
      simp only [List.map_cons, List.exists_mem_cons_iff, List.not_mem_nil, false_and, exists_false,
        or_false, or_assoc]

/-- The index of a patch has the numbers of its hunks, and those that strays add behind them. -/
theorem walk_patch {hunks : List Hunk} (hlegible : ∀ h ∈ hunks, h.Legible)
    (hheadless : ∀ h ∈ hunks, h.Headless) :
    ∃ w, (hunks.flatMap Hunk.pieces).foldlM PatchWalk.step {} = .ok w ∧
      (∀ n, n ∈ w.index.rightLines ↔ ∃ h ∈ hunks, n ∈ h.stretch.newNumbers) ∧
      ∀ n, n ∈ w.index.leftLines ↔ ∃ h ∈ hunks, n ∈ h.stretch.oldNumbers := by
  obtain ⟨w, hwalk, hgains⟩ := walk_hunks {} hlegible hheadless
  refine ⟨w, hwalk, fun n => ?_, fun n => ?_⟩
  · rw [hgains.right]
    simp
  · rw [hgains.left]
    simp

theorem legible_hunks {w w' : PatchWalk} {hunks : List Hunk}
    (hwalk : (hunks.flatMap Hunk.pieces).foldlM PatchWalk.step w = .ok w') :
    ∀ h ∈ hunks, h.Legible := by
  induction hunks generalizing w with
  | nil => simp
  | cons h hunks ih =>
    rw [List.flatMap_cons, List.foldlM_append] at hwalk
    cases hfirst : h.pieces.foldlM PatchWalk.step w with
    | error e =>
      rw [hfirst] at hwalk
      cases hwalk
    | ok w₁ =>
      rw [hfirst] at hwalk
      intro g hg
      rcases List.mem_cons.mp hg with rfl | hg
      · exact g.legible_of_walk hfirst
      · exact ih hwalk g hg

theorem parsePatch_render (hunks : List Hunk) : parsePatch (renderPatch hunks) =
    ((hunks.flatMap Hunk.pieces).foldlM PatchWalk.step {}).map PatchWalk.index := by
  rw [parsePatch, renderPatch_walk]
  cases (hunks.flatMap Hunk.pieces).foldlM PatchWalk.step {} <;> rfl

/-- The strays of a patch leave its numbers as they are: `int` reads the headers, no stray reads as
one, and what strays add behind a hunk are numbers of other hunks. -/
structure Harmless (hunks : List Hunk) : Prop where
  legible : ∀ h ∈ hunks, h.Legible
  headless : ∀ h ∈ hunks, h.Headless
  added : ∀ h ∈ hunks, h.AddsNothing hunks

theorem Harmless.numbered {hunks : List Hunk} (h : Harmless hunks) : Numbered hunks := by
  obtain ⟨w, hwalk, hright, hleft⟩ := walk_patch h.legible h.headless
  refine ⟨w.index, ?_, fun n => ?_, fun n => ?_⟩
  · rw [parsePatch_render, hwalk]
    rfl
  · rw [hright]
    constructor
    · rintro ⟨hunk, hmem, hn⟩
      rcases hunk.mem_stretch_new.mp hn with hown | ⟨i, hi, rfl⟩
      · exact ⟨hunk, hmem, hown⟩
      · exact (h.added hunk hmem).1 i hi
    · rintro ⟨hunk, hmem, hn⟩
      exact ⟨hunk, hmem, hunk.mem_stretch_new.mpr (Or.inl hn)⟩
  · rw [hleft]
    constructor
    · rintro ⟨hunk, hmem, hn⟩
      rcases hunk.mem_stretch_old.mp hn with hown | ⟨i, hi, rfl⟩
      · exact ⟨hunk, hmem, hown⟩
      · exact (h.added hunk hmem).2 i hi
    · rintro ⟨hunk, hmem, hn⟩
      exact ⟨hunk, hmem, hunk.mem_stretch_old.mpr (Or.inl hn)⟩

/-- A walk that finds the numbers of the hunks has read their headers. -/
theorem Numbered.legible {hunks : List Hunk} (h : Numbered hunks) : ∀ h ∈ hunks, h.Legible := by
  obtain ⟨index, hindex, -⟩ := h
  rw [parsePatch_render] at hindex
  cases hwalk : (hunks.flatMap Hunk.pieces).foldlM PatchWalk.step {} with
  | error e =>
    rw [hwalk] at hindex
    cases hindex
  | ok w => exact legible_hunks hwalk

/-- What strays add behind a hunk is found too: it has to be a number of some hunk. -/
theorem Numbered.harmless {hunks : List Hunk} (h : Numbered hunks)
    (hheadless : ∀ h ∈ hunks, h.Headless) : Harmless hunks := by
  refine ⟨h.legible, hheadless, ?_⟩
  obtain ⟨w, hwalk, hright, hleft⟩ := walk_patch h.legible hheadless
  obtain ⟨index, hindex, hnew, hold⟩ := h
  rw [parsePatch_render, hwalk] at hindex
  obtain rfl := Except.ok.inj hindex
  intro hunk hmem
  refine ⟨fun i hi => (hnew _).mp ((hright _).mpr ⟨hunk, hmem, ?_⟩),
    fun i hi => (hold _).mp ((hleft _).mpr ⟨hunk, hmem, ?_⟩)⟩
  · exact hunk.mem_stretch_new.mpr (Or.inr ⟨i, hi, rfl⟩)
  · exact hunk.mem_stretch_old.mpr (Or.inr ⟨i, hi, rfl⟩)

/-- The index has the line numbers of a patch if its strays leave them as they are; and if no stray
reads as a header, only then. -/
theorem numbered_iff (hunks : List Hunk) :
    (Harmless hunks → Numbered hunks) ∧
      ((∀ h ∈ hunks, h.Headless) → (Numbered hunks ↔ Harmless hunks)) :=
  ⟨Harmless.numbered, fun hheadless => ⟨fun h => h.harmless hheadless, Harmless.numbered⟩⟩

/-- An added line with a form feed in it; what follows the form feed reads as an added line. -/
def Hunk.first : Hunk where
  oldStart := 0
  newStart := 1
  showsOldCount := true
  showsNewCount := false
  trailing := ""
  lines := [⟨.added, String.ofList ['x', Char.ofNat 12, '+', 'y'], by decide⟩]
  trailing_oneLine := Hunk.noTrailing_oneLine

/-- The line behind it. -/
def Hunk.second : Hunk where
  oldStart := 0
  newStart := 2
  showsOldCount := true
  showsNewCount := false
  trailing := ""
  lines := [⟨.added, "z", by decide⟩]
  trailing_oneLine := Hunk.noTrailing_oneLine

/-- The stray adds the number of the line behind it. -/
theorem numbered_first_second : Numbered [Hunk.first, Hunk.second] := by
  have hfirst : Hunk.first.strayPieces = [['+', 'y']] := by decide +kernel
  have hsecond : Hunk.second.strayPieces = [] := by decide +kernel
  have hheadless : Hunk.first.Headless ∧ Hunk.second.Headless := by
    simp only [Hunk.Headless, hfirst, hsecond]
    exact ⟨by decide, nofun⟩
  have hlegible : ∀ h : Hunk, h.Headless → (digitValues h.oldStart).length ≤ intMaxStrDigits →
      (digitValues h.newStart).length ≤ intMaxStrDigits → h.Legible := by
    refine fun h hnone hold hnew => ⟨hold, hnew, fun piece hpiece old new hheader => ?_⟩
    rw [hnone piece hpiece] at hheader
    cases hheader
  refine (numbered_iff [Hunk.first, Hunk.second]).1 ⟨?_, ?_, ?_⟩
  · simp only [List.mem_cons, List.not_mem_nil, or_false, forall_eq_or_imp, forall_eq]
    exact ⟨hlegible _ hheadless.1 (by decide +kernel) (by decide +kernel),
      hlegible _ hheadless.2 (by decide +kernel) (by decide +kernel)⟩
  · simpa only [List.mem_cons, List.not_mem_nil, or_false, forall_eq_or_imp, forall_eq]
      using hheadless
  · simp only [List.mem_cons, List.not_mem_nil, or_false, forall_eq_or_imp, forall_eq,
      Hunk.AddsNothing, hfirst, hsecond]
    refine ⟨⟨fun i hi => ⟨Hunk.second, Or.inr rfl, ?_⟩, nofun⟩, nofun, nofun⟩
    obtain rfl : i = 0 := Nat.lt_one_iff.mp hi
    exact (Hunk.newNumbers_iff _ _).mpr (by decide)

/-- A new file of one line, with a form feed in it. -/
def Hunk.withFormFeed : Hunk where
  oldStart := 0
  newStart := 1
  showsOldCount := true
  showsNewCount := false
  trailing := ""
  lines := [⟨.added, String.ofList [Char.ofNat 12, ' ', 'x'], by decide⟩]
  trailing_oneLine := Hunk.noTrailing_oneLine

theorem form_feed_numbers : ¬ Numbered [Hunk.withFormFeed] := by
  rintro ⟨index, hindex, hright, -⟩
  have hsecond : (parsePatch (renderPatch [Hunk.withFormFeed])).toOption.map
      (fun index => decide (2 ∈ index.rightLines)) = some true := by
    decide +kernel
  rw [hindex] at hsecond
  obtain ⟨h, hh, hn⟩ := (hright 2).mp (by simpa [Except.toOption] using hsecond)
  rw [List.mem_singleton.mp hh, Hunk.newNumbers_iff] at hn
  exact absurd hn (by decide)

end ReviewAgent
