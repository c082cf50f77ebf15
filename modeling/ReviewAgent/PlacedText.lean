import Mathlib.Data.List.DropRight
import Mathlib.Data.List.Infix
import Mathlib.Data.List.Nodup
import Mathlib.Data.Nat.Notation

/-! Texts whose characters may carry their places: cut into lines, by bytes, and at the ends. -/
namespace PlacedText

section

variable {α : Type} (char : α → Char)

/-- The lines of a text with their ends, which are marked characters; CR LF is one end. -/
def lines (isEnd : Char → Bool) : List α → List (List α)
  | [] => []
  | [c] => [[c]]
  | c :: d :: rest =>
    if char c = '\r' ∧ char d = '\n' then [c, d] :: lines isEnd rest
    else if isEnd (char c) then [c] :: lines isEnd (d :: rest)
    else match lines isEnd (d :: rest) with
      | [] => [[c]]
      | line :: more => (c :: line) :: more

/-- The characters of the first bytes, unless one is cut. -/
def takeBytes : ℕ → List α → Option (List α)
  | 0, _ | _, [] => some []
  | n, c :: cs =>
    if (char c).utf8Size ≤ n then (takeBytes (n - (char c).utf8Size) cs).map (c :: ·) else none

/-- The characters after the first bytes, unless one is cut. -/
def dropBytes : ℕ → List α → Option (List α)
  | 0, cs => some cs
  | _, [] => some []
  | n, c :: cs => if (char c).utf8Size ≤ n then dropBytes (n - (char c).utf8Size) cs else none

/-- The characters from one byte on up to another, unless one is cut. -/
def sliceBytes (start stop : ℕ) (text : List α) : Option (List α) :=
  if stop ≤ start then some [] else (takeBytes char stop text).bind (dropBytes char start)

/-- A text without what is blank at its ends. -/
def strip (isBlank : Char → Bool) (text : List α) : List α :=
  (text.dropWhile (isBlank ∘ char)).rdropWhile (isBlank ∘ char)

end

section

variable {α β : Type} {char : α → Char} {char' : β → Char} {f : α → β} {isEnd isBlank : Char → Bool}
  {text taken rest : List α} {start stop : ℕ}

@[simp] theorem flatten_lines (char : α → Char) (isEnd : Char → Bool) (text : List α) :
    (lines char isEnd text).flatten = text := by
  fun_induction lines char isEnd text with
  | case1 => rfl
  | case2 c => rfl
  | case3 c d rest h ih => simp [ih]
  | case4 c d rest h hend ih => simp [ih]
  | case5 c d rest h hend hnil ih => simp [hnil] at ih
  | case6 c d rest h hend line more hlines ih =>
    rw [hlines] at ih
    simpa using ih

/-- Cutting into lines does not look at the places. -/
theorem lines_map (hf : ∀ a, char' (f a) = char a) (text : List α) :
    lines char' isEnd (text.map f) = (lines char isEnd text).map (List.map f) := by
  fun_induction lines char isEnd text with
  | case1 => rfl
  | case2 c => rfl
  | case3 c d rest h ih => simp [lines, hf, h, ih]
  | case4 c d rest h hend ih =>
    simp only [List.map_cons] at ih ⊢
    rw [lines, hf, hf, if_neg h, if_pos hend, ih]
    rfl
  | case5 c d rest h hend hnil ih =>
    have hflat := flatten_lines char isEnd (d :: rest)
    rw [hnil] at hflat
    cases hflat
  | case6 c d rest h hend line more hlines ih =>
    simp only [List.map_cons] at ih ⊢
    rw [lines, hf, hf, if_neg h, if_neg hend, ih, hlines]
    rfl

theorem takeBytes_map (hf : ∀ a, char' (f a) = char a) (n : ℕ) (text : List α) :
    takeBytes char' n (text.map f) = (takeBytes char n text).map (List.map f) := by
  fun_induction takeBytes char n text with
  | case1 => simp [takeBytes]
  | case2 => simp [takeBytes]
  | case3 n c cs hn h ih =>
    simp only [List.map_cons, takeBytes, hf, if_pos h, ih, Option.map_map]
    rfl
  | case4 n c cs hn h => simp [takeBytes, hf, h]

theorem dropBytes_map (hf : ∀ a, char' (f a) = char a) (n : ℕ) (text : List α) :
    dropBytes char' n (text.map f) = (dropBytes char n text).map (List.map f) := by
  fun_induction dropBytes char n text with
  | case1 => simp [dropBytes]
  | case2 => simp [dropBytes]
  | case3 n c cs hn h ih => simp [dropBytes, hf, h, ih]
  | case4 n c cs hn h => simp [dropBytes, hf, h]

theorem sliceBytes_map (hf : ∀ a, char' (f a) = char a) (start stop : ℕ) (text : List α) :
    sliceBytes char' start stop (text.map f) =
      (sliceBytes char start stop text).map (List.map f) := by
  unfold sliceBytes
  split
  · rfl
  · rw [takeBytes_map hf, Option.bind_map, Option.map_bind]
    congr 1
    funext taken
    exact dropBytes_map hf start taken

theorem strip_map (hf : ∀ a, char' (f a) = char a) (text : List α) :
    strip char' isBlank (text.map f) = (strip char isBlank text).map f := by
  have hcomp : isBlank ∘ char' ∘ f = isBlank ∘ char := by
    funext a
    simp [hf]
  have hdrop : ∀ cs : List α, (cs.map f).dropWhile (isBlank ∘ char') =
      (cs.dropWhile (isBlank ∘ char)).map f := by
    intro cs
    rw [List.dropWhile_map, ← hcomp]
    rfl
  simp only [strip, List.rdropWhile, hdrop, ← List.map_reverse]

/-- What is taken is the front of the text. -/
theorem takeBytes_eq {n : ℕ} (h : takeBytes char n text = some taken) :
    ∃ rest, text = taken ++ rest := by
  fun_induction takeBytes char n text generalizing taken with
  | case1 cs =>
    cases h
    exact ⟨cs, rfl⟩
  | case2 =>
    cases h
    exact ⟨[], rfl⟩
  | case3 n c cs hn hle ih =>
    obtain ⟨taken', htaken', rfl⟩ := Option.map_eq_some_iff.mp h
    obtain ⟨rest, hrest⟩ := ih htaken'
    exact ⟨rest, by rw [List.cons_append, ← hrest]⟩
  | case4 => cases h

/-- What is left is the end of the text. -/
theorem dropBytes_eq {n : ℕ} (h : dropBytes char n text = some rest) :
    ∃ dropped, text = dropped ++ rest := by
  fun_induction dropBytes char n text with
  | case1 cs =>
    cases h
    exact ⟨[], rfl⟩
  | case2 =>
    cases h
    exact ⟨[], rfl⟩
  | case3 n c cs hn hle ih =>
    obtain ⟨dropped, hdropped⟩ := ih h
    exact ⟨c :: dropped, by rw [List.cons_append, ← hdropped]⟩
  | case4 => cases h

theorem sliceBytes_eq (h : sliceBytes char start stop text = some taken) :
    ∃ before after, text = before ++ taken ++ after := by
  unfold sliceBytes at h
  split at h
  · cases h
    exact ⟨[], text, rfl⟩
  · obtain ⟨front, hfront, hback⟩ := Option.bind_eq_some_iff.mp h
    obtain ⟨after, rfl⟩ := takeBytes_eq hfront
    obtain ⟨before, rfl⟩ := dropBytes_eq hback
    exact ⟨before, after, rfl⟩

theorem mem_dropWhile_of_not {p : α → Bool} {a : α} (ha : a ∈ text) (hp : p a = false) :
    a ∈ text.dropWhile p := by
  rw [← List.takeWhile_append_dropWhile (p := p) (l := text), List.mem_append] at ha
  rcases ha with htaken | hleft
  · rw [List.mem_takeWhile_imp htaken] at hp
    cases hp
  · exact hleft

/-- Only what is blank is stripped. -/
theorem mem_strip {a : α} (ha : a ∈ text) (hblank : isBlank (char a) = false) :
    a ∈ strip char isBlank text := by
  have hp : (isBlank ∘ char) a = false := hblank
  rw [strip, List.rdropWhile, List.mem_reverse]
  apply mem_dropWhile_of_not _ hp
  rw [List.mem_reverse]
  exact mem_dropWhile_of_not ha hp

theorem strip_subset (text : List α) : strip char isBlank text ⊆ text :=
  fun _ ha => (List.dropWhile_sublist _).subset ((List.rdropWhile_prefix _ _).subset ha)

/-- A text around one of its lines. -/
theorem flatten_around {pieces : List (List α)} {i : ℕ} {piece : List α}
    (h : pieces[i]? = some piece) :
    pieces.flatten = (pieces.take i).flatten ++ piece ++ (pieces.drop (i + 1)).flatten := by
  obtain ⟨hlt, rfl⟩ := List.getElem?_eq_some_iff.mp h
  conv_lhs => rw [← List.take_append_drop i pieces, List.drop_eq_getElem_cons hlt]
  rw [List.flatten_append, List.flatten_cons, List.append_assoc]

/-- A text around two of its lines. -/
theorem flatten_between {pieces : List (List α)} {i j : ℕ} {first last : List α} (hlt : i < j)
    (hfirst : pieces[i]? = some first) (hlast : pieces[j]? = some last) :
    pieces.flatten = (pieces.take i).flatten ++ first ++ ((pieces.take j).drop (i + 1)).flatten ++
      last ++ (pieces.drop (j + 1)).flatten := by
  have hfirst' : (pieces.take j)[i]? = some first := by
    rw [List.getElem?_take_of_lt hlt, hfirst]
  have htake : (pieces.take j).take i = pieces.take i := by
    rw [List.take_take, Nat.min_eq_left hlt.le]
  rw [flatten_around hlast, flatten_around hfirst', htake]

/-- A character of a text without repetitions is on one line only. -/
theorem index_unique {pieces : List (List α)} (hnodup : pieces.flatten.Nodup) {i j : ℕ}
    {piece piece' : List α} {a : α} (hi : pieces[i]? = some piece) (hj : pieces[j]? = some piece')
    (ha : a ∈ piece) (ha' : a ∈ piece') : i = j := by
  obtain ⟨hlt, rfl⟩ := List.getElem?_eq_some_iff.mp hi
  obtain ⟨hlt', rfl⟩ := List.getElem?_eq_some_iff.mp hj
  have hdisjoint := List.pairwise_iff_getElem.mp (List.nodup_flatten.mp hnodup).2
  rcases lt_trichotomy i j with h | h | h
  · exact absurd ha' (hdisjoint i j _ _ h ha)
  · exact h
  · exact absurd ha (hdisjoint j i _ _ h ha')

/-- Bytes that can be dropped from a text can be dropped from a longer front of it. -/
theorem dropBytes_isSome_of_take {start stop : ℕ} (hle : start ≤ stop)
    (htake : takeBytes char stop text = some taken) (hdrop : (dropBytes char start text).isSome) :
    (dropBytes char start taken).isSome := by
  fun_induction takeBytes char stop text generalizing taken start with
  | case1 cs =>
    cases htake
    obtain rfl : start = 0 := by omega
    simp [dropBytes]
  | case2 =>
    cases htake
    exact hdrop
  | case3 n c cs hn hfits ih =>
    obtain ⟨taken', htaken', rfl⟩ := Option.map_eq_some_iff.mp htake
    cases start with
    | zero => simp [dropBytes]
    | succ start =>
      rw [dropBytes] at hdrop ⊢
      · split at hdrop
        · rename_i hfits'
          rw [if_pos hfits']
          exact ih (by omega) htaken' hdrop
        · cases hdrop
      · omega
      · omega
  | case4 => cases htake

/-- A text that is cut at two ends of its characters yields what is between them. -/
theorem sliceBytes_isSome (hle : start ≤ stop) (hdrop : (dropBytes char start text).isSome)
    (htake : (takeBytes char stop text).isSome) : (sliceBytes char start stop text).isSome := by
  obtain ⟨taken, htaken⟩ := Option.isSome_iff_exists.mp htake
  unfold sliceBytes
  split
  · rfl
  · rw [htaken]
    exact dropBytes_isSome_of_take hle htaken hdrop

end

end PlacedText
