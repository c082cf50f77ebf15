import Mathlib.Data.List.Infix
import Mathlib.Data.List.TakeWhile
import Mathlib.Data.Nat.Find

/-! The leftmost place in a text where a keyword stands with a name behind it. -/
namespace KeywordSearch

/-- What counts as a character of a word, as blank, and as a character of a name, and where a name
may start. -/
structure Lexis (α : Type) where
  word : α → Bool
  space : α → Bool
  start : α → Bool
  part : α → Bool
  part_of_start : ∀ c, start c = true → part c = true
  word_of_part : ∀ c, part c = true → word c = true
  not_word_of_space : ∀ c, space c = true → word c = false

/-- The keywords, one of which opens, and the sign that has to follow the name, if any: with blanks
before it or not. -/
structure Pattern (α : Type) where
  keywords : List (List α)
  sign : Option α

variable {α : Type} {lexis : Lexis α} {text name rest : List α} {c : α}

namespace Lexis

theorem not_space_of_part (h : lexis.part c = true) : lexis.space c = false := by
  by_contra hspace
  have hnot := lexis.not_word_of_space c (by simpa using hspace)
  rw [lexis.word_of_part c h] at hnot
  cases hnot

/-- A name: it starts as one, and has only such characters. -/
structure IsName (lexis : Lexis α) (name : List α) : Prop where
  starts : ∃ c cs, name = c :: cs ∧ lexis.start c = true
  parts : ∀ c ∈ name, lexis.part c = true

end Lexis

/-- What stands behind a keyword: blanks, a whole name, and the sign. -/
structure Names (lexis : Lexis α) (sign : Option α) (text name : List α) : Prop where
  isName : lexis.IsName name
  exists_split : ∃ blanks rest, text = blanks ++ (name ++ rest) ∧ blanks ≠ [] ∧
    (∀ c ∈ blanks, lexis.space c = true) ∧ (∀ c ∈ rest.head?, lexis.part c = false) ∧
    ∀ s ∈ sign, (rest.dropWhile lexis.space).head? = some s

variable [DecidableEq α]

/-- The name behind a keyword, read from left to right. -/
def nameBehind (lexis : Lexis α) (sign : Option α) (text : List α) : Option (List α) :=
  let behind := text.dropWhile lexis.space
  let name := behind.takeWhile lexis.part
  let rest := behind.dropWhile lexis.part
  if (text.head?.any lexis.space && name.head?.any lexis.start &&
      sign.all fun s => (rest.dropWhile lexis.space).head? = some s) then some name else none

/-- A match at the front of the text, whose first character opens a word. -/
def matchHere (lexis : Lexis α) (pattern : Pattern α) (text : List α) : Option (List α) :=
  pattern.keywords.findSome? fun keyword =>
    if keyword.isPrefixOf text then nameBehind lexis pattern.sign (text.drop keyword.length) else none

/-- The leftmost match; `opens` says that a word may begin at the front of the text. -/
def search (lexis : Lexis α) (pattern : Pattern α) : Bool → List α → Option (List α)
  | _, [] => none
  | opens, c :: cs =>
    (if opens then matchHere lexis pattern (c :: cs) else none) <|>
      search lexis pattern (!lexis.word c) cs

omit [DecidableEq α] in
theorem head_dropWhile {p : α → Bool} (items : List α) :
    ∀ c ∈ (items.dropWhile p).head?, p c = false := by
  intro c hc
  have h := List.head?_dropWhile_not p items
  rw [Option.mem_def.mp hc] at h
  simpa using h

omit [DecidableEq α] in
/-- A run of characters up to the first other one. -/
theorem dropWhile_run {p : α → Bool} (hrun : ∀ c ∈ name, p c = true)
    (hrest : ∀ c ∈ rest.head?, p c = false) : (name ++ rest).dropWhile p = rest := by
  rw [List.dropWhile_append_of_pos hrun]
  cases rest with
  | nil => rfl
  | cons c cs => rw [List.dropWhile_cons_of_neg (by rw [hrest c rfl]; decide)]

omit [DecidableEq α] in
theorem takeWhile_run {p : α → Bool} (hrun : ∀ c ∈ name, p c = true)
    (hrest : ∀ c ∈ rest.head?, p c = false) : (name ++ rest).takeWhile p = name := by
  rw [List.takeWhile_append_of_pos hrun]
  cases rest with
  | nil => rw [List.takeWhile_nil, List.append_nil]
  | cons c cs => rw [List.takeWhile_cons_of_neg (by rw [hrest c rfl]; decide), List.append_nil]

theorem nameBehind_eq_some_iff {sign : Option α} :
    nameBehind lexis sign text = some name ↔ Names lexis sign text name := by
  constructor
  · intro h
    simp only [nameBehind] at h
    split at h
    · rename_i hcond
      obtain rfl := Option.some.inj h
      rw [Bool.and_eq_true, Bool.and_eq_true, Option.any_eq_true, Option.any_eq_true] at hcond
      obtain ⟨⟨⟨b, hb, hblank⟩, c, hc, hstart⟩, hsign⟩ := hcond
      refine ⟨⟨?_, fun c hc => List.mem_takeWhile_imp hc⟩, text.takeWhile lexis.space,
        (text.dropWhile lexis.space).dropWhile lexis.part, ?_, ?_,
        fun c hc => List.mem_takeWhile_imp hc, head_dropWhile _, ?_⟩
      · obtain ⟨cs, hcs⟩ := List.head?_eq_some_iff.mp hc
        exact ⟨c, cs, hcs, hstart⟩
      · rw [List.takeWhile_append_dropWhile, List.takeWhile_append_dropWhile]
      · obtain ⟨bs, rfl⟩ := List.head?_eq_some_iff.mp hb
        rw [List.takeWhile_cons_of_pos hblank]
        exact List.cons_ne_nil _ _
      · intro s hs
        obtain rfl := hs
        simpa using hsign
    · cases h
  · rintro ⟨⟨⟨c, cs, rfl, hstart⟩, hparts⟩, blanks, rest, rfl, hne, hblanks, hrest, hsign⟩
    have hopen : ∀ c' ∈ ((c :: cs) ++ rest).head?, lexis.space c' = false := by
      intro c' hc'
      obtain rfl := Option.some.inj hc'
      exact lexis.not_space_of_part (hparts _ List.mem_cons_self)
    obtain ⟨b, bs, rfl⟩ := List.exists_cons_of_ne_nil hne
    have hall : (sign.all fun s => (rest.dropWhile lexis.space).head? = some s) = true := by
      cases sign with
      | none => rfl
      | some s => simpa using hsign s rfl
    simp only [nameBehind]
    rw [dropWhile_run hblanks hopen, takeWhile_run hparts hrest, dropWhile_run hparts hrest, hall,
      if_pos]
    simp [hblanks b List.mem_cons_self, hstart]

/-- A match at the front of a text: one of the keywords, and a name behind it. -/
def Matches (lexis : Lexis α) (pattern : Pattern α) (text name : List α) : Prop :=
  ∃ keyword ∈ pattern.keywords, ∃ behind, text = keyword ++ behind ∧
    Names lexis pattern.sign behind name

/-- Keywords are words, so that none of them stands before blanks in another. -/
def Pattern.WordsOf (lexis : Lexis α) (pattern : Pattern α) : Prop :=
  ∀ keyword ∈ pattern.keywords, keyword ≠ [] ∧ ∀ c ∈ keyword, lexis.space c = false

theorem matchOne_eq_some_iff {keyword : List α} {sign : Option α} :
    (if keyword.isPrefixOf text then nameBehind lexis sign (text.drop keyword.length) else none) =
      some name ↔ ∃ behind, text = keyword ++ behind ∧ Names lexis sign behind name := by
  constructor
  · intro h
    split at h
    · rename_i hprefix
      obtain ⟨behind, rfl⟩ := List.isPrefixOf_iff_prefix.mp hprefix
      rw [List.drop_left] at h
      exact ⟨behind, rfl, nameBehind_eq_some_iff.mp h⟩
    · cases h
  · rintro ⟨behind, rfl, hnames⟩
    rw [if_pos (List.isPrefixOf_iff_prefix.mpr (List.prefix_append _ _)), List.drop_left]
    exact nameBehind_eq_some_iff.mpr hnames

omit [DecidableEq α] in
/-- Blanks end a keyword. -/
theorem keyword_eq {keyword behind : List α} {sign : Option α}
    (hword : ∀ c ∈ keyword, lexis.space c = false) (hnames : Names lexis sign behind name) :
    keyword = (keyword ++ behind).takeWhile fun c => !lexis.space c := by
  obtain ⟨blanks, rest, rfl, hne, hblanks, -⟩ := hnames.exists_split
  refine (takeWhile_run (fun c hc => by simp [hword c hc]) fun c hc => ?_).symm
  obtain ⟨b, bs, rfl⟩ := List.exists_cons_of_ne_nil hne
  obtain rfl := Option.some.inj hc
  simp [hblanks b List.mem_cons_self]

theorem matchHere_eq_some_iff {pattern : Pattern α} (hwords : pattern.WordsOf lexis) :
    matchHere lexis pattern text = some name ↔ Matches lexis pattern text name := by
  constructor
  · intro h
    obtain ⟨keyword, hkeyword, hone⟩ := List.exists_of_findSome?_eq_some h
    exact ⟨keyword, hkeyword, matchOne_eq_some_iff.mp hone⟩
  · rintro ⟨keyword, hkeyword, behind, hsplit, hnames⟩
    have hone := matchOne_eq_some_iff.mpr ⟨behind, hsplit, hnames⟩
    cases hfound : matchHere lexis pattern text with
    | none =>
      have hnone := List.findSome?_eq_none_iff.mp hfound keyword hkeyword
      rw [hone] at hnone
      cases hnone
    | some name' =>
      obtain ⟨keyword', hkeyword', hone'⟩ := List.exists_of_findSome?_eq_some hfound
      obtain ⟨behind', hsplit', hnames'⟩ := matchOne_eq_some_iff.mp hone'
      have hsame : keyword' = keyword := by
        rw [keyword_eq (hwords keyword' hkeyword').2 hnames', ← hsplit', hsplit]
        exact (keyword_eq (hwords keyword hkeyword).2 hnames).symm
      rw [hsame, hone] at hone'
      rw [hone']

/-- A word may begin at position `n` of the text. -/
def OpensAt (lexis : Lexis α) (opens : Bool) (text : List α) : ℕ → Prop
  | 0 => opens = true
  | n + 1 => ∃ c ∈ text[n]?, lexis.word c = false

/-- A match at position `n`. -/
def MatchesAt (lexis : Lexis α) (pattern : Pattern α) (opens : Bool) (text : List α) (n : ℕ)
    (name : List α) : Prop :=
  OpensAt lexis opens text n ∧ Matches lexis pattern (text.drop n) name

omit [DecidableEq α] in
theorem not_matches_nil {pattern : Pattern α} (hwords : pattern.WordsOf lexis) :
    ¬ Matches lexis pattern [] name := by
  rintro ⟨keyword, hkeyword, behind, hsplit, -⟩
  exact (hwords keyword hkeyword).1 (List.append_eq_nil_iff.mp hsplit.symm).1

omit [DecidableEq α] in
theorem matchesAt_succ {pattern : Pattern α} {opens : Bool} {n : ℕ} :
    MatchesAt lexis pattern opens (c :: text) (n + 1) name ↔
      MatchesAt lexis pattern (!lexis.word c) text n name := by
  have hopens : OpensAt lexis opens (c :: text) (n + 1) ↔ OpensAt lexis (!lexis.word c) text n := by
    cases n <;> simp [OpensAt]
  rw [MatchesAt, MatchesAt, hopens, List.drop_succ_cons]

theorem matchesAt_zero {pattern : Pattern α} (hwords : pattern.WordsOf lexis) {opens : Bool} :
    MatchesAt lexis pattern opens text 0 name ↔
      (if opens then matchHere lexis pattern text else none) = some name := by
  cases opens with
  | true => exact (and_iff_right rfl).trans (matchHere_eq_some_iff hwords).symm
  | false => exact iff_of_false (fun h => by cases h.1) (fun h => by cases h)

/-- The search finds the leftmost match. -/
theorem search_eq_some_iff {pattern : Pattern α} (hwords : pattern.WordsOf lexis) {opens : Bool} :
    search lexis pattern opens text = some name ↔ ∃ n, MatchesAt lexis pattern opens text n name ∧
      ∀ m < n, ∀ name', ¬ MatchesAt lexis pattern opens text m name' := by
  induction text generalizing opens with
  | nil =>
    refine iff_of_false (fun h => by cases h) ?_
    rintro ⟨n, ⟨-, hmatches⟩, -⟩
    rw [List.drop_nil] at hmatches
    exact not_matches_nil hwords hmatches
  | cons c text ih =>
    rw [search]
    cases hhere : if opens then matchHere lexis pattern (c :: text) else none with
    | some found =>
      have hfound := (matchesAt_zero hwords).mpr hhere
      constructor
      · intro h
        obtain rfl := Option.some.inj h
        exact ⟨0, hfound, fun m hm => absurd hm (Nat.not_lt_zero m)⟩
      · rintro ⟨n, hat, hleftmost⟩
        cases n with
        | zero => exact hhere.symm.trans ((matchesAt_zero hwords).mp hat)
        | succ n => exact absurd hfound (hleftmost 0 (Nat.succ_pos n) found)
    | none =>
      have hnone : ∀ name', ¬ MatchesAt lexis pattern opens (c :: text) 0 name' := by
        intro name' hat
        rw [matchesAt_zero hwords, hhere] at hat
        cases hat
      refine ih.trans ⟨?_, ?_⟩
      · rintro ⟨n, hat, hleftmost⟩
        refine ⟨n + 1, matchesAt_succ.mpr hat, fun m hm name' => ?_⟩
        cases m with
        | zero => exact hnone name'
        | succ m => exact fun h => hleftmost m (Nat.lt_of_succ_lt_succ hm) name' (matchesAt_succ.mp h)
      · rintro ⟨n, hat, hleftmost⟩
        cases n with
        | zero => exact absurd hat (hnone name)
        | succ n =>
          refine ⟨n, matchesAt_succ.mp hat, fun m hm name' h => ?_⟩
          exact hleftmost (m + 1) (Nat.succ_lt_succ hm) name' (matchesAt_succ.mpr h)

theorem search_eq_none_iff {pattern : Pattern α} (hwords : pattern.WordsOf lexis) {opens : Bool} :
    search lexis pattern opens text = none ↔
      ∀ n name, ¬ MatchesAt lexis pattern opens text n name := by
  constructor
  · intro hnone n name hat
    classical
    have hex : ∃ m name', MatchesAt lexis pattern opens text m name' := ⟨n, name, hat⟩
    obtain ⟨found, hfound⟩ := Nat.find_spec hex
    have hsome := (search_eq_some_iff hwords).mpr ⟨Nat.find hex, hfound, fun m hm name' h =>
      Nat.find_min hex hm ⟨name', h⟩⟩
    rw [hnone] at hsome
    cases hsome
  · intro hnone
    cases hfound : search lexis pattern opens text with
    | none => rfl
    | some name =>
      obtain ⟨n, hat, -⟩ := (search_eq_some_iff hwords).mp hfound
      exact absurd hat (hnone n name)

end KeywordSearch
