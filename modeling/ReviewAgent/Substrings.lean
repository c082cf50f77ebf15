import Mathlib.Data.List.Infix

/-! Occurrences of a word in a text that is put together from parts. -/
namespace Substrings

variable {α : Type} {word left right text : List α} {a : α}

theorem prefix_of_append_cons (ha : a ∉ word) (h : word <+: left ++ a :: right) : word <+: left := by
  rcases List.prefix_or_prefix_of_prefix h (List.prefix_append left (a :: right)) with hleft | hlong
  · exact hleft
  · obtain ⟨rest, rfl⟩ := hlong
    cases rest with
    | nil => simp
    | cons b rest =>
      rw [List.prefix_append_right_inj, List.cons_prefix_cons] at h
      exact absurd (by simp [h.1]) ha

/-- A word without the separator occurs on one side of it. -/
theorem infix_append_cons_iff (ha : a ∉ word) :
    word <:+: left ++ a :: right ↔ word <:+: left ∨ word <:+: right := by
  constructor
  · intro h
    induction left with
    | nil =>
      rcases List.infix_cons_iff.mp h with hprefix | hright
      · have hleft : word <+: [] := prefix_of_append_cons ha hprefix
        exact Or.inl hleft.isInfix
      · exact Or.inr hright
    | cons b left ih =>
      rcases List.infix_cons_iff.mp h with hprefix | hlater
      · have hleft : word <+: b :: left := prefix_of_append_cons ha hprefix
        exact Or.inl hleft.isInfix
      · rcases ih hlater with hleft | hright
        · exact Or.inl (List.infix_cons hleft)
        · exact Or.inr hright
  · rintro (h | h)
    · exact h.trans (List.prefix_append _ _).isInfix
    · exact h.trans ((List.suffix_cons a right).trans (List.suffix_append _ _)).isInfix

/-- A word does not begin in a part without its first letter. -/
theorem cons_infix_append_iff (ha : a ∉ left) :
    a :: word <:+: left ++ right ↔ a :: word <:+: right := by
  induction left with
  | nil => rfl
  | cons b left ih =>
    rw [List.mem_cons, not_or] at ha
    rw [List.cons_append, List.infix_cons_iff, ih ha.2, List.cons_prefix_cons, or_iff_right]
    exact fun h => ha.1 h.1

/-- A word does not end in a part without its last letter. -/
theorem concat_infix_append_iff (ha : a ∉ right) :
    word ++ [a] <:+: left ++ right ↔ word ++ [a] <:+: left := by
  rw [← List.reverse_infix, List.reverse_append, List.reverse_append, List.reverse_singleton,
    List.singleton_append, cons_infix_append_iff (by simpa using ha), ← List.reverse_infix]
  simp

theorem not_infix_of_head (ha : a ∉ text) : ¬ a :: word <:+: text := by
  intro h
  exact ha (h.subset List.mem_cons_self)

/-- A word that keeps to one line occurs in one of the lines. -/
theorem infix_intercalate_iff (ha : a ∉ word) (hne : word ≠ []) {lines : List (List α)} :
    word <:+: [a].intercalate lines ↔ ∃ line ∈ lines, word <:+: line := by
  induction lines with
  | nil => simp [hne]
  | cons line lines ih =>
    cases lines with
    | nil => simp
    | cons line' lines =>
      rw [List.intercalate_cons_cons, List.append_assoc, List.singleton_append,
        infix_append_cons_iff ha, ih]
      simp

/-- Up to a separator that neither of them holds, two texts agree when one begins the other. -/
theorem eq_of_append_cons_prefix {left' right' : List α} (ha : a ∉ left) (ha' : a ∉ left')
    (h : left ++ a :: right <+: left' ++ a :: right') : left = left' := by
  induction left generalizing left' with
  | nil =>
    cases left' with
    | nil => rfl
    | cons b left' =>
      rw [List.nil_append, List.cons_append, List.cons_prefix_cons] at h
      exact absurd (by simp [h.1]) ha'
  | cons b left ih =>
    rw [List.mem_cons, not_or] at ha
    cases left' with
    | nil =>
      rw [List.nil_append, List.cons_append, List.cons_prefix_cons] at h
      exact absurd h.1.symm ha.1
    | cons b' left' =>
      rw [List.cons_append, List.cons_append, List.cons_prefix_cons] at h
      rw [List.mem_cons, not_or] at ha'
      rw [h.1, ih ha.2 ha'.2 h.2]

end Substrings
