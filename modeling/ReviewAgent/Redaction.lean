import ReviewAgent.Substrings

/-! Tokens in a text, each a mark and what follows it, and their replacement by a placeholder. -/
namespace Redaction

/-- What a token looks like: one of the marks, then one or more characters of its body. The
placeholder does not begin like a body, and no mark begins in it. -/
structure Tokens (α : Type) where
  marks : List (List α)
  body : α → Bool
  placeholder : List α
  mark_ne_nil : ∀ mark ∈ marks, mark ≠ []
  mark_body : ∀ mark ∈ marks, ∀ c ∈ mark, body c = true
  placeholder_opens : ∃ c ∈ placeholder.head?, body c = false
  placeholder_apart : ∀ mark ∈ marks, ∀ c ∈ mark.head?, c ∉ placeholder

variable {α : Type} (tokens : Tokens α)

namespace Tokens

/-- There is a token in the text. -/
def Holds (text : List α) : Prop :=
  ∃ mark ∈ tokens.marks, ∃ c, tokens.body c = true ∧ mark ++ [c] <:+: text

section

variable {tokens} {left right mark : List α} {c : α}

theorem body_of_mem (hmark : mark ∈ tokens.marks) (hc : tokens.body c = true) :
    ∀ d ∈ mark ++ [c], tokens.body d = true := by
  intro d hd
  rcases List.mem_append.mp hd with hd | hd
  · exact tokens.mark_body mark hmark d hd
  · obtain rfl := List.mem_singleton.mp hd
    exact hc

/-- A token does not reach across a character that is in none. -/
theorem holds_append_cons (hc : tokens.body c = false) :
    tokens.Holds (left ++ c :: right) ↔ tokens.Holds left ∨ tokens.Holds right := by
  have hsplit : ∀ mark ∈ tokens.marks, ∀ d, tokens.body d = true →
      (mark ++ [d] <:+: left ++ c :: right ↔ mark ++ [d] <:+: left ∨ mark ++ [d] <:+: right) := by
    intro mark hmark d hd
    refine Substrings.infix_append_cons_iff fun hmem => ?_
    cases hc.symm.trans (body_of_mem hmark hd c hmem)
  constructor
  · rintro ⟨mark, hmark, d, hd, h⟩
    exact ((hsplit mark hmark d hd).mp h).imp (fun h => ⟨mark, hmark, d, hd, h⟩)
      fun h => ⟨mark, hmark, d, hd, h⟩
  · rintro (⟨mark, hmark, d, hd, h⟩ | ⟨mark, hmark, d, hd, h⟩)
    · exact ⟨mark, hmark, d, hd, (hsplit mark hmark d hd).mpr (.inl h)⟩
    · exact ⟨mark, hmark, d, hd, (hsplit mark hmark d hd).mpr (.inr h)⟩

end

variable [DecidableEq α]

/-- A mark that the text begins with, and that something of a body follows. -/
def markOf? (text : List α) : Option (List α) :=
  tokens.marks.find? fun mark =>
    mark.isPrefixOf text && (text.drop mark.length).head?.any tokens.body

/-- The length of the token that the text begins with, zero if there is none. -/
def tokenLength (text : List α) : ℕ :=
  match tokens.markOf? text with
  | none => 0
  | some mark => mark.length + ((text.drop mark.length).takeWhile tokens.body).length

/-- The text from a place on, with so much of a token before it. -/
def redactFrom (skip : ℕ) : List α → List α
  | [] => []
  | c :: rest =>
    match skip with
    | skip + 1 => redactFrom skip rest
    | 0 =>
      match tokens.tokenLength (c :: rest) with
      | 0 => c :: redactFrom 0 rest
      | n + 1 => tokens.placeholder ++ redactFrom n rest

/-- Every token replaced by the placeholder. -/
def redact (text : List α) : List α := tokens.redactFrom 0 text

variable {tokens} {text word : List α} {mark : List α} {c : α} {skip : ℕ}

/-- Where no token begins, no mark with a body does. -/
theorem not_prefix_of_tokenLength (h : tokens.tokenLength text = 0) (hmark : mark ∈ tokens.marks)
    (hc : tokens.body c = true) : ¬ mark ++ [c] <+: text := by
  intro hprefix
  obtain ⟨rest, rfl⟩ := hprefix
  have hfound : (tokens.markOf? (mark ++ [c] ++ rest)).isSome = true := by
    rw [markOf?, List.find?_isSome]
    refine ⟨mark, hmark, ?_⟩
    simp [hc]
  obtain ⟨found, hfind⟩ := Option.isSome_iff_exists.mp hfound
  have hne := tokens.mark_ne_nil found (List.mem_of_find?_eq_some hfind)
  rw [tokenLength, hfind] at h
  exact hne (List.eq_nil_of_length_eq_zero (Nat.eq_zero_of_add_eq_zero h).1)

/-- What is left of a word of body characters stood in the text as it is. -/
theorem prefix_of_redactFrom (hword : ∀ c ∈ word, tokens.body c = true)
    (h : word <+: tokens.redactFrom 0 text) : word <+: text := by
  induction text generalizing word with
  | nil => exact h
  | cons c rest ih =>
    cases word with
    | nil => exact List.nil_prefix
    | cons d word =>
      rw [redactFrom] at h
      split at h
      · obtain ⟨rfl, htail⟩ := List.cons_prefix_cons.mp h
        exact List.cons_prefix_cons.mpr
          ⟨rfl, ih (fun e he => hword e (List.mem_cons_of_mem _ he)) htail⟩
      · -- the placeholder begins otherwise
        obtain ⟨p, hp, hbody⟩ := tokens.placeholder_opens
        obtain ⟨others, hplaceholder⟩ := List.head?_eq_some_iff.mp hp
        rw [hplaceholder, List.cons_append] at h
        obtain ⟨rfl, -⟩ := List.cons_prefix_cons.mp h
        cases hbody.symm.trans (hword d List.mem_cons_self)

/-- No token is left. -/
theorem not_holds_redactFrom : ¬ tokens.Holds (tokens.redactFrom skip text) := by
  induction text generalizing skip with
  | nil =>
    rintro ⟨mark, -, c, -, h⟩
    simp [redactFrom] at h
  | cons c rest ih =>
    cases skip with
    | succ skip => exact ih
    | zero =>
      rw [redactFrom]
      split
      · rename_i hnone
        rintro ⟨mark, hmark, d, hd, h⟩
        rcases List.infix_cons_iff.mp h with hprefix | hlater
        · have hsame : mark ++ [d] <+: c :: rest := by
            obtain ⟨e, mark', rfl⟩ := List.exists_cons_of_ne_nil (tokens.mark_ne_nil mark hmark)
            obtain ⟨rfl, htail⟩ := List.cons_prefix_cons.mp hprefix
            refine List.cons_prefix_cons.mpr ⟨rfl, prefix_of_redactFrom (fun f hf => ?_) htail⟩
            exact body_of_mem hmark hd f (List.mem_cons_of_mem _ hf)
          exact not_prefix_of_tokenLength hnone hmark hd hsame
        · exact ih ⟨mark, hmark, d, hd, hlater⟩
      · rintro ⟨mark, hmark, d, hd, h⟩
        obtain ⟨e, mark', rfl⟩ := List.exists_cons_of_ne_nil (tokens.mark_ne_nil mark hmark)
        have hapart := tokens.placeholder_apart _ hmark e rfl
        rw [List.cons_append, Substrings.cons_infix_append_iff hapart] at h
        exact ih ⟨e :: mark', hmark, d, hd, h⟩

theorem not_holds_redact (text : List α) : ¬ tokens.Holds (tokens.redact text) :=
  not_holds_redactFrom

end Tokens

end Redaction
