import Mathlib.Algebra.BigOperators.Group.List.Basic
import Mathlib.Algebra.Order.Ring.Int

/-! Choosing from a list, in its order, whatever still fits in a budget. -/
namespace GreedyFit

variable {α : Type}

/-- Each item with the choice made of it, after `used` has been spent. -/
def choices (size : α → ℕ) (budget : ℤ) (used : ℕ) : List α → List (α × Bool)
  | [] => []
  | a :: as =>
    if budget < used + size a then (a, false) :: choices size budget used as
    else (a, true) :: choices size budget (used + size a) as

/-- The items chosen. -/
def chosen (picks : List (α × Bool)) : List α := (picks.filter Prod.snd).map Prod.fst

/-- What the items chosen spend. -/
def load (size : α → ℕ) (picks : List (α × Bool)) : ℕ := ((chosen picks).map size).sum

variable {size : α → ℕ} {budget : ℤ} {used : ℕ} {a : α} {as : List α} {b : Bool}
  {before after picks : List (α × Bool)}

@[simp] theorem chosen_nil : chosen ([] : List (α × Bool)) = [] := rfl

@[simp] theorem chosen_cons_true : chosen ((a, true) :: picks) = a :: chosen picks := rfl

@[simp] theorem chosen_cons_false : chosen ((a, false) :: picks) = chosen picks := rfl

@[simp] theorem load_nil : load size [] = 0 := rfl

@[simp] theorem load_cons_true : load size ((a, true) :: picks) = size a + load size picks := rfl

@[simp] theorem load_cons_false : load size ((a, false) :: picks) = load size picks := rfl

theorem map_fst_choices : (choices size budget used as).map Prod.fst = as := by
  induction as generalizing used with
  | nil => rfl
  | cons a as ih =>
    unfold choices
    split
    · rw [List.map_cons, ih]
    · rw [List.map_cons, ih]

theorem chosen_sublist : (chosen picks).Sublist (picks.map Prod.fst) :=
  List.filter_sublist.map Prod.fst

/-- An item is passed over exactly if it does not fit in what the items chosen before it leave. -/
theorem choice_iff (h : choices size budget used as = before ++ (a, b) :: after) :
    b = false ↔ budget < used + load size before + size a := by
  induction as generalizing used before with
  | nil => simp [choices] at h
  | cons a' as ih =>
    unfold choices at h
    cases before with
    | nil =>
      split at h
      · rename_i hfits
        cases h
        simpa using hfits
      · rename_i hfits
        cases h
        simpa using hfits
    | cons pick before =>
      split at h
      · obtain ⟨rfl, hrest⟩ := List.cons.inj h
        rw [ih hrest, load_cons_false]
      · obtain ⟨rfl, hrest⟩ := List.cons.inj h
        rw [ih hrest, load_cons_true]
        push_cast
        rw [add_assoc (used : ℤ)]

/-- What is chosen fits, unless it is nothing. -/
theorem load_le (h : chosen (choices size budget used as) ≠ []) :
    used + load size (choices size budget used as) ≤ budget := by
  induction as generalizing used with
  | nil => exact absurd rfl h
  | cons a as ih =>
    unfold choices at h ⊢
    split
    · rename_i hfits
      rw [if_pos hfits] at h
      exact ih h
    · rename_i hfits
      rw [load_cons_true]
      by_cases hrest : chosen (choices size budget (used + size a) as) = []
      · rw [load, hrest, List.map_nil, List.sum_nil]
        push_cast
        omega
      · have := ih hrest
        push_cast at this ⊢
        omega

/-- Nothing is chosen exactly if no item fits alone. -/
theorem chosen_eq_nil_iff :
    chosen (choices size budget used as) = [] ↔ ∀ a ∈ as, budget < used + size a := by
  induction as generalizing used with
  | nil => simp [choices]
  | cons a as ih =>
    rw [List.forall_mem_cons]
    unfold choices
    split
    · rename_i hfits
      rw [chosen_cons_false, ih, and_iff_right hfits]
    · rename_i hfits
      simp [hfits]

end GreedyFit
