import Mathlib.Data.List.Basic
import Mathlib.Data.Nat.Notation
import Mathlib.Tactic.Ring

/-! A list read page by page until a page is not full. -/
namespace Paging

variable {α : Type} {size k : ℕ} {items batch l : List α} {batches : List (ℕ × List α)}

/-- Page `n` of a list; the first page is page 1. -/
def page (size n : ℕ) (l : List α) : List α := (l.drop ((n - 1) * size)).take size

/-- The first `k` pages were full, and `items` is all of them; the batches come newest first. -/
inductive Collected (size : ℕ) : ℕ → List α → List (ℕ × List α) → Prop
  | start : Collected size 0 [] []
  | full {k : ℕ} {items batch : List α} {batches : List (ℕ × List α)} :
      Collected size k items batches → size ≤ batch.length →
        Collected size (k + 1) (items ++ batch) ((k + 1, batch) :: batches)

theorem Collected.length (h : Collected size k items batches)
    (hle : ∀ b ∈ batches, b.2.length ≤ size) : items.length = k * size := by
  induction h with
  | start => simp
  | @full k items batch batches _ hbatch ih =>
    have hsize : batch.length = size :=
      le_antisymm (hle (k + 1, batch) List.mem_cons_self) hbatch
    rw [List.length_append, ih fun b hb => hle b (List.mem_cons_of_mem _ hb), hsize]
    ring

/-- Pages of a list make up its beginning. -/
theorem Collected.eq_take (h : Collected size k items batches)
    (hall : ∀ b ∈ batches, b.2 = page size b.1 l) : items = l.take (k * size) := by
  induction h with
  | start => simp
  | @full k items batch batches _ _ ih =>
    have hbatch : batch = (l.drop (k * size)).take size := hall (k + 1, batch) List.mem_cons_self
    have hitems := ih fun b hb => hall b (List.mem_cons_of_mem _ hb)
    rw [hitems, hbatch, Nat.add_mul, Nat.one_mul, List.take_add]

theorem Collected.pages (h : Collected size k items batches)
    (hle : ∀ b ∈ batches, b.2.length ≤ size) {rest : List α}
    (hl : l = items ++ rest) : ∀ b ∈ batches, b.2 = page size b.1 l := by
  induction h generalizing rest with
  | start => simp
  | @full k items batch batches hcollected hbatch ih =>
    have hle' : ∀ b ∈ batches, b.2.length ≤ size := fun b hb => hle b (List.mem_cons_of_mem _ hb)
    have hsize : batch.length = size :=
      le_antisymm (hle (k + 1, batch) List.mem_cons_self) hbatch
    intro b hb
    rcases List.mem_cons.mp hb with rfl | hb
    · simp only [page, Nat.add_sub_cancel, hl, List.append_assoc, ← hcollected.length hle']
      simp [← hsize]
    · exact ih hle' (hl.trans (List.append_assoc _ _ _)) b hb

/-- What was read up to a page that is not full is the list exactly when every batch was the
list's page. -/
theorem Collected.complete_iff (h : Collected size k items batches)
    (hle : ∀ b ∈ batches, b.2.length ≤ size) (hbatch : batch.length < size) :
    items ++ batch = l ↔ ∀ b ∈ (k + 1, batch) :: batches, b.2 = page size b.1 l := by
  constructor
  · rintro rfl b hb
    rcases List.mem_cons.mp hb with rfl | hb
    · simp only [page, Nat.add_sub_cancel, ← h.length hle]
      simp [List.take_of_length_le hbatch.le]
    · exact h.pages hle rfl b hb
  · intro hall
    have hlast : batch = (l.drop (k * size)).take size := hall _ List.mem_cons_self
    have hitems := h.eq_take fun b hb => hall b (List.mem_cons_of_mem _ hb)
    have hrest : (l.drop (k * size)).take size = l.drop (k * size) := by
      apply List.take_of_length_le
      rw [hlast, List.length_take] at hbatch
      omega
    rw [hitems, hlast, hrest, List.take_append_drop]

end Paging
