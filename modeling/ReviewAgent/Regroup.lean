import Mathlib.Algebra.BigOperators.Group.List.Basic
import Mathlib.Algebra.GroupWithZero.Nat
import Mathlib.Data.List.Dedup

/-! Grouping rows by a key: totals of groups, regrouped totals, and the sorted list of groups. -/
namespace Regroup

variable {α β φ κ : Type} [DecidableEq φ] [DecidableEq κ]

/-- The rows with key `k`. -/
def group (key : α → κ) (k : κ) (rows : List α) : List α := rows.filter fun r => key r = k

def total (f : α → ℕ) (rows : List α) : ℕ := (rows.map f).sum

/-- One summary for each key that occurs, in the order `le` of the keys. -/
def aggregate (le : κ → κ → Bool) (key : α → κ) (summary : κ → List α → β) (rows : List α) :
    List β :=
  (((rows.map key).dedup).mergeSort le).map fun k => summary k (group key k rows)

variable {f : α → ℕ} {rows rows' : List α} {ks : List κ} {key : α → κ} {le : κ → κ → Bool}

@[simp] theorem total_cons (r : α) : total f (r :: rows) = f r + total f rows := rfl

theorem total_one : total (fun _ => 1) rows = rows.length := by
  simp [total]

theorem total_filter_or {P Q : α → Bool} (h : ∀ r ∈ rows, P r = true → Q r = false) :
    total f (rows.filter P) + total f (rows.filter Q) =
      total f (rows.filter fun r => P r || Q r) := by
  induction rows with
  | nil => rfl
  | cons r rows ih =>
    have ih := ih fun x hx => h x (List.mem_cons_of_mem r hx)
    have hr := h r List.mem_cons_self
    cases hp : P r with
    | true => simp [hp, hr hp, ← ih]; omega
    | false => cases hq : Q r <;> simp [hp, hq, ← ih]; omega

theorem total_filter_add_not (P : α → Bool) :
    total f (rows.filter P) + total f (rows.filter fun r => !P r) = total f rows := by
  rw [total_filter_or]
  · simp
  · intro r _ hr
    rw [hr]
    rfl

/-- The totals of some groups add up to the total of the rows in them. -/
theorem total_groups (hks : ks.Nodup) : (ks.map fun k => total f (group key k rows)).sum =
    total f (rows.filter fun r => decide (key r ∈ ks)) := by
  induction ks with
  | nil => simp [total]
  | cons k ks ih =>
    obtain ⟨hk, hks⟩ := List.nodup_cons.mp hks
    rw [List.map_cons, List.sum_cons, ih hks, group, total_filter_or]
    · congr 1
      refine List.filter_congr fun r _ => ?_
      simp
    · intro r _ hr
      simp only [decide_eq_true_eq] at hr
      simpa [hr] using hk

/-- Totals of fine groups, added up over the fine keys that `P` selects. -/
theorem total_regroup (fine : α → φ) (P : φ → Bool) :
    ((((rows.map fine).dedup).filter P).map fun b => total f (group fine b rows)).sum =
      total f (rows.filter fun r => P (fine r)) := by
  rw [total_groups ((List.nodup_dedup _).filter _)]
  congr 1
  refine List.filter_congr fun r hr => ?_
  have hmem : fine r ∈ (rows.map fine).dedup := by
    rw [List.mem_dedup]
    exact List.mem_map_of_mem hr
  simp [List.mem_filter, hmem]

/-- The sizes of all groups add up to the number of rows. -/
theorem sum_aggregate {size : β → ℕ} {summary : κ → List α → β}
    (hsize : ∀ k rows, size (summary k rows) = total f rows) :
    ((aggregate le key summary rows).map size).sum = total f rows := by
  have hmap : (aggregate le key summary rows).map size =
      (((rows.map key).dedup).mergeSort le).map fun k => total f (group key k rows) := by
    simp [aggregate, hsize, Function.comp_def]
  rw [hmap, total_groups ((List.mergeSort_perm _ _).nodup_iff.mpr (List.nodup_dedup _))]
  congr 1
  rw [List.filter_eq_self]
  intro r hr
  simp only [List.mem_mergeSort, List.mem_dedup, decide_eq_true_eq]
  exact List.mem_map_of_mem hr

/-- The sorted keys depend only on which keys occur. -/
theorem sorted_keys_congr {l l' : List κ} (hanti : ∀ a b, le a b = true → le b a = true → a = b)
    (htrans : ∀ a b c, le a b = true → le b c = true → le a c = true)
    (htotal : ∀ a b, (le a b || le b a) = true) (h : ∀ k, k ∈ l ↔ k ∈ l') :
    l.dedup.mergeSort le = l'.dedup.mergeSort le := by
  refine List.Perm.eq_of_pairwise (fun a b _ _ => hanti a b)
    (List.pairwise_mergeSort htrans htotal _) (List.pairwise_mergeSort htrans htotal _) ?_
  refine ((List.mergeSort_perm _ _).trans ?_).trans (List.mergeSort_perm _ _).symm
  exact (List.perm_ext_iff_of_nodup (List.nodup_dedup _) (List.nodup_dedup _)).mpr (by simpa using h)

/-- Two aggregations over the same keys, with the same summaries, give the same list. -/
theorem aggregate_congr {γ : Type} {key' : γ → κ} {rows' : List γ} {summary : κ → List α → β}
    {summary' : κ → List γ → β} (hanti : ∀ a b, le a b = true → le b a = true → a = b)
    (htrans : ∀ a b c, le a b = true → le b c = true → le a c = true)
    (htotal : ∀ a b, (le a b || le b a) = true)
    (hkeys : ∀ k, k ∈ rows.map key ↔ k ∈ rows'.map key')
    (hsummary : ∀ k ∈ rows.map key,
      summary k (group key k rows) = summary' k (group key' k rows')) :
    aggregate le key summary rows = aggregate le key' summary' rows' := by
  rw [aggregate, aggregate, ← sorted_keys_congr hanti htrans htotal hkeys]
  refine List.map_congr_left fun k hk => hsummary k ?_
  simpa using hk

end Regroup
