import Mathlib.Algebra.BigOperators.Group.List.Basic
import Mathlib.Data.List.Nodup
import Mathlib.Order.Lattice

/-! Dictionaries that keep their keys in the order in which these came. -/
namespace InsertionDict

variable {κ ν : Type}

section

variable [DecidableEq κ]

/-- The entries with the value of a key set: in its place, or at the end. -/
def setEntry (k : κ) (v : ν) : List (κ × ν) → List (κ × ν)
  | [] => [(k, v)]
  | entry :: entries =>
    if entry.1 = k then (k, v) :: entries else entry :: setEntry k v entries

theorem map_fst_setEntry (k : κ) (v : ν) (entries : List (κ × ν)) :
    (setEntry k v entries).map Prod.fst =
      if k ∈ entries.map Prod.fst then entries.map Prod.fst else entries.map Prod.fst ++ [k] := by
  induction entries with
  | nil => simp [setEntry]
  | cons entry entries ih =>
    by_cases hk : entry.1 = k
    · simp [setEntry, hk]
    · by_cases hmem : k ∈ entries.map Prod.fst
      · simp [setEntry, hk, ih, hmem]
      · simp [setEntry, hk, ih, hmem, Ne.symm hk]

theorem lookup_setEntry (k k' : κ) (v : ν) (entries : List (κ × ν)) :
    (setEntry k v entries).lookup k' = if k' = k then some v else entries.lookup k' := by
  induction entries with
  | nil =>
    by_cases hk : k' = k
    · simp [setEntry, hk]
    · simp [setEntry, hk]
  | cons entry entries ih =>
    obtain ⟨k₀, v₀⟩ := entry
    by_cases hk₀ : k₀ = k
    · subst hk₀
      by_cases hk : k' = k₀
      · simp [setEntry, hk]
      · simp [setEntry, List.lookup_cons, hk, beq_false_of_ne hk]
    · by_cases hk : k' = k₀
      · subst hk
        simp [setEntry, hk₀]
      · simp [setEntry, hk₀, List.lookup_cons, beq_false_of_ne hk, ih]

theorem setEntry_of_mem {k : κ} {v : ν} {entries : List (κ × ν)}
    (hnodup : (entries.map Prod.fst).Nodup) (hk : k ∈ entries.map Prod.fst) :
    setEntry k v entries = entries.map fun entry => if entry.1 = k then (k, v) else entry := by
  induction entries with
  | nil => cases hk
  | cons entry entries ih =>
    rw [List.map_cons, List.nodup_cons] at hnodup
    by_cases hfirst : entry.1 = k
    · have hrest : ∀ entry' ∈ entries, entry'.1 ≠ k := by
        rintro entry' hentry' rfl
        exact hnodup.1 (hfirst ▸ List.mem_map_of_mem hentry')
      have hsame : (entries.map fun entry => if entry.1 = k then (k, v) else entry) = entries :=
        (List.map_congr_left fun entry' hentry' => if_neg (hrest entry' hentry')).trans
          (List.map_id _)
      rw [setEntry, if_pos hfirst, List.map_cons, if_pos hfirst, hsame]
    · have hin : k ∈ entries.map Prod.fst := (List.mem_cons.mp hk).resolve_left (Ne.symm hfirst)
      rw [setEntry, if_neg hfirst, List.map_cons, if_neg hfirst, ih hnodup.2 hin]

theorem setEntry_of_notMem {k : κ} {v : ν} {entries : List (κ × ν)}
    (hk : k ∉ entries.map Prod.fst) : setEntry k v entries = entries ++ [(k, v)] := by
  induction entries with
  | nil => rfl
  | cons entry entries ih =>
    rw [List.map_cons, List.mem_cons, not_or] at hk
    rw [setEntry, if_neg (Ne.symm hk.1), ih hk.2, List.cons_append]

end

/-- A dictionary. -/
@[ext] structure Dict (κ ν : Type) where
  entries : List (κ × ν)
  nodup_keys : (entries.map Prod.fst).Nodup

namespace Dict

def empty : Dict κ ν := ⟨[], List.nodup_nil⟩

def keys (d : Dict κ ν) : List κ := d.entries.map Prod.fst

variable [DecidableEq κ]

def find (d : Dict κ ν) (k : κ) : Option ν := d.entries.lookup k

def set (d : Dict κ ν) (k : κ) (v : ν) : Dict κ ν where
  entries := setEntry k v d.entries
  nodup_keys := by
    rw [map_fst_setEntry]
    split
    · exact d.nodup_keys
    · rename_i hk
      exact List.nodup_append.mpr ⟨d.nodup_keys, List.nodup_singleton k,
        fun a ha b hb hab => hk (List.mem_singleton.mp hb ▸ hab ▸ ha)⟩

/-- The entries set one after the other. -/
def update (d : Dict κ ν) (pairs : List (κ × ν)) : Dict κ ν :=
  pairs.foldl (fun d pair => d.set pair.1 pair.2) d

variable {d : Dict κ ν} {k k' : κ} {v : ν} {pairs : List (κ × ν)}

theorem find_set : (d.set k v).find k' = if k' = k then some v else d.find k' :=
  lookup_setEntry k k' v d.entries

theorem mem_keys_iff : k ∈ d.keys ↔ (d.find k).isSome := by
  unfold keys find
  rw [List.lookup_isSome_iff]
  simp

theorem mem_keys_set : k' ∈ (d.set k v).keys ↔ k' = k ∨ k' ∈ d.keys := by
  rw [mem_keys_iff, find_set, mem_keys_iff]
  by_cases hk : k' = k <;> simp [hk]

theorem find_of_mem (h : (k, v) ∈ d.entries) : d.find k = some v := by
  obtain ⟨before, after, heq⟩ := List.append_of_mem h
  refine List.lookup_eq_some_iff.mpr ⟨before, after, heq, fun entry hentry => ?_⟩
  have hnodup := d.nodup_keys
  rw [heq, List.map_append, List.nodup_append] at hnodup
  simpa using (hnodup.2.2 entry.1 (List.mem_map_of_mem hentry) k (by simp)).symm

theorem mem_of_find (h : d.find k = some v) : (k, v) ∈ d.entries := by
  obtain ⟨before, after, heq, -⟩ := List.lookup_eq_some_iff.mp h
  rw [heq]
  exact List.mem_append_right _ List.mem_cons_self

/-- What is stored under each key is a function of the key, if it was before and is in the pairs. -/
theorem find_update {f : κ → ν} (hd : ∀ k v, d.find k = some v → v = f k)
    (hpairs : ∀ pair ∈ pairs, pair.2 = f pair.1) :
    (d.update pairs).find k =
      if k ∈ d.keys ∨ k ∈ pairs.map Prod.fst then some (f k) else none := by
  induction pairs generalizing d with
  | nil =>
    rw [update, List.foldl_nil]
    cases hfind : d.find k with
    | none => simp [mem_keys_iff, hfind]
    | some v => simp [mem_keys_iff, hfind, hd k v hfind]
  | cons pair pairs ih =>
    rw [List.forall_mem_cons] at hpairs
    have hset : ∀ k' v, (d.set pair.1 pair.2).find k' = some v → v = f k' := by
      intro k' v hfind
      rw [find_set] at hfind
      split at hfind
      · cases hfind
        rename_i hk
        rw [hk, hpairs.1]
      · exact hd k' v hfind
    show ((d.set pair.1 pair.2).update pairs).find k = _
    rw [ih hset hpairs.2]
    simp only [mem_keys_set, List.map_cons, List.mem_cons, or_assoc, or_left_comm]

section

variable {ν : Type} [AddMonoid ν] {d : Dict κ ν} {k k' : κ} {v : ν} {pairs : List (κ × ν)}

/-- The value of a key, or zero. -/
def total (d : Dict κ ν) (k : κ) : ν := (d.find k).getD 0

/-- A value added to that of a key. -/
def add (d : Dict κ ν) (k : κ) (v : ν) : Dict κ ν := d.set k (d.total k + v)

/-- The values of the pairs added one after the other. -/
def addAll (d : Dict κ ν) (pairs : List (κ × ν)) : Dict κ ν :=
  pairs.foldl (fun d pair => d.add pair.1 pair.2) d

theorem total_of_mem (h : (k, v) ∈ d.entries) : d.total k = v := by
  rw [total, find_of_mem h, Option.getD_some]

theorem total_add : (d.add k v).total k' = d.total k' + if k' = k then v else 0 := by
  unfold total add
  rw [find_set]
  by_cases hk : k' = k
  · subst hk
    simp [total]
  · simp [hk]

theorem total_addAll : (d.addAll pairs).total k =
    d.total k + (pairs.map fun pair => if k = pair.1 then pair.2 else 0).sum := by
  induction pairs generalizing d with
  | nil => simp [addAll]
  | cons pair pairs ih =>
    show ((d.add pair.1 pair.2).addAll pairs).total k = _
    rw [ih, total_add, List.map_cons, List.sum_cons, add_assoc]

theorem mem_keys_addAll : k ∈ (d.addAll pairs).keys ↔ k ∈ d.keys ∨ k ∈ pairs.map Prod.fst := by
  induction pairs generalizing d with
  | nil => simp [addAll]
  | cons pair pairs ih =>
    show k ∈ ((d.add pair.1 pair.2).addAll pairs).keys ↔ _
    rw [ih, add, mem_keys_set, List.map_cons, List.mem_cons, or_assoc, or_left_comm]

end

section

variable [LinearOrder ν]

/-- The entries, those of the greatest values first; those of equal values stay in order. -/
def descending (d : Dict κ ν) : List (κ × ν) :=
  d.entries.mergeSort fun entry entry' => entry'.2 ≤ entry.2

omit [DecidableEq κ] in
theorem descending_perm : d.descending.Perm d.entries := List.mergeSort_perm _ _

omit [DecidableEq κ] in
theorem descending_sorted : d.descending.Pairwise fun entry entry' => entry'.2 ≤ entry.2 := by
  have hsorted : d.descending.Pairwise fun entry entry' => decide (entry'.2 ≤ entry.2) := by
    apply List.pairwise_mergeSort
    · intro x y z hxy hyz
      exact decide_eq_true ((of_decide_eq_true hyz).trans (of_decide_eq_true hxy))
    · intro x y
      simpa using le_total y.2 x.2
  exact hsorted.imp of_decide_eq_true

/-- In a list sorted by descending value, a key with a greater value comes before one with a
smaller. -/
theorem idxOf_lt_of_sorted {pairs : List (κ × ν)} {value : κ → ν}
    (hvalue : ∀ pair ∈ pairs, pair.2 = value pair.1)
    (hsorted : pairs.Pairwise fun pair pair' => pair'.2 ≤ pair.2) {a b : κ}
    (ha : a ∈ pairs.map Prod.fst) (hab : value b < value a) :
    (pairs.map Prod.fst).idxOf a < (pairs.map Prod.fst).idxOf b := by
  induction pairs with
  | nil => cases ha
  | cons pair pairs ih =>
    rw [List.forall_mem_cons] at hvalue
    rw [List.pairwise_cons] at hsorted
    rw [List.map_cons]
    by_cases hfirst : pair.1 = a
    · have hb : pair.1 ≠ b := by
        rintro rfl
        exact absurd hab (hfirst ▸ lt_irrefl _)
      rw [hfirst, List.idxOf_cons_self, List.idxOf_cons_ne _ (hfirst ▸ hb)]
      exact Nat.succ_pos _
    · have hrest : a ∈ pairs.map Prod.fst :=
        (List.mem_cons.mp ha).resolve_left (Ne.symm hfirst)
      obtain ⟨pair', hpair', rfl⟩ := List.mem_map.mp hrest
      have hb : pair.1 ≠ b := by
        rintro rfl
        have hle := hsorted.1 pair' hpair'
        rw [hvalue.1, hvalue.2 pair' hpair'] at hle
        exact absurd hab (not_lt.mpr hle)
      rw [List.idxOf_cons_ne _ hfirst, List.idxOf_cons_ne _ hb]
      exact Nat.succ_lt_succ (ih hvalue.2 hsorted.2 hrest)

end

end Dict

end InsertionDict
