import Mathlib.Algebra.Order.Monoid.Defs
import Mathlib.Data.Multiset.Lattice

/-! A queue served in order by several servers. -/
namespace ServerQueue

variable {ι τ : Type} [LinearOrder τ] [OrderTop τ] [AddCommMonoid τ]

/-- The servers, given by when each is free, once the first of them has taken on `work`. -/
def assign (free : Multiset τ) (work : τ) : Multiset τ :=
  (free.inf + work) ::ₘ free.erase free.inf

/-- The entries of a queue, each with the time at which a server takes it. -/
def schedule (work : ι → τ) : Multiset τ → List ι → List (ι × τ)
  | _, [] => []
  | free, entry :: queue => (entry, free.inf) :: schedule work (assign free (work entry)) queue

/-- When a server takes the entry that comes next. -/
def nextStart (work : ι → τ) (free : Multiset τ) (queue : List ι) : τ :=
  (queue.foldl (fun free entry => assign free (work entry)) free).inf

variable {work : ι → τ} {free : Multiset τ} {queue : List ι} {entry : ι} {a start : τ}

/-- A new entry changes nothing for those before it. -/
theorem schedule_concat : schedule work free (queue ++ [entry]) =
    schedule work free queue ++ [(entry, nextStart work free queue)] := by
  induction queue generalizing free with
  | nil => rfl
  | cons first queue ih =>
    rw [List.cons_append, schedule, ih]
    rfl

theorem exists_of_mem (h : entry ∈ queue) : ∃ start, (entry, start) ∈ schedule work free queue := by
  induction queue generalizing free with
  | nil => cases h
  | cons first queue ih =>
    rcases List.mem_cons.mp h with rfl | hrest
    · exact ⟨free.inf, by simp [schedule]⟩
    · obtain ⟨start, hstart⟩ := @ih (assign free (work first)) hrest
      exact ⟨start, List.mem_cons_of_mem _ hstart⟩

omit [AddCommMonoid τ] in
/-- The first server to be free. -/
theorem inf_eq (h : a ∈ free) (hle : ∀ b ∈ free, a ≤ b) : free.inf = a :=
  le_antisymm (Multiset.inf_le h) (Multiset.le_inf.mpr hle)

theorem inf_le_inf_assign [IsOrderedAddMonoid τ] {amount : τ} (h : 0 ≤ amount) :
    free.inf ≤ (assign free amount).inf := by
  rw [assign, Multiset.inf_cons, le_inf_iff]
  refine ⟨le_add_of_nonneg_right h, Multiset.le_inf.mpr fun b hb => ?_⟩
  exact Multiset.inf_le (Multiset.mem_of_mem_erase hb)

/-- No entry is taken before a server is free. -/
theorem inf_le_start [IsOrderedAddMonoid τ] (hwork : ∀ entry, 0 ≤ work entry)
    (h : (entry, start) ∈ schedule work free queue) : free.inf ≤ start := by
  induction queue generalizing free with
  | nil => cases h
  | cons first queue ih =>
    rcases List.mem_cons.mp h with hfirst | hrest
    · exact (Prod.mk.inj hfirst).2.ge
    · exact (inf_le_inf_assign (hwork first)).trans (ih hrest)

end ServerQueue
