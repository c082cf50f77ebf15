import ReviewAgent.Effects.Machine
import ReviewAgent.Effects.Steps

/-! The moves of the environment between one operation of a program and the next. -/
namespace Effects.Machine

variable {S : Signature} {σ χ μ ε α : Type} {M : Machine S σ χ μ} {i : ℕ} {w w' : σ}
  {es es' : List (Event χ μ)}

def Event.movement : Event χ μ → Option μ
  | .act _ => none
  | .move m => some m

/-- The moves of a run. -/
def moves (es : List (Event χ μ)) : List μ := es.filterMap Event.movement

/-- The moves after `n` operations and before the next. -/
def between : ℕ → List (Event χ μ) → List μ
  | _, [] => []
  | 0, .move m :: es => m :: between 0 es
  | 0, .act _ :: _ => []
  | n + 1, .move _ :: es => between (n + 1) es
  | n + 1, .act _ :: es => between n es

/-- A run that finishes performs the pending operation, after some moves. -/
theorem run_step_done {op : S.Op} {next : S.Answer op → Program S ε α} {r : Except ε α}
    (h : M.run i w (.step op next) es = some (w', .done r)) :
    ∃ v c v' answer rest, steps M.move w (between 0 es) = some v ∧
      M.perform i v op c = some (v', answer) ∧
      M.run i v' (next answer) rest = some (w', .done r) ∧
      (∀ n, between (n + 1) es = between n rest) ∧ moves es = between 0 es ++ moves rest := by
  induction es generalizing w with
  | nil => simp [run] at h
  | cons e es ih =>
    cases e with
    | move m =>
      simp only [run] at h
      cases hm : M.move w m with
      | none => simp [hm] at h
      | some u =>
        rw [hm] at h
        obtain ⟨v, c, v', answer, rest, hv, hc, hrest, hbetween, hmoves⟩ := ih h
        refine ⟨v, c, v', answer, rest, ?_, hc, hrest, hbetween, ?_⟩
        · simpa [between, steps, hm] using hv
        · simpa [between, moves, Event.movement] using hmoves
    | act c =>
      simp only [run] at h
      cases hc : M.perform i w op c with
      | none => simp [hc] at h
      | some x =>
        rw [hc] at h
        exact ⟨w, c, x.1, x.2, es, rfl, hc, h, fun _ => rfl, rfl⟩

/-- Once a program is done, only the environment moves. -/
theorem run_done_result {r r' : Except ε α}
    (h : M.run i w (.done r : Program S ε α) es = some (w', .done r')) : r' = r := by
  induction es generalizing w with
  | nil =>
    have hsame : w = w' ∧ r = r' := by simpa [run] using h
    exact hsame.2.symm
  | cons e es ih =>
    cases e with
    | move m =>
      simp only [run] at h
      cases hm : M.move w m with
      | none => simp [hm] at h
      | some u =>
        rw [hm] at h
        exact ih h
    | act c => simp [run] at h

/-- The first part of a run is a run. -/
theorem run_of_append {p : Program S ε α} {x : σ × Program S ε α}
    (h : M.run i w p (es ++ es') = some x) : ∃ y, M.run i w p es = some y := by
  induction es generalizing w p with
  | nil => exact ⟨(w, p), by simp [run]⟩
  | cons e es ih =>
    cases e with
    | move m =>
      simp only [List.cons_append, run] at h ⊢
      cases hm : M.move w m with
      | none => simp [hm] at h
      | some u =>
        rw [hm] at h
        exact ih h
    | act c =>
      cases p with
      | done r => simp [run] at h
      | step op next =>
        simp only [List.cons_append, run] at h ⊢
        cases hc : M.perform i w op c with
        | none => simp [hc] at h
        | some y =>
          rw [hc] at h
          exact ih h

end Effects.Machine
