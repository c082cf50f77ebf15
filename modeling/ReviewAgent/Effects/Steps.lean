import Mathlib.Data.Nat.Notation

/-! Runs of a machine that takes one labelled step at a time. -/
namespace Effects

variable {σ α : Type}

/-- The state a list of steps leads to; `none` marks a step that cannot be taken. -/
def steps (step : σ → α → Option σ) : σ → List α → Option σ
  | s, [] => some s
  | s, a :: as => (step s a).bind fun s' => steps step s' as

/-- Every step of a run meets `C`, which sees the state before it and the state after it. -/
def EveryStep (step : σ → α → Option σ) (C : σ → α → σ → Prop) : σ → List α → Prop
  | _, [] => True
  | s, a :: as => ∀ s', step s a = some s' → C s a s' ∧ EveryStep step C s' as

variable {step : σ → α → Option σ} {C D : σ → α → σ → Prop} {I : σ → Prop} {s s' : σ}
  {as : List α}

instance decidableEveryStep [∀ s a s', Decidable (C s a s')] :
    ∀ (s : σ) (as : List α), Decidable (EveryStep step C s as)
  | _, [] => isTrue trivial
  | s, a :: as =>
    match h : step s a with
    | none => isTrue fun s' hs => by simp [h] at hs
    | some s' =>
      have : Decidable (EveryStep step C s' as) := decidableEveryStep s' as
      decidable_of_iff (C s a s' ∧ EveryStep step C s' as)
        ⟨fun hc t ht => (Option.some.inj (h.symm.trans ht)) ▸ hc, fun hc => hc s' h⟩

/-- Every run meets a condition that asks nothing. -/
theorem everyStep_true (step : σ → α → Option σ) (s : σ) (as : List α) :
    EveryStep step (fun _ _ _ => True) s as := by
  induction as generalizing s with
  | nil => trivial
  | cons a as ih => exact fun t _ => ⟨trivial, ih t⟩

theorem EveryStep.and (hc : EveryStep step C s as) (hd : EveryStep step D s as) :
    EveryStep step (fun s a s' => C s a s' ∧ D s a s') s as := by
  induction as generalizing s with
  | nil => trivial
  | cons a as ih =>
    intro t ht
    obtain ⟨hca, hcs⟩ := hc t ht
    obtain ⟨hda, hds⟩ := hd t ht
    exact ⟨⟨hca, hda⟩, ih hcs hds⟩

/-- The last step of a run meets what every step meets. -/
theorem EveryStep.last {t t' : σ} {a : α} (h : EveryStep step C s (as ++ [a]))
    (hrun : steps step s as = some t) (ht : step t a = some t') : C t a t' := by
  induction as generalizing s with
  | nil =>
    obtain rfl := Option.some.inj hrun
    exact (h t' ht).1
  | cons b bs ih =>
    obtain ⟨u, hu, hrest⟩ := Option.bind_eq_some_iff.mp hrun
    exact ih (h u hu).2 hrest

/-- What the steps that meet `C` preserve holds at the end of a run of them. -/
theorem steps_invariant (hstep : ∀ s a s', I s → C s a s' → step s a = some s' → I s')
    (hi : I s) (hc : EveryStep step C s as) (h : steps step s as = some s') : I s' := by
  induction as generalizing s with
  | nil => exact Option.some.inj h ▸ hi
  | cons a as ih =>
    obtain ⟨t, ht, hrest⟩ := Option.bind_eq_some_iff.mp h
    obtain ⟨hca, hcs⟩ := hc t ht
    exact ih (hstep s a t hi hca ht) hcs hrest

theorem steps_append {as bs : List α} :
    steps step s (as ++ bs) = (steps step s as).bind fun s' => steps step s' bs := by
  induction as generalizing s with
  | nil => rfl
  | cons a as ih =>
    simp only [List.cons_append, steps, Option.bind_assoc]
    exact Option.bind_congr fun t _ => ih

/-- An invariant that also sees the steps taken so far. -/
theorem steps_history {I : List α → σ → Prop}
    (hstep : ∀ past s a s', I past s → C s a s' → step s a = some s' → I (past ++ [a]) s')
    (hi : I [] s) (hc : EveryStep step C s as) (h : steps step s as = some s') : I as s' := by
  suffices ∀ past, I past s → I (past ++ as) s' from this [] hi
  intro past hpast
  clear hi
  induction as generalizing s past with
  | nil => simpa using Option.some.inj h ▸ hpast
  | cons a as ih =>
    obtain ⟨t, ht, hrest⟩ := Option.bind_eq_some_iff.mp h
    obtain ⟨hca, hcs⟩ := hc t ht
    have := ih hcs hrest (past ++ [a]) (hstep past s a t hpast hca ht)
    simpa using this

/-- Two conditions that agree at every step from a state with the invariant, which the steps that
meet the first preserve, hold of the same runs. -/
theorem everyStep_iff (hstep : ∀ s a s', I s → C s a s' → step s a = some s' → I s')
    (hagree : ∀ s a s', I s → step s a = some s' → (C s a s' ↔ D s a s')) (hi : I s) :
    EveryStep step C s as ↔ EveryStep step D s as := by
  induction as generalizing s with
  | nil => rfl
  | cons a as ih =>
    refine forall_congr' fun t => forall_congr' fun ht => ?_
    rw [← hagree s a t hi ht]
    exact and_congr_right fun hc => ih (hstep s a t hi hc ht)

end Effects
