import ReviewAgent.Effects.Sum
import ReviewAgent.Effects.Triple

/-! What a program writes on its way, whatever the answers, and programs over two worlds. -/
namespace Effects

open Relation (ReflTransGen)

variable {S T : Signature} {σ τ χ χ' μ μ' ε α β δ : Type}

namespace Program

/-- After `ds` written so far, everything that is written meets `C`, and the program ends in `Q`. -/
def Writes (f : S.Op → Option δ) (C : δ → Prop) (Q : Except ε α → List δ → Prop) :
    List δ → Program S ε α → Prop
  | ds, .done r => Q r ds
  | ds, .step op next => (∀ d ∈ f op, C d) ∧
      ∀ answer, Writes f C Q (ds ++ (f op).toList) (next answer)

namespace Writes

variable {f : S.Op → Option δ} {C : δ → Prop} {Q R : Except ε α → List δ → Prop} {ds : List δ}
  {p : Program S ε α}

theorem andThen {k : Except ε α → Program S ε β} {Q : Except ε β → List δ → Prop}
    (hp : Writes f C R ds p) (hk : ∀ r ds', R r ds' → Writes f C Q ds' (k r)) :
    Writes f C Q ds (p.andThen k) := by
  induction p generalizing ds with
  | done r => exact hk r ds hp
  | step op next ih => exact ⟨hp.1, fun answer => ih answer (hp.2 answer)⟩

theorem bind {g : α → Program S ε β} {Q : Except ε β → List δ → Prop}
    (hp : Writes f C R ds p) (hg : ∀ a ds', R (.ok a) ds' → Writes f C Q ds' (g a))
    (he : ∀ e ds', R (.error e) ds' → Q (.error e) ds') : Writes f C Q ds (p >>= g) := by
  refine hp.andThen fun r ds' hr => ?_
  cases r with
  | ok a => exact hg a ds' hr
  | error e => exact he e ds' hr

/-- What writes nothing leaves what was written. -/
theorem of_issues (h : p.Issues fun op => f op = none) (hq : ∀ r, Q r ds) :
    Writes f C Q ds p := by
  induction p with
  | done r => exact hq r
  | step op next ih =>
    have hop : f op = none := h.1
    refine ⟨?_, fun answer => ?_⟩
    · simp [hop]
    · rw [hop, Option.toList_none, List.append_nil]
      exact ih answer (h.2 answer)

/-- A part that writes nothing, and what follows it. -/
theorem bind_of_issues {g : α → Program S ε β} {Q : Except ε β → List δ → Prop}
    (hp : p.Issues fun op => f op = none) (hg : ∀ a, Writes f C Q ds (g a))
    (he : ∀ e, Q (.error e) ds) : Writes f C Q ds (p >>= g) := by
  apply bind (R := fun _ ds' => ds' = ds) (of_issues hp fun _ => rfl)
  · rintro a _ rfl
    exact hg a
  · rintro e _ rfl
    exact he e

/-- A value that is there or raises, and what follows it. -/
theorem ofExcept {r : Except ε α} {g : α → Program S ε β} {Q : Except ε β → List δ → Prop}
    (hg : ∀ a, r = .ok a → Writes f C Q ds (g a)) (he : ∀ e, Q (.error e) ds) :
    Writes f C Q ds (Program.ofExcept r >>= g) := by
  cases r with
  | ok a => exact hg a rfl
  | error e => exact he e

theorem relabel {f : T.Op → Option δ} {Q : Except ε α → List δ → Prop} {g : S.Op → T.Op}
    {read : ∀ op, T.Answer (g op) → S.Answer op}
    (h : Writes (fun op => f (g op)) C Q ds p) : Writes f C Q ds (p.relabel g read) := by
  induction p generalizing ds with
  | done r => exact h
  | step op next ih => exact ⟨h.1, fun answer => ih _ (h.2 _)⟩

theorem right {f : (S.sum T).Op → Option δ} {p : Program T ε α}
    (h : Writes (fun op => f (.inr op)) C Q ds p) :
    Writes f C Q ds (p.right : Program (S.sum T) ε α) := by
  induction p generalizing ds with
  | done r => exact h
  | step op next ih => exact ⟨h.1, fun answer => ih answer (h.2 answer)⟩

/-- What was written when every operation is answered as given. -/
theorem issued (h : Writes f C Q ds p) (answers : (op : S.Op) → S.Answer op) :
    Q (p.outcome answers) (ds ++ (p.issued answers).filterMap f) := by
  induction p generalizing ds with
  | done r =>
    have hr : Q r ds := h
    simpa [outcome, Program.issued] using hr
  | step op next ih =>
    have hnext := ih _ (h.2 (answers op))
    cases hop : f op with
    | none => simpa [outcome, Program.issued, hop] using hnext
    | some d => simpa [outcome, Program.issued, hop] using hnext

end Writes

end Program

/-- Two machines side by side. -/
def Machine.sum (M : Machine S σ χ μ) (N : Machine T τ χ' μ') :
    Machine (S.sum T) (σ × τ) (χ ⊕ χ') (μ ⊕ μ') where
  perform i w
    | .inl op, .inl c => (M.perform i w.1 op c).map fun r => ((r.1, w.2), r.2)
    | .inr op, .inr c => (N.perform i w.2 op c).map fun r => ((w.1, r.1), r.2)
    | _, _ => none
  move w
    | .inl m => (M.move w.1 m).map fun w₁ => (w₁, w.2)
    | .inr m => (N.move w.2 m).map fun w₂ => (w.1, w₂)

namespace Triple

variable {M : Machine S σ χ μ} {N : Machine T τ χ' μ'} {i : ℕ} {p : Program S ε α}

/-- Steps that keep what is asserted of the writes so far, by what they write. -/
theorem of_writes {f : S.Op → Option δ} {C : δ → Prop} {Q : Except ε α → List δ → Prop}
    {K : Contract σ} {A : List δ → σ → Prop} {ds : List δ}
    (hs : ∀ ds, Stable K.rely (A ds))
    (hstep : ∀ ds w op c w' answer, (∀ d ∈ f op, C d) → A ds w →
      M.perform i w op c = some (w', answer) → K.guarantee w w' ∧ A (ds ++ (f op).toList) w')
    (h : p.Writes f C Q ds) :
    Triple M i K (A ds) p fun r w => ∃ ds', Q r ds' ∧ A ds' w := by
  induction p generalizing ds with
  | done r => exact Triple.done (hs ds) fun w hw => ⟨ds, h, hw⟩
  | step op next ih =>
    apply Triple.step (A := fun _ => A (ds ++ (f op).toList)) (hs ds)
    · exact fun w c w' answer => hstep ds w op c w' answer h.1
    · exact fun answer => ih answer (h.2 answer)

/-- A triple about the first of two worlds, next to an assertion about the second. -/
theorem left {K₁ : Contract σ} {K : Contract (σ × τ)} {P : σ → Prop}
    {Q : Except ε α → σ → Prop} {F : τ → Prop}
    (hrely : ∀ x x', K.rely x x' → K₁.rely x.1 x'.1 ∧ (F x.2 → F x'.2))
    (hguarantee : ∀ w w' v, K₁.guarantee w w' → K.guarantee (w, v) (w', v))
    (h : Triple M i K₁ P p Q) :
    Triple (M.sum N) i K (fun x => P x.1 ∧ F x.2) p.left fun r x => Q r x.1 ∧ F x.2 := by
  have hlift : ∀ x x', ReflTransGen K.rely x x' → ReflTransGen K₁.rely x.1 x'.1 ∧
      (F x.2 → F x'.2) := by
    intro x x' hx
    induction hx with
    | refl => exact ⟨.refl, id⟩
    | tail _ hstep ih =>
      obtain ⟨hr, hf⟩ := hrely _ _ hstep
      exact ⟨ih.1.tail hr, fun hx => hf (ih.2 hx)⟩
  have hsafe : ∀ (p : Program S ε α) x, Safe M i K₁ Q p x.1 → F x.2 →
      Safe (M.sum N) i K (fun r x => Q r x.1 ∧ F x.2) p.left x := by
    intro p
    induction p with
    | done r =>
      intro x hp hf x' hx
      obtain ⟨hr, hf'⟩ := hlift x x' hx
      exact ⟨hp _ hr, hf' hf⟩
    | step op next ih =>
      intro x hp hf x' hx c x'' answer hperform
      obtain ⟨hr, hf'⟩ := hlift x x' hx
      cases c with
      | inr c => cases hperform
      | inl c =>
        obtain ⟨⟨w, answer'⟩, hw, heq⟩ := Option.map_eq_some_iff.mp hperform
        obtain ⟨rfl, rfl⟩ := Prod.mk.inj heq
        obtain ⟨hg, hnext⟩ := hp _ hr c w answer' hw
        exact ⟨hguarantee _ _ _ hg, ih _ _ hnext (hf' hf)⟩
  exact fun x hx => hsafe p x (h x.1 hx.1) hx.2

/-- A triple about the second of two worlds, next to an assertion about the first. -/
theorem right {p : Program T ε α} {K₂ : Contract τ} {K : Contract (σ × τ)} {P : τ → Prop}
    {Q : Except ε α → τ → Prop} {F : σ → Prop}
    (hrely : ∀ x x', K.rely x x' → K₂.rely x.2 x'.2 ∧ (F x.1 → F x'.1))
    (hguarantee : ∀ w v v', K₂.guarantee v v' → K.guarantee (w, v) (w, v'))
    (h : Triple N i K₂ P p Q) :
    Triple (M.sum N) i K (fun x => F x.1 ∧ P x.2) p.right fun r x => F x.1 ∧ Q r x.2 := by
  have hlift : ∀ x x', ReflTransGen K.rely x x' → ReflTransGen K₂.rely x.2 x'.2 ∧
      (F x.1 → F x'.1) := by
    intro x x' hx
    induction hx with
    | refl => exact ⟨.refl, id⟩
    | tail _ hstep ih =>
      obtain ⟨hr, hf⟩ := hrely _ _ hstep
      exact ⟨ih.1.tail hr, fun hx => hf (ih.2 hx)⟩
  have hsafe : ∀ (p : Program T ε α) x, F x.1 → Safe N i K₂ Q p x.2 →
      Safe (M.sum N) i K (fun r x => F x.1 ∧ Q r x.2) p.right x := by
    intro p
    induction p with
    | done r =>
      intro x hf hp x' hx
      obtain ⟨hr, hf'⟩ := hlift x x' hx
      exact ⟨hf' hf, hp _ hr⟩
    | step op next ih =>
      intro x hf hp x' hx c x'' answer hperform
      obtain ⟨hr, hf'⟩ := hlift x x' hx
      cases c with
      | inl c => cases hperform
      | inr c =>
        obtain ⟨⟨v, answer'⟩, hv, heq⟩ := Option.map_eq_some_iff.mp hperform
        obtain ⟨rfl, rfl⟩ := Prod.mk.inj heq
        obtain ⟨hg, hnext⟩ := hp _ hr c v answer' hv
        exact ⟨hguarantee _ _ _ hg, ih _ _ (hf' hf) hnext⟩
  exact fun x hx => hsafe p x hx.1 (h x.2 hx.2)

end Triple

end Effects
