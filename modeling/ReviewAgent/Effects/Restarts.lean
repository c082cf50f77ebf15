import ReviewAgent.Effects.Sum
import ReviewAgent.Effects.Triple

/-! The ends a program may come to, and processes one after the other, each cut short anywhere. -/
namespace Effects

variable {S T : Signature} {σ χ μ ε α β : Type}

namespace Program

/-- With every operation answered as `A` allows, each time anew, the program may end so. -/
def MayEnd (A : (op : S.Op) → S.Answer op → Prop) : Program S ε α → Except ε α → Prop
  | .done r, r' => r' = r
  | .step op next, r' => ∃ answer, A op answer ∧ (next answer).MayEnd A r'

section

variable {A : (op : S.Op) → S.Answer op → Prop} {p : Program S ε α} {r : Except ε α}

theorem mayEnd_perform {op : S.Op} {answer : S.Answer op} (h : A op answer) :
    (perform op : Program S ε _).MayEnd A (.ok answer) :=
  ⟨answer, h, rfl⟩

theorem MayEnd.andThen {k : Except ε α → Program S ε β} {r' : Except ε β} (hp : p.MayEnd A r)
    (hk : (k r).MayEnd A r') : (p.andThen k).MayEnd A r' := by
  induction p with
  | done r₀ =>
    obtain rfl : r = r₀ := hp
    exact hk
  | step op next ih =>
    obtain ⟨answer, hanswer, hrest⟩ := hp
    exact ⟨answer, hanswer, ih answer hrest⟩

theorem MayEnd.bind {a : α} {f : α → Program S ε β} {r' : Except ε β} (hp : p.MayEnd A (.ok a))
    (hf : (f a).MayEnd A r') : (p >>= f).MayEnd A r' :=
  hp.andThen (k := onOk f) hf

theorem MayEnd.attempt (hp : p.MayEnd A r) : p.attempt.MayEnd A (.ok r) :=
  hp.andThen rfl

theorem MayEnd.relabel {B : (op : T.Op) → T.Answer op → Prop} {f : S.Op → T.Op}
    {read : ∀ op, T.Answer (f op) → S.Answer op}
    (hread : ∀ op answer, A op answer → ∃ answer', B (f op) answer' ∧ read op answer' = answer)
    (hp : p.MayEnd A r) : (p.relabel f read).MayEnd B r := by
  induction p with
  | done r₀ => exact hp
  | step op next ih =>
    obtain ⟨answer, hanswer, hrest⟩ := hp
    obtain ⟨answer', hanswer', rfl⟩ := hread op answer hanswer
    exact ⟨answer', hanswer', ih _ hrest⟩

end

end Program

/-- A part that leaves an assertion as it is comes to one of its ends. -/
theorem Triple.mayEnd {M : Machine S σ χ μ} {i : ℕ} {K : Contract σ} {P : σ → Prop}
    {p : Program T ε α} {f : T.Op → S.Op} {read : ∀ op, S.Answer (f op) → T.Answer op}
    (hs : Stable K.rely P)
    (hstep : ∀ w op c w' answer, P w → M.perform i w (f op) c = some (w', answer) →
      K.guarantee w w' ∧ P w') :
    Triple M i K P (p.relabel f read) fun r w => p.MayEnd (fun _ _ => True) r ∧ P w := by
  induction p with
  | done r => exact Triple.done hs fun w hw => ⟨rfl, hw⟩
  | step op next ih =>
    apply Triple.step (A := fun _ => P) hs
    · exact fun w c w' answer => hstep w op c w' answer
    · intro answer
      exact (ih (read op answer)).consequence (fun _ hw => hw) fun r w h =>
        ⟨⟨_, trivial, h.1⟩, h.2⟩

namespace Machine

/-- Processes one after the other, each as far as it gets: the world they leave, and what each of
them had left to do. -/
def attempts (M : Machine S σ χ μ) (i : ℕ) :
    σ → List (Program S ε α × List (Event χ μ)) → Option (σ × List (Program S ε α))
  | w, [] => some (w, [])
  | w, (p, es) :: rest => do
    let (w', p') ← M.run i w p es
    let (w'', ps) ← M.attempts i w' rest
    pure (w'', p' :: ps)

section

variable {M : Machine S σ χ μ} {i : ℕ} {K : Contract σ} {w w' : σ}
  {p : Program S ε α} {es : List (Event χ μ)} {as : List (Program S ε α × List (Event χ μ))}
  {left : List (Program S ε α)} {I : σ → Prop} {Q : Except ε α → σ → Prop}

theorem attempts_cons (h : M.attempts i w ((p, es) :: as) = some (w', left)) :
    ∃ v p' ps, M.run i w p es = some (v, p') ∧ M.attempts i v as = some (w', ps) ∧
      left = p' :: ps := by
  obtain ⟨⟨v, p'⟩, hrun, h⟩ := Option.bind_eq_some_iff.mp h
  obtain ⟨⟨w'', ps⟩, hrest, h⟩ := Option.bind_eq_some_iff.mp h
  obtain ⟨rfl, rfl⟩ := Prod.mk.inj (Option.some.inj h)
  exact ⟨v, p', ps, hrun, hrest, rfl⟩

/-- What every process keeps, wherever it is cut short, outlives them all. -/
theorem attempts_invariant (hm : ∀ v m v', M.move v m = some v' → K.rely v v')
    (hrely : Stable K.rely I) (hguarantee : Stable K.guarantee I)
    (hprograms : ∀ a ∈ as, Triple M i K I a.1 Q)
    (h : M.attempts i w as = some (w', left)) (hi : I w) : I w' := by
  induction as generalizing w left with
  | nil =>
    obtain ⟨rfl, -⟩ := Prod.mk.inj (Option.some.inj h)
    exact hi
  | cons a as ih =>
    obtain ⟨v, p', ps, hrun, hrest, -⟩ := attempts_cons h
    rw [List.forall_mem_cons] at hprograms
    exact ih hprograms.2 hrest (hprograms.1.run_invariant hm hi hrun hrely hguarantee hi)

/-- The last process, if it comes to its end, ends as it promises. -/
theorem attempts_last (hm : ∀ v m v', M.move v m = some v' → K.rely v v')
    (hrely : Stable K.rely I) (hguarantee : Stable K.guarantee I)
    (hprograms : ∀ a ∈ as, Triple M i K I a.1 Q)
    (h : M.attempts i w as = some (w', left)) (hi : I w) {r : Except ε α}
    (hlast : left.getLast? = some (.done r)) : Q r w' := by
  induction as generalizing w left with
  | nil =>
    obtain ⟨-, rfl⟩ := Prod.mk.inj (Option.some.inj h)
    cases hlast
  | cons a as ih =>
    obtain ⟨v, p', ps, hrun, hrest, rfl⟩ := attempts_cons h
    rw [List.forall_mem_cons] at hprograms
    cases as with
    | nil =>
      obtain ⟨rfl, rfl⟩ := Prod.mk.inj (Option.some.inj hrest)
      obtain rfl : p' = .done r := by simpa using hlast
      exact hprograms.1.run_done hm hi hrun
    | cons b bs =>
      obtain ⟨v', p'', ps', -, -, rfl⟩ := attempts_cons hrest
      exact ih hprograms.2 hrest (hprograms.1.run_invariant hm hi hrun hrely hguarantee hi)
        (by simpa using hlast)

end

end Machine

end Effects
