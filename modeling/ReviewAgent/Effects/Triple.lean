import ReviewAgent.Effects.Machine

/-! Rely-guarantee triples for programs, and their soundness for runs and interleavings. -/
namespace Effects

open Relation (ReflTransGen)

/-- What a thread tolerates from everyone else, and what each of its own steps promises. -/
structure Contract (σ : Type) where
  rely : σ → σ → Prop
  guarantee : σ → σ → Prop

variable {S : Signature} {σ χ μ ε α β ι : Type}

/-- Interference within `R` cannot falsify `P`. -/
def Stable (R : σ → σ → Prop) (P : σ → Prop) : Prop := ∀ w w', R w w' → P w → P w'

theorem Stable.reflTransGen {R : σ → σ → Prop} {P : σ → Prop} (h : Stable R P) {w w' : σ}
    (hr : ReflTransGen R w w') (hw : P w) : P w' := by
  induction hr with
  | refl => exact hw
  | tail _ hs ih => exact h _ _ hs ih

/-- From this world the rest of the program keeps its contract and ends in `Q`, whatever the
environment decides and however the others interfere within the rely. -/
def Safe (M : Machine S σ χ μ) (i : ℕ) (K : Contract σ) (Q : Except ε α → σ → Prop) :
    Program S ε α → σ → Prop
  | .done r, w => ∀ w', ReflTransGen K.rely w w' → Q r w'
  | .step op next, w => ∀ w', ReflTransGen K.rely w w' →
      ∀ c w'' answer, M.perform i w' op c = some (w'', answer) →
        K.guarantee w' w'' ∧ Safe M i K Q (next answer) w''

namespace Safe

variable {M : Machine S σ χ μ} {i : ℕ} {K : Contract σ} {w w' : σ} {p : Program S ε α}
  {Q R : Except ε α → σ → Prop}

theorem of_rely (h : Safe M i K Q p w) (hr : ReflTransGen K.rely w w') : Safe M i K Q p w' := by
  cases p with
  | done r => exact fun v hv => h v (hr.trans hv)
  | step op next => exact fun v hv => h v (hr.trans hv)

theorem andThen {k : Except ε α → Program S ε β} {Q : Except ε β → σ → Prop}
    (h : Safe M i K R p w)
    (hk : ∀ r v, (∀ v', ReflTransGen K.rely v v' → R r v') → Safe M i K Q (k r) v) :
    Safe M i K Q (p.andThen k) w := by
  induction p generalizing w with
  | done r => exact hk r w h
  | step op next ih =>
    intro v hv c v' answer hp
    obtain ⟨hg, hs⟩ := h v hv c v' answer hp
    exact ⟨hg, ih answer hs⟩

theorem mono (h : Safe M i K R p w) (hq : ∀ r v, R r v → Q r v) : Safe M i K Q p w := by
  induction p generalizing w with
  | done r => exact fun v hv => hq r v (h v hv)
  | step op next ih =>
    intro v hv c v' answer hp
    obtain ⟨hg, hs⟩ := h v hv c v' answer hp
    exact ⟨hg, ih answer hs⟩

/-- One step of a run: the pending operation is resolved. -/
theorem perform {op : S.Op} {next : S.Answer op → Program S ε α} {c : χ} {answer : S.Answer op}
    (h : Safe M i K Q (.step op next) w) (hp : M.perform i w op c = some (w', answer)) :
    K.guarantee w w' ∧ Safe M i K Q (next answer) w' :=
  h w .refl c w' answer hp

/-- Along a run a safe program stays safe, and the world changes by rely and guarantee steps. -/
theorem run (hm : ∀ v m v', M.move v m = some v' → K.rely v v') {es : List (Machine.Event χ μ)}
    {p' : Program S ε α} (h : Safe M i K Q p w) (hr : M.run i w p es = some (w', p')) :
    Safe M i K Q p' w' ∧ ReflTransGen (fun a b => K.rely a b ∨ K.guarantee a b) w w' := by
  induction es generalizing w p with
  | nil =>
    obtain ⟨rfl, rfl⟩ : w = w' ∧ p = p' := by simpa [Machine.run] using hr
    exact ⟨h, .refl⟩
  | cons e es ih =>
    cases e with
    | move m =>
      simp only [Machine.run] at hr
      cases hv : M.move w m with
      | none => simp [hv] at hr
      | some v =>
        rw [hv] at hr
        have hrel := hm w m v hv
        obtain ⟨hs, ht⟩ := ih (h.of_rely (.single hrel)) hr
        exact ⟨hs, .head (Or.inl hrel) ht⟩
    | act c =>
      cases p with
      | done r => simp [Machine.run] at hr
      | step op next =>
        simp only [Machine.run] at hr
        cases hp : M.perform i w op c with
        | none => simp [hp] at hr
        | some x =>
          obtain ⟨v, answer⟩ := x
          rw [hp] at hr
          obtain ⟨hg, hn⟩ := h.perform hp
          obtain ⟨hs, ht⟩ := ih hn hr
          exact ⟨hs, .head (Or.inr hg) ht⟩

end Safe

/-- `{P} p {Q}` for thread `i` under contract `K`. -/
def Triple (M : Machine S σ χ μ) (i : ℕ) (K : Contract σ) (P : σ → Prop) (p : Program S ε α)
    (Q : Except ε α → σ → Prop) : Prop :=
  ∀ w, P w → Safe M i K Q p w

/-- A postcondition, by what it says of a result and what it says of an error. -/
def ByResult (ok : α → σ → Prop) (error : ε → σ → Prop) : Except ε α → σ → Prop
  | .ok a => ok a
  | .error e => error e

/-- The postcondition of a program that raises nothing and ends in `P`. -/
def Returns (P : σ → Prop) (r : Except ε α) (w : σ) : Prop := (∃ a, r = .ok a) ∧ P w

@[simp] theorem returns_ok {P : σ → Prop} {a : α} {w : σ} :
    Returns P (.ok a : Except ε α) w ↔ P w := by
  simp [Returns]

@[simp] theorem not_returns_error {P : σ → Prop} {e : ε} {w : σ} :
    ¬ Returns P (.error e : Except ε α) w := by
  simp [Returns]

theorem Stable.returns {R : σ → σ → Prop} {P : σ → Prop} {a : α} (h : Stable R P) :
    Stable R (Returns P (.ok a : Except ε α)) := by
  intro w w' hr hw
  exact returns_ok.mpr (h w w' hr (returns_ok.mp hw))

namespace Triple

variable {M : Machine S σ χ μ} {i : ℕ} {K : Contract σ} {P P' : σ → Prop}
  {p : Program S ε α} {Q R : Except ε α → σ → Prop}

theorem done {r : Except ε α} (hs : Stable K.rely P) (h : ∀ w, P w → Q r w) :
    Triple M i K P (.done r) Q :=
  fun _ hw _ hr => h _ (hs.reflTransGen hr hw)

theorem pure {a : α} (hs : Stable K.rely P) (h : ∀ w, P w → Q (.ok a) w) :
    Triple M i K P (Pure.pure a : Program S ε α) Q :=
  done hs h

theorem throw {e : ε} (hs : Stable K.rely P) (h : ∀ w, P w → Q (.error e) w) :
    Triple M i K P (MonadExcept.throw e : Program S ε α) Q :=
  done hs h

/-- Issue `op` from a stable assertion; each answer continues from the assertion it establishes. -/
theorem step {op : S.Op} {next : S.Answer op → Program S ε α} {A : S.Answer op → σ → Prop}
    (hs : Stable K.rely P)
    (h : ∀ w c w' answer, P w → M.perform i w op c = some (w', answer) →
      K.guarantee w w' ∧ A answer w')
    (hn : ∀ answer, Triple M i K (A answer) (next answer) Q) :
    Triple M i K P (.step op next) Q := by
  intro w hw v hv c v' answer hp
  obtain ⟨hg, hpost⟩ := h v c v' answer (hs.reflTransGen hv hw) hp
  exact ⟨hg, hn answer v' hpost⟩

/-- A single operation whose answer is returned. -/
theorem perform {op : S.Op} {Q : Except ε (S.Answer op) → σ → Prop} (hs : Stable K.rely P)
    (h : ∀ w c w' answer, P w → M.perform i w op c = some (w', answer) →
      K.guarantee w w' ∧ Q (.ok answer) w')
    (hq : ∀ answer, Stable K.rely (Q (.ok answer))) :
    Triple M i K P (Program.perform op : Program S ε _) Q :=
  step hs h fun answer => done (hq answer) fun _ hw => hw

theorem consequence (h : Triple M i K P p R) (hp : ∀ w, P' w → P w)
    (hq : ∀ r w, R r w → Q r w) : Triple M i K P' p Q :=
  fun w hw => (h w (hp w hw)).mono hq

theorem pre (h : Triple M i K P p Q) (hp : ∀ w, P' w → P w) : Triple M i K P' p Q :=
  fun w hw => h w (hp w hw)

theorem bind {f : α → Program S ε β} {Q : Except ε β → σ → Prop}
    (hp : Triple M i K P p R) (hf : ∀ a, Triple M i K (R (.ok a)) (f a) Q)
    (he : ∀ e w, R (.error e) w → Q (.error e) w) : Triple M i K P (p >>= f) Q := by
  intro w hw
  apply (hp w hw).andThen
  intro r v hr
  cases r with
  | ok a => exact hf a v (hr v .refl)
  | error e => exact fun v' hv => he e v' (hr v' hv)

theorem tryCatch {h : ε → Program S ε α} (hp : Triple M i K P p R)
    (ha : ∀ a w, R (.ok a) w → Q (.ok a) w)
    (hh : ∀ e, Triple M i K (R (.error e)) (h e) Q) :
    Triple M i K P (MonadExcept.tryCatch p h) Q := by
  intro w hw
  apply (hp w hw).andThen
  intro r v hr
  cases r with
  | ok a => exact fun v' hv => ha a v' (hr v' hv)
  | error e => exact hh e v (hr v .refl)

theorem attempt (hp : Triple M i K P p R) :
    Triple M i K P p.attempt fun r w => ∃ outcome, r = .ok outcome ∧ R outcome w := by
  intro w hw
  apply (hp w hw).andThen
  exact fun r v hr v' hv => ⟨r, rfl, hr v' hv⟩

/-- A finished run of the program alone ends in the postcondition. -/
theorem run_done (hm : ∀ v m v', M.move v m = some v' → K.rely v v')
    {es : List (Machine.Event χ μ)} {w w' : σ} {r : Except ε α} (h : Triple M i K P p Q)
    (hw : P w) (hr : M.run i w p es = some (w', .done r)) : Q r w' :=
  ((h w hw).run hm hr).1 w' .refl

/-- What rely and guarantee both preserve holds in every world a run reaches. -/
theorem run_invariant (hm : ∀ v m v', M.move v m = some v' → K.rely v v')
    {es : List (Machine.Event χ μ)} {w w' : σ} {p' : Program S ε α} {I : σ → Prop}
    (h : Triple M i K P p Q) (hw : P w) (hr : M.run i w p es = some (w', p'))
    (hrely : Stable K.rely I) (hguar : Stable K.guarantee I) (hi : I w) : I w' := by
  have hs : Stable (fun a b => K.rely a b ∨ K.guarantee a b) I := by
    intro v v' hv hI
    rcases hv with hv | hv
    · exact hrely v v' hv hI
    · exact hguar v v' hv hI
  exact hs.reflTransGen ((h w hw).run hm hr).2 hi

end Triple

/-- What holds between the steps of an interleaving: every thread started so far is safe, and
every thread that may still start finds its precondition. -/
structure Configured (M : Machine S σ χ μ) (K : ℕ → Contract σ)
    (Q : ι → ℕ → Except ε α → σ → Prop) (Fresh : ℕ → σ → Prop)
    (c : Machine.Config S ε α σ) : Prop where
  safe : ∀ i p, c.threads[i]? = some p → ∃ label, Safe M i (K i) (Q label i) p c.world
  fresh : ∀ i, c.threads.length ≤ i → Fresh i c.world

section Parallel

variable {M : Machine S σ χ μ} {K : ℕ → Contract σ} {Q : ι → ℕ → Except ε α → σ → Prop}
  {Fresh : ℕ → σ → Prop} {body : ι → Program S ε α} {c c' : Machine.Config S ε α σ}

theorem Configured.next (hc : Configured M K Q Fresh c)
    (hbody : ∀ label i, Triple M i (K i) (Fresh i) (body label) (Q label i))
    (hother : ∀ i k w w', i ≠ k → (K i).guarantee w w' → (K k).rely w w')
    (hmove : ∀ k w m w', M.move w m = some w' → (K k).rely w w')
    (hfresh : ∀ k, Stable (K k).rely (Fresh k)) {s : Machine.Sched χ μ ι}
    (h : M.next body c s = some c') : Configured M K Q Fresh c' := by
  cases s with
  | start label =>
    obtain rfl : _ = c' := Option.some.inj h
    refine ⟨?_, fun i hi => hc.fresh i (by simp at hi; omega)⟩
    intro i p hp
    rcases Nat.lt_or_ge i c.threads.length with hi | hi
    · rw [List.getElem?_append_left hi] at hp
      exact hc.safe i p hp
    · have he : i - c.threads.length = 0 ∧ body label = p := by
        rw [List.getElem?_append_right hi] at hp
        rcases hn : i - c.threads.length with _ | n <;> simp_all
      exact ⟨label, he.2 ▸ hbody label i c.world (hc.fresh i hi)⟩
  | move m =>
    obtain ⟨w, hw, rfl⟩ := Option.map_eq_some_iff.mp h
    refine ⟨?_, fun i hi => hfresh i _ _ (hmove i _ m w hw) (hc.fresh i hi)⟩
    intro i p hp
    obtain ⟨label, hs⟩ := hc.safe i p hp
    exact ⟨label, hs.of_rely (.single (hmove i _ m w hw))⟩
  | act i choice =>
    simp only [Machine.next] at h
    split at h
    · rename_i op k hk
      obtain ⟨⟨w, answer⟩, hr, rfl⟩ := Option.map_eq_some_iff.mp h
      obtain ⟨label, hs⟩ := hc.safe i _ hk
      obtain ⟨hg, hn⟩ := hs.perform hr
      refine ⟨?_, ?_⟩
      · intro j p hp
        by_cases hj : i = j
        · subst hj
          have hlt := (List.getElem?_eq_some_iff.mp hk).1
          rw [List.getElem?_set_self hlt] at hp
          exact ⟨label, Option.some.inj hp ▸ hn⟩
        · rw [List.getElem?_set_ne hj] at hp
          obtain ⟨label', hs'⟩ := hc.safe j p hp
          exact ⟨label', hs'.of_rely (.single (hother i j _ _ hj hg))⟩
      · intro j hj
        rw [List.length_set] at hj
        have hlt := (List.getElem?_eq_some_iff.mp hk).1
        exact hfresh j _ _ (hother i j _ _ (by omega) hg) (hc.fresh j hj)
    · cases h

/-- Threads that each keep their contract stay safe in every interleaving. -/
theorem Configured.exec (hc : Configured M K Q Fresh c)
    (hbody : ∀ label i, Triple M i (K i) (Fresh i) (body label) (Q label i))
    (hother : ∀ i k w w', i ≠ k → (K i).guarantee w w' → (K k).rely w w')
    (hmove : ∀ k w m w', M.move w m = some w' → (K k).rely w w')
    (hfresh : ∀ k, Stable (K k).rely (Fresh k)) {ss : List (Machine.Sched χ μ ι)}
    (h : M.exec body c ss = some c') : Configured M K Q Fresh c' := by
  induction ss generalizing c with
  | nil => exact Option.some.inj h ▸ hc
  | cons s ss ih =>
    simp only [Machine.exec] at h
    cases hn : M.next body c s with
    | none => simp [hn] at h
    | some c₁ =>
      rw [hn] at h
      exact ih (hc.next hbody hother hmove hfresh hn) h

end Parallel

end Effects
