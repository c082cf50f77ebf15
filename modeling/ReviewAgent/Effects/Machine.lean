import ReviewAgent.Effects.Program

/-! Small-step runs of programs on a shared world, alone and interleaved. -/
namespace Effects

/-- How the operations of `S` act on a world. `perform i w op c` is thread `i` issuing `op` when
the environment decides `c` (which of the possible outcomes happens); `move` is the environment
changing the world between two operations. `none` marks a choice that cannot be made. -/
structure Machine (S : Signature) (σ χ μ : Type) where
  perform : ℕ → σ → (op : S.Op) → χ → Option (σ × S.Answer op)
  move : σ → μ → Option σ

/-- A condition on steps: on the world before a step and on what the environment decides there. -/
structure Condition (S : Signature) (σ χ μ : Type) where
  act : ℕ → σ → S.Op → χ → Prop
  move : σ → μ → Prop

variable {S : Signature} {σ χ μ ε α ι : Type}

/-- Both conditions at every step. -/
def Condition.and (C D : Condition S σ χ μ) : Condition S σ χ μ where
  act i w op c := C.act i w op c ∧ D.act i w op c
  move w m := C.move w m ∧ D.move w m

namespace Machine

/-- What happens next to one program: its pending operation is resolved, or the world moves. -/
inductive Event (χ μ : Type) where
  | act (choice : χ)
  | move (m : μ)

/-- Thread `i` alone, with the environment: the world and the rest of the program afterwards. -/
def run (M : Machine S σ χ μ) (i : ℕ) :
    σ → Program S ε α → List (Event χ μ) → Option (σ × Program S ε α)
  | w, p, [] => some (w, p)
  | w, p, .move m :: es =>
    match M.move w m with
    | none => none
    | some w' => M.run i w' p es
  | w, .step op next, .act c :: es =>
    match M.perform i w op c with
    | none => none
    | some (w', answer) => M.run i w' (next answer) es
  | _, .done _, .act _ :: _ => none

/-- Every step of a run meets the condition. -/
def Obeys (M : Machine S σ χ μ) (C : Condition S σ χ μ) (i : ℕ) :
    σ → Program S ε α → List (Event χ μ) → Prop
  | _, _, [] => True
  | w, p, .move m :: es => C.move w m ∧
    match M.move w m with
    | none => True
    | some w' => M.Obeys C i w' p es
  | w, .step op next, .act c :: es => C.act i w op c ∧
    match M.perform i w op c with
    | none => True
    | some (w', answer) => M.Obeys C i w' (next answer) es
  | _, .done _, .act _ :: _ => True

theorem obeys_and {M : Machine S σ χ μ} {C D : Condition S σ χ μ} {i : ℕ} {w : σ}
    {p : Program S ε α} {es : List (Event χ μ)} (hc : M.Obeys C i w p es)
    (hd : M.Obeys D i w p es) : M.Obeys (C.and D) i w p es := by
  induction es generalizing w p with
  | nil => trivial
  | cons e es ih =>
    cases e with
    | move m =>
      simp only [Obeys] at hc hd ⊢
      refine ⟨⟨hc.1, hd.1⟩, ?_⟩
      cases hm : M.move w m with
      | none => trivial
      | some w' => exact ih (by simpa only [hm] using hc.2) (by simpa only [hm] using hd.2)
    | act c =>
      cases p with
      | done r => trivial
      | step op next =>
        simp only [Obeys] at hc hd ⊢
        refine ⟨⟨hc.1, hd.1⟩, ?_⟩
        cases hp : M.perform i w op c with
        | none => trivial
        | some x => exact ih (by simpa only [hp] using hc.2) (by simpa only [hp] using hd.2)

/-- The run finishes, and its result and last world pass the check. -/
def finishes (M : Machine S σ χ μ) (i : ℕ) (w : σ) (p : Program S ε α) (es : List (Event χ μ))
    (check : Except ε α → σ → Bool) : Bool :=
  match M.run i w p es with
  | some (w', .done r) => check r w'
  | _ => false

theorem exists_of_finishes {M : Machine S σ χ μ} {i : ℕ} {w : σ} {p : Program S ε α}
    {es : List (Event χ μ)} {check : Except ε α → σ → Bool}
    (h : M.finishes i w p es check = true) :
    ∃ w' r, M.run i w p es = some (w', .done r) ∧ check r w' = true := by
  unfold finishes at h
  split at h
  · rename_i w' r hr
    exact ⟨w', r, hr, h⟩
  · cases h

/-- The run returns, and its value and last world pass the check. -/
def returns (M : Machine S σ χ μ) (i : ℕ) (w : σ) (p : Program S ε α) (es : List (Event χ μ))
    (check : α → σ → Bool) : Bool :=
  M.finishes i w p es fun r w' =>
    match r with
    | .ok a => check a w'
    | .error _ => false

theorem exists_of_returns {M : Machine S σ χ μ} {i : ℕ} {w : σ} {p : Program S ε α}
    {es : List (Event χ μ)} {check : α → σ → Bool} (h : M.returns i w p es check = true) :
    ∃ w' a, M.run i w p es = some (w', .done (.ok a)) ∧ check a w' = true := by
  obtain ⟨w', r, hrun, hcheck⟩ := exists_of_finishes h
  cases r with
  | ok a => exact ⟨w', a, hrun, hcheck⟩
  | error e => cases hcheck

instance decidableObeys (M : Machine S σ χ μ) (C : Condition S σ χ μ)
    [∀ i w op c, Decidable (C.act i w op c)] [∀ w m, Decidable (C.move w m)] (i : ℕ) :
    ∀ (w : σ) (p : Program S ε α) (es : List (Event χ μ)), Decidable (M.Obeys C i w p es)
  | _, _, [] => isTrue trivial
  | w, p, .move m :: es =>
    have : Decidable (match M.move w m with
        | none => True
        | some w' => M.Obeys C i w' p es) :=
      match M.move w m with
      | none => isTrue trivial
      | some w' => decidableObeys M C i w' p es
    inferInstanceAs (Decidable (C.move w m ∧ _))
  | w, .step op next, .act c :: es =>
    have : Decidable (match M.perform i w op c with
        | none => True
        | some (w', answer) => M.Obeys C i w' (next answer) es) :=
      match M.perform i w op c with
      | none => isTrue trivial
      | some (w', answer) => decidableObeys M C i w' (next answer) es
    inferInstanceAs (Decidable (C.act i w op c ∧ _))
  | _, .done _, .act _ :: _ => isTrue trivial

/-- The machine that makes only the steps the condition admits. -/
noncomputable def under (M : Machine S σ χ μ) (C : Condition S σ χ μ) : Machine S σ χ μ :=
  open Classical in
  { perform := fun i w op c => if C.act i w op c then M.perform i w op c else none
    move := fun w m => if C.move w m then M.move w m else none }

theorem perform_under {M : Machine S σ χ μ} {C : Condition S σ χ μ} {i : ℕ} {w : σ} {op : S.Op}
    {c : χ} {r : σ × S.Answer op} : (M.under C).perform i w op c = some r ↔
      C.act i w op c ∧ M.perform i w op c = some r := by
  simp only [under]
  split <;> simp_all

theorem move_under {M : Machine S σ χ μ} {C : Condition S σ χ μ} {w w' : σ} {m : μ} :
    (M.under C).move w m = some w' ↔ C.move w m ∧ M.move w m = some w' := by
  simp only [under]
  split <;> simp_all

/-- Every step of `N` is one of `M`. -/
structure Within (N M : Machine S σ χ μ) : Prop where
  perform : ∀ i w op c r, N.perform i w op c = some r → M.perform i w op c = some r
  move : ∀ w m w', N.move w m = some w' → M.move w m = some w'

theorem within_self (M : Machine S σ χ μ) : M.Within M :=
  ⟨fun _ _ _ _ _ h => h, fun _ _ _ h => h⟩

theorem under_within (M : Machine S σ χ μ) (C : Condition S σ χ μ) : (M.under C).Within M :=
  ⟨fun _ _ _ _ _ h => (perform_under.mp h).2, fun _ _ _ h => (move_under.mp h).2⟩

theorem run_under {M : Machine S σ χ μ} {C : Condition S σ χ μ} {i : ℕ} {w : σ}
    {p : Program S ε α} {es : List (Event χ μ)} {r : σ × Program S ε α}
    (h : M.run i w p es = some r) (ho : M.Obeys C i w p es) :
    (M.under C).run i w p es = some r := by
  induction es generalizing w p with
  | nil => simpa only [run] using h
  | cons e es ih =>
    cases e with
    | move m =>
      simp only [run, Obeys] at h ho ⊢
      cases hm : M.move w m with
      | none => simp [hm] at h
      | some w' =>
        rw [hm] at h ho
        rw [move_under.mpr ⟨ho.1, hm⟩]
        exact ih h ho.2
    | act c =>
      cases p with
      | done r' => simp [run] at h
      | step op next =>
        simp only [run, Obeys] at h ho ⊢
        cases hp : M.perform i w op c with
        | none => simp [hp] at h
        | some x =>
          rw [hp] at h ho
          rw [perform_under.mpr ⟨ho.1, hp⟩]
          exact ih h ho.2

/-- A world with the threads started in it so far. -/
structure Config (S : Signature) (ε α σ : Type) where
  world : σ
  threads : List (Program S ε α)

/-- Thread `i` has come to its end. -/
def Config.ended (c : Config S ε α σ) (i : ℕ) : Bool :=
  match c.threads[i]? with
  | some (.done _) => true
  | _ => false

theorem exists_of_ended {c : Config S ε α σ} {i : ℕ} (h : c.ended i = true) :
    ∃ r, c.threads[i]? = some (.done r) := by
  unfold Config.ended at h
  split at h
  · rename_i r hr
    exact ⟨r, hr⟩
  · cases h

/-- One step of an interleaving: a new thread starts, one thread's pending operation is resolved,
or the world moves. -/
inductive Sched (χ μ ι : Type) where
  | start (label : ι)
  | act (i : ℕ) (choice : χ)
  | move (m : μ)

/-- An event of thread `i` in an interleaving. -/
def Event.on (i : ℕ) : Event χ μ → Sched χ μ ι
  | .act choice => .act i choice
  | .move m => .move m

/-- The configuration after one step; `body` gives the programs threads may run. -/
def next (M : Machine S σ χ μ) (body : ι → Program S ε α) (c : Config S ε α σ) :
    Sched χ μ ι → Option (Config S ε α σ)
  | .start label => some { c with threads := c.threads ++ [body label] }
  | .move m => (M.move c.world m).map fun w => { c with world := w }
  | .act i choice =>
    match c.threads[i]? with
    | some (.step op k) =>
      (M.perform i c.world op choice).map fun r =>
        { world := r.1, threads := c.threads.set i (k r.2) }
    | _ => none

/-- The configuration an interleaving leads to. -/
def exec (M : Machine S σ χ μ) (body : ι → Program S ε α) :
    Config S ε α σ → List (Sched χ μ ι) → Option (Config S ε α σ)
  | c, [] => some c
  | c, s :: ss =>
    match M.next body c s with
    | none => none
    | some c' => M.exec body c' ss

/-- The condition at one step of an interleaving. -/
def Admits (C : Condition S σ χ μ) (c : Config S ε α σ) : Sched χ μ ι → Prop
  | .start _ => True
  | .move m => C.move c.world m
  | .act i choice =>
    match c.threads[i]? with
    | some (.step op _) => C.act i c.world op choice
    | _ => True

/-- Every step of an interleaving meets the condition. -/
def AllObey (M : Machine S σ χ μ) (C : Condition S σ χ μ) (body : ι → Program S ε α) :
    Config S ε α σ → List (Sched χ μ ι) → Prop
  | _, [] => True
  | c, s :: ss => Admits C c s ∧
    match M.next body c s with
    | none => True
    | some c' => M.AllObey C body c' ss

theorem allObey_and {M : Machine S σ χ μ} {C D : Condition S σ χ μ} {body : ι → Program S ε α}
    {c : Config S ε α σ} {ss : List (Sched χ μ ι)} (hc : M.AllObey C body c ss)
    (hd : M.AllObey D body c ss) : M.AllObey (C.and D) body c ss := by
  induction ss generalizing c with
  | nil => trivial
  | cons s ss ih =>
    simp only [AllObey] at hc hd ⊢
    refine ⟨?_, ?_⟩
    · cases s with
      | start label => trivial
      | move m => exact ⟨hc.1, hd.1⟩
      | act i choice =>
        have hci := hc.1
        have hdi := hd.1
        simp only [Admits] at hci hdi ⊢
        split
        · rename_i op k hk
          rw [hk] at hci hdi
          exact ⟨hci, hdi⟩
        · trivial
    · cases hn : M.next body c s with
      | none => trivial
      | some c' => exact ih (by simpa only [hn] using hc.2) (by simpa only [hn] using hd.2)

instance decidableAllObey (M : Machine S σ χ μ) (C : Condition S σ χ μ)
    [∀ i w op c, Decidable (C.act i w op c)] [∀ w m, Decidable (C.move w m)]
    (body : ι → Program S ε α) :
    ∀ (c : Config S ε α σ) (ss : List (Sched χ μ ι)), Decidable (M.AllObey C body c ss)
  | _, [] => isTrue trivial
  | c, s :: ss =>
    have : Decidable (Admits C c s) :=
      match s with
      | .start _ => isTrue trivial
      | .move m => inferInstanceAs (Decidable (C.move c.world m))
      | .act i choice => by
        show Decidable (match c.threads[i]? with
          | some (.step op _) => C.act i c.world op choice
          | _ => True)
        split <;> infer_instance
    have : Decidable (match M.next body c s with
        | none => True
        | some c' => M.AllObey C body c' ss) :=
      match M.next body c s with
      | none => isTrue trivial
      | some c' => decidableAllObey M C body c' ss
    inferInstanceAs (Decidable (Admits C c s ∧ _))

/-- The interleaving can be carried out, and the world it leads to passes the check. -/
def reaches (M : Machine S σ χ μ) (body : ι → Program S ε α) (c : Config S ε α σ)
    (ss : List (Sched χ μ ι)) (check : σ → Bool) : Bool :=
  match M.exec body c ss with
  | some c' => check c'.world
  | none => false

theorem exists_of_reaches {M : Machine S σ χ μ} {body : ι → Program S ε α} {c : Config S ε α σ}
    {ss : List (Sched χ μ ι)} {check : σ → Bool} (h : M.reaches body c ss check = true) :
    ∃ c', M.exec body c ss = some c' ∧ check c'.world = true := by
  unfold reaches at h
  split at h
  · rename_i c' hc
    exact ⟨c', hc, h⟩
  · cases h

theorem next_under {M : Machine S σ χ μ} {C : Condition S σ χ μ} {body : ι → Program S ε α}
    {c c' : Config S ε α σ} {s : Sched χ μ ι} (h : M.next body c s = some c')
    (ha : Admits C c s) : (M.under C).next body c s = some c' := by
  cases s with
  | start label => exact h
  | move m =>
    obtain ⟨w, hw, rfl⟩ := Option.map_eq_some_iff.mp h
    exact Option.map_eq_some_iff.mpr ⟨w, move_under.mpr ⟨ha, hw⟩, rfl⟩
  | act i choice =>
    simp only [next, Admits] at h ha ⊢
    split at h
    · rename_i op k hk
      rw [hk] at ha
      obtain ⟨r, hr, rfl⟩ := Option.map_eq_some_iff.mp h
      exact Option.map_eq_some_iff.mpr ⟨r, perform_under.mpr ⟨ha, hr⟩, rfl⟩
    · cases h

theorem exec_under {M : Machine S σ χ μ} {C : Condition S σ χ μ} {body : ι → Program S ε α}
    {c c' : Config S ε α σ} {ss : List (Sched χ μ ι)} (h : M.exec body c ss = some c')
    (ho : M.AllObey C body c ss) : (M.under C).exec body c ss = some c' := by
  induction ss generalizing c with
  | nil => exact h
  | cons s ss ih =>
    simp only [exec, AllObey] at h ho ⊢
    cases hn : M.next body c s with
    | none => simp [hn] at h
    | some c₁ =>
      rw [hn] at h ho
      rw [next_under hn ho.1]
      exact ih h ho.2

end Machine

end Effects
