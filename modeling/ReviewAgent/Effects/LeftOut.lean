import ReviewAgent.Effects.Histories

/-! An interleaving without the steps of some of its threads: the others meet the same decisions of
the environment, in the world as it comes to be without those steps. -/
namespace Effects

variable {S : Signature} {σ χ μ ε α ι : Type}

namespace Machine

/-- The step is one of a thread that is set aside. -/
def TakenAside (aside : ℕ → Prop) : Sched χ μ ι → Prop
  | .act i _ => aside i
  | .start _ | .move _ => False

instance (aside : ℕ → Prop) [DecidablePred aside] :
    DecidablePred (TakenAside aside : Sched χ μ ι → Prop)
  | .act i _ => inferInstanceAs (Decidable (aside i))
  | .start _ | .move _ => isFalse id

/-- The interleaving that leads on from `c`, from `d` without the steps of the threads set aside:
where one of them takes the world from `w` to `w'`, nothing but `gap w w'` happens. -/
def without (M : Machine S σ χ μ) (body : ι → Program S ε α) (aside : ℕ → Prop)
    [DecidablePred aside] (gap : σ → σ → σ → σ) :
    Config S ε α σ → Config S ε α σ → List (Sched χ μ ι) → Option (Config S ε α σ)
  | _, d, [] => some d
  | c, d, s :: ss =>
    match M.next body c s with
    | none => none
    | some c' =>
      if TakenAside aside s then
        M.without body aside gap c' { d with world := gap c.world c'.world d.world } ss
      else
        match M.next body d s with
        | none => none
        | some d' => M.without body aside gap c' d' ss

/-- Every moment meets the condition, which sees the moments before it. -/
def AtEvery (P : Moment S σ → List (Moment S σ) → Prop) : List (Moment S σ) → Prop
  | [] => True
  | m :: past => P m past ∧ AtEvery P past

instance decidableAtEvery (P : Moment S σ → List (Moment S σ) → Prop)
    [∀ m past, Decidable (P m past)] : ∀ past, Decidable (AtEvery P past)
  | [] => isTrue trivial
  | m :: past =>
    have : Decidable (AtEvery P past) := decidableAtEvery P past
    inferInstanceAs (Decidable (P m past ∧ AtEvery P past))

theorem atEvery_iff {P : Moment S σ → List (Moment S σ) → Prop} {past : List (Moment S σ)} :
    AtEvery P past ↔ ∀ later m earlier, past = later ++ m :: earlier → P m earlier := by
  induction past with
  | nil => simp [AtEvery]
  | cons m past ih =>
    rw [AtEvery, ih]
    constructor
    · rintro ⟨hm, hpast⟩ later m' earlier heq
      cases later with
      | nil =>
        obtain ⟨rfl, rfl⟩ := List.cons.inj heq
        exact hm
      | cons m'' later => exact hpast later m' earlier (List.cons.inj heq).2
    · intro hall
      refine ⟨hall [] m past rfl, fun later m' earlier heq => hall (m :: later) m' earlier ?_⟩
      rw [heq, List.cons_append]

theorem AtEvery.of_append {P : Moment S σ → List (Moment S σ) → Prop}
    {later past : List (Moment S σ)} (h : AtEvery P (later ++ past)) : AtEvery P past := by
  induction later with
  | nil => exact h
  | cons m later ih => exact ih h.2

/-- One of the two has come to its end, and the other has not. -/
def Parted (p q : Program S ε α) : Prop :=
  (∃ r, p = .done r) ∧ (∃ op k, q = .step op k) ∨ (∃ op k, p = .step op k) ∧ ∃ r, q = .done r

theorem Parted.ne {p q : Program S ε α} (h : Parted p q) : q ≠ p := by
  rcases h with ⟨⟨r, rfl⟩, op, k, rfl⟩ | ⟨⟨op, k, rfl⟩, r, rfl⟩
  · nofun
  · nofun

/-- The threads that are not set aside stand where they stand with the others. -/
def Unmoved (aside : ℕ → Prop) (c d : Config S ε α σ) : Prop :=
  ∀ i, ¬ aside i → d.threads[i]? = c.threads[i]?

/-- What makes steps with and without the threads set aside comparable: `Like` relates the two
worlds, `agrees` says when a step of the other threads is answered alike, `quiet` what the threads
set aside may do; and where a step is not answered alike, one side comes to its end. -/
structure Compares (M : Machine S σ χ μ) (aside : ℕ → Prop) (gap : σ → σ → σ → σ)
    (Like : σ → σ → List (Moment S σ) → Prop) (agrees : Moment S σ → List (Moment S σ) → Prop)
    (quiet : Occurrence S → Prop) (hinges : Program S ε α → Prop) : Prop where
  act : ∀ w v past i op choice w' answer, Like w v past → ¬ aside i →
    M.perform i w op choice = some (w', answer) → agrees ⟨i, w, op, answer⟩ past →
    ∃ v', M.perform i v op choice = some (v', answer) ∧ Like w' v' (⟨i, w, op, answer⟩ :: past)
  gap : ∀ w v past i op choice w' answer, Like w v past → aside i →
    M.perform i w op choice = some (w', answer) → quiet ⟨op, answer⟩ →
    Like w' (gap w w' v) (⟨i, w, op, answer⟩ :: past)
  move : ∀ w v past m w', Like w v past → M.move w m = some w' →
    ∃ v', M.move v m = some v' ∧ Like w' v' past
  parts : ∀ w v past i op k choice w' answer, Like w v past → ¬ aside i →
    hinges (.step op k) → M.perform i w op choice = some (w', answer) →
    ¬ agrees ⟨i, w, op, answer⟩ past →
    ∃ v' answer', M.perform i v op choice = some (v', answer') ∧ Parted (k answer) (k answer')
  goesOn : ∀ op k answer, hinges (.step op k) → hinges (k answer)

/-- The two sides of a comparison. -/
structure Alongside (aside : ℕ → Prop) (Like : σ → σ → List (Moment S σ) → Prop)
    (hinges : Program S ε α → Prop) (c d : Config S ε α σ) (past : List (Moment S σ)) : Prop where
  length_eq : d.threads.length = c.threads.length
  unmoved : Unmoved aside c d
  world : Like c.world d.world past
  hinges : ∀ p ∈ c.threads, hinges p

section

variable {M : Machine S σ χ μ} {body : ι → Program S ε α} {aside : ℕ → Prop}
  {gap : σ → σ → σ → σ} {Like : σ → σ → List (Moment S σ) → Prop}
  {agrees : Moment S σ → List (Moment S σ) → Prop} {quiet : Occurrence S → Prop}
  {hinges : Program S ε α → Prop} {c c' d d' : Config S ε α σ} {past : List (Moment S σ)}
  {s : Sched χ μ ι} {ss : List (Sched χ μ ι)} {i : ℕ} {p q : Program S ε α}

/-- A thread stands still while others act, and an ended one does not act. -/
theorem next_stays (hn : M.next body c s = some c') (hp : c.threads[i]? = some p)
    (hs : ∀ choice, s = .act i choice → ∃ r, p = .done r) : c'.threads[i]? = some p := by
  cases s with
  | start label =>
    obtain rfl : _ = c' := Option.some.inj hn
    rw [List.getElem?_append_left (List.getElem?_eq_some_iff.mp hp).1]
    exact hp
  | move m =>
    obtain ⟨w, -, rfl⟩ := Option.map_eq_some_iff.mp hn
    exact hp
  | act j choice =>
    simp only [next] at hn
    split at hn
    · rename_i op k hk
      obtain ⟨r, -, rfl⟩ := Option.map_eq_some_iff.mp hn
      have hne : j ≠ i := by
        rintro rfl
        obtain ⟨r', rfl⟩ := hs choice rfl
        cases hk.symm.trans hp
      rwa [List.getElem?_set_ne hne]
    · cases hn

/-- Of a thread one side has ended and the other has not: so it stays, as neither acts again. -/
theorem Parted.stays [DecidablePred aside] (hparted : Parted p q) (hi : ¬ aside i)
    (hp : c.threads[i]? = some p) (hq : d.threads[i]? = some q)
    (hrun : M.exec body c ss = some c') (hwithout : M.without body aside gap c d ss = some d') :
    c'.threads[i]? = some p ∧ d'.threads[i]? = some q := by
  induction ss generalizing c d with
  | nil => exact ⟨Option.some.inj hrun ▸ hp, Option.some.inj hwithout ▸ hq⟩
  | cons s ss ih =>
    simp only [exec, without] at hrun hwithout
    cases hn : M.next body c s with
    | none => simp [hn] at hrun
    | some c₁ =>
      simp only [hn] at hrun hwithout
      by_cases haside : TakenAside aside s
      · rw [if_pos haside] at hwithout
        refine ih (d := { d with world := gap c.world c₁.world d.world }) (next_stays hn hp ?_) hq hrun
          hwithout
        rintro choice rfl
        exact absurd haside hi
      · rw [if_neg haside] at hwithout
        cases hn' : M.next body d s with
        | none => simp [hn'] at hwithout
        | some d₁ =>
          simp only [hn'] at hwithout
          -- the thread could act on neither side
          have hstill : ∀ choice, s ≠ .act i choice := by
            rintro choice rfl
            rcases hparted with ⟨⟨r, rfl⟩, -⟩ | ⟨-, r, rfl⟩
            · simp [next, hp] at hn
            · simp [next, hq] at hn'
          exact ih (next_stays hn hp fun choice hs => absurd hs (hstill choice))
            (next_stays hn' hq fun choice hs => absurd hs (hstill choice)) hrun hwithout

theorem Alongside.start (h : Alongside aside Like hinges c d past) {label : ι}
    (hbody : hinges (body label)) : Alongside aside Like hinges
      { c with threads := c.threads ++ [body label] }
      { d with threads := d.threads ++ [body label] } past where
  length_eq := by simp [h.length_eq]
  unmoved i hi := by
    rcases Nat.lt_or_ge i c.threads.length with hlt | hge
    · rw [List.getElem?_append_left hlt, List.getElem?_append_left (h.length_eq ▸ hlt)]
      exact h.unmoved i hi
    · rw [List.getElem?_append_right hge, List.getElem?_append_right (h.length_eq ▸ hge), h.length_eq]
  world := h.world
  hinges p hp := by
    rcases List.mem_append.mp hp with hp | hp
    · exact h.hinges p hp
    · exact List.mem_singleton.mp hp ▸ hbody

/-- A thread takes a step on both sides, to the same rest of its program. -/
theorem Alongside.act (h : Alongside aside Like hinges c d past) {w v : σ}
    {past' : List (Moment S σ)} (hworld : Like w v past') (hp : hinges p) (i : ℕ) :
    Alongside aside Like hinges ⟨w, c.threads.set i p⟩ ⟨v, d.threads.set i p⟩ past' where
  length_eq := by simp [h.length_eq]
  unmoved j hj := by
    by_cases hij : i = j
    · subst hij
      simp [List.getElem?_set, h.length_eq]
    · rw [List.getElem?_set_ne hij, List.getElem?_set_ne hij]
      exact h.unmoved j hj
  world := hworld
  hinges p' hp' := by
    rcases List.mem_or_eq_of_mem_set hp' with hp' | rfl
    · exact h.hinges p' hp'
    · exact hp

/-- A thread set aside takes a step on one side. -/
theorem Alongside.actAside (h : Alongside aside Like hinges c d past) {w v : σ}
    {past' : List (Moment S σ)} (hworld : Like w v past') (hp : hinges p) (hi : aside i) :
    Alongside aside Like hinges ⟨w, c.threads.set i p⟩ { d with world := v } past' where
  length_eq := by simp [h.length_eq]
  unmoved j hj := by
    have hij : i ≠ j := by
      rintro rfl
      exact hj hi
    rw [List.getElem?_set_ne hij]
    exact h.unmoved j hj
  world := hworld
  hinges p' hp' := by
    rcases List.mem_or_eq_of_mem_set hp' with hp' | rfl
    · exact h.hinges p' hp'
    · exact hp

/-- Without the threads set aside the others stand in the end where they stand with them exactly if
every step of theirs is answered alike. -/
theorem Alongside.without_iff [DecidablePred aside]
    (hM : Compares M aside gap Like agrees quiet hinges) (hbody : ∀ label, hinges (body label))
    (h : Alongside aside Like hinges c d past)
    (hpast : AtEvery (fun m past => ¬ aside m.thread → agrees m past) past)
    (hquiet : ∀ m ∈ M.moments body c ss, aside m.thread → quiet m.occurrence)
    (hrun : M.exec body c ss = some c') :
    (∃ d', M.without body aside gap c d ss = some d' ∧ Unmoved aside c' d') ↔
      AtEvery (fun m past => ¬ aside m.thread → agrees m past) (M.moments body c ss ++ past) := by
  induction ss generalizing c d past with
  | nil =>
    obtain rfl := Option.some.inj hrun
    exact iff_of_true ⟨d, rfl, h.unmoved⟩ hpast
  | cons s ss ih =>
    simp only [exec, without, moments] at hrun hquiet ⊢
    cases hn : M.next body c s with
    | none => simp [hn] at hrun
    | some c₁ =>
      simp only [hn, List.mem_append] at hrun hquiet ⊢
      have hlater : ∀ m ∈ M.moments body c₁ ss, aside m.thread → quiet m.occurrence :=
        fun m hm => hquiet m (Or.inl hm)
      rw [List.append_assoc]
      cases s with
      | start label =>
        obtain rfl : _ = c₁ := Option.some.inj hn
        simp only [if_neg (show ¬ TakenAside aside (.start label : Sched χ μ ι) from id), next]
        exact ih (h.start (hbody label)) hpast hlater hrun
      | move m =>
        obtain ⟨w, hw, rfl⟩ := Option.map_eq_some_iff.mp hn
        obtain ⟨v, hv, hlike⟩ := hM.move _ _ _ _ _ h.world hw
        have hn' : M.next body d (.move m : Sched χ μ ι) = some { d with world := v } := by
          simp [next, hv]
        simp only [if_neg (show ¬ TakenAside aside (.move m : Sched χ μ ι) from id), hn']
        exact ih ⟨h.length_eq, h.unmoved, hlike, h.hinges⟩ hpast hlater hrun
      | act i choice =>
        simp only [next] at hn
        split at hn
        · rename_i op k hk
          obtain ⟨⟨w, answer⟩, hw, rfl⟩ := Option.map_eq_some_iff.mp hn
          have hmoment : M.momentOf c (.act i choice : Sched χ μ ι) = [⟨i, c.world, op, answer⟩] := by
            simp only [momentOf, hk, hw]
          rw [hmoment] at hquiet ⊢
          have hstep := h.hinges _ (List.mem_of_getElem? hk)
          have hrest := hM.goesOn op k answer hstep
          by_cases hi : aside i
          · have hlike := hM.gap _ _ _ _ _ _ _ _ h.world hi hw
              (hquiet _ (Or.inr List.mem_cons_self) hi)
            rw [if_pos (show TakenAside aside (.act i choice : Sched χ μ ι) from hi)]
            exact ih (h.actAside hlike hrest hi) ⟨fun hnot => absurd hi hnot, hpast⟩ hlater hrun
          · have hk' := (h.unmoved i hi).trans hk
            rw [if_neg (show ¬ TakenAside aside (.act i choice : Sched χ μ ι) from hi)]
            by_cases hagrees : agrees ⟨i, c.world, op, answer⟩ past
            · obtain ⟨v, hv, hlike⟩ := hM.act _ _ _ _ _ _ _ _ h.world hi hw hagrees
              have hn' : M.next body d (.act i choice) = some ⟨v, d.threads.set i (k answer)⟩ := by
                simp [next, hk', hv]
              simp only [hn']
              exact ih (h.act hlike hrest i) ⟨fun _ => hagrees, hpast⟩ hlater hrun
            · obtain ⟨v, answer', hv, hparted⟩ := hM.parts _ _ _ _ _ _ _ _ _ h.world hi hstep hw
                hagrees
              have hn' : M.next body d (.act i choice) = some ⟨v, d.threads.set i (k answer')⟩ := by
                simp [next, hk', hv]
              simp only [hn']
              refine iff_of_false ?_ fun hall => hagrees (hall.of_append.1 hi)
              rintro ⟨d', hwithout, hunmoved⟩
              have hset : (c.threads.set i (k answer))[i]? = some (k answer) :=
                List.getElem?_set_self (List.getElem?_eq_some_iff.mp hk).1
              have hset' : (d.threads.set i (k answer'))[i]? = some (k answer') :=
                List.getElem?_set_self (List.getElem?_eq_some_iff.mp hk').1
              obtain ⟨hp, hq⟩ := hparted.stays hi hset hset' hrun hwithout
              have hsame := hunmoved i hi
              rw [hp, hq] at hsame
              exact hparted.ne (Option.some.inj hsame)
        · cases hn

end

end Machine

end Effects
