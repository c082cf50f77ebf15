import Mathlib.Data.List.Nodup
import Mathlib.Logic.Function.Basic
import ReviewAgent.Effects.Sum

/-! Protocols that programs keep, and what interleaved threads that keep theirs make of a world. -/
namespace Effects

/-- What may be issued at each stage, and the stage that an answer leads to. -/
structure Protocol (S : Signature) (ζ : Type) where
  allows : ζ → S.Op → Prop
  next : ζ → (op : S.Op) → S.Answer op → ζ

variable {S : Signature} {σ χ μ ζ ε α β ι : Type}

namespace Program

/-- Whatever the answers, only what the protocol allows is issued, and the end has `Q`. -/
def Keeps (P : Protocol S ζ) (Q : Except ε α → ζ → Prop) : Program S ε α → ζ → Prop
  | .done r, z => Q r z
  | .step op next, z => P.allows z op ∧ ∀ answer, (next answer).Keeps P Q (P.next z op answer)

section

variable {P : Protocol S ζ} {Q R : Except ε α → ζ → Prop} {p : Program S ε α} {z : ζ}

/-- What keeps a protocol keeps one with the same stages that allows more. -/
theorem Keeps.weaken {P' : Protocol S ζ} (h : p.Keeps P R z)
    (hallows : ∀ z op, P.allows z op → P'.allows z op) (hnext : P'.next = P.next)
    (hQ : ∀ r z, R r z → Q r z) : p.Keeps P' Q z := by
  induction p generalizing z with
  | done r => exact hQ r z h
  | step op next ih =>
    refine ⟨hallows z op h.1, fun answer => ?_⟩
    rw [hnext]
    exact ih answer (h.2 answer)

theorem Keeps.mono (h : p.Keeps P R z) (hQ : ∀ r z, R r z → Q r z) : p.Keeps P Q z :=
  h.weaken (fun _ _ hop => hop) rfl hQ

theorem Keeps.andThen {k : Except ε α → Program S ε β} {Q : Except ε β → ζ → Prop}
    (hp : p.Keeps P R z) (hk : ∀ r z, R r z → (k r).Keeps P Q z) : (p.andThen k).Keeps P Q z := by
  induction p generalizing z with
  | done r => exact hk r z hp
  | step op next ih => exact ⟨hp.1, fun answer => ih answer (hp.2 answer)⟩

theorem Keeps.bind {f : α → Program S ε β} {Q : Except ε β → ζ → Prop} (hp : p.Keeps P R z)
    (hf : ∀ a z, R (.ok a) z → (f a).Keeps P Q z)
    (he : ∀ e z, R (.error e) z → Q (.error e) z) : (p >>= f).Keeps P Q z := by
  refine hp.andThen fun r z hr => ?_
  cases r with
  | ok a => exact hf a z hr
  | error e => exact he e z hr

theorem Keeps.tryCatch {handler : ε → Program S ε α} (hp : p.Keeps P R z)
    (hok : ∀ a z, R (.ok a) z → Q (.ok a) z)
    (he : ∀ e z, R (.error e) z → (handler e).Keeps P Q z) :
    (tryCatch p handler).Keeps P Q z := by
  refine hp.andThen fun r z hr => ?_
  cases r with
  | ok a => exact hok a z hr
  | error e => exact he e z hr

theorem Keeps.attempt {Q : Except ε (Except ε α) → ζ → Prop} (hp : p.Keeps P R z)
    (hQ : ∀ r z, R r z → Q (.ok r) z) : p.attempt.Keeps P Q z :=
  hp.andThen hQ

/-- A part whose operations keep an invariant of the stages. -/
theorem Issues.keeps {C : S.Op → Prop} {I : ζ → Prop} (h : p.Issues C)
    (hstep : ∀ z op, I z → C op → P.allows z op ∧ ∀ answer, I (P.next z op answer)) (hz : I z) :
    p.Keeps P (fun _ z => I z) z := by
  induction p generalizing z with
  | done r => exact hz
  | step op next ih =>
    obtain ⟨hallows, hnext⟩ := hstep z op hz h.1
    exact ⟨hallows, fun answer => ih answer (h.2 answer) (hnext answer)⟩

theorem Keeps.issues {C : S.Op → Prop} (h : p.Keeps P Q z) (hC : ∀ z op, P.allows z op → C op) :
    p.Issues C := by
  induction p generalizing z with
  | done r => trivial
  | step op next ih => exact ⟨hC z op h.1, fun answer => ih answer (h.2 answer)⟩

end

end Program

/-- A thread's protocol from its first stage, how it may end, and what its stage says of the
world. -/
structure Role (S : Signature) (ε α σ ζ : Type) where
  protocol : Protocol S ζ
  start : ζ
  ends : Except ε α → ζ → Prop
  world : ζ → σ → Prop

namespace Machine

variable {M : Machine S σ χ μ} {body : ι → Program S ε α} {role : ι → Role S ε α σ ζ}

/-- The threads of `labels` each keep to their role from their stage, and what the stages of the
labels in `W` say of the world is so. -/
structure InStep (role : ι → Role S ε α σ ζ) (W : ι → Prop) (labels : List ι) (stage : ι → ζ)
    (c : Config S ε α σ) : Prop where
  length_eq : c.threads.length = labels.length
  keeps : ∀ (i : ℕ) label (p : Program S ε α), labels[i]? = some label → c.threads[i]? = some p →
    p.Keeps (role label).protocol (role label).ends (stage label)
  world : ∀ label, W label → (role label).world (stage label) c.world
  fresh : ∀ label, label ∉ labels → stage label = (role label).start

/-- What a step of one thread does to the world is in order for its own role and for the others. -/
structure Respects (M : Machine S σ χ μ) (role : ι → Role S ε α σ ζ) (W : ι → Prop) : Prop where
  own : ∀ label i z w op choice r, W label → (role label).world z w →
    (role label).protocol.allows z op → M.perform i w op choice = some r →
    (role label).world ((role label).protocol.next z op r.2) r.1
  other : ∀ label label' i z z' w op choice r, label' ≠ label → W label → W label' →
    (role label).world z w → (role label).protocol.allows z op → (role label').world z' w →
    M.perform i w op choice = some r → (role label').world z' r.1
  move : ∀ label z w m w', W label → (role label).world z w → M.move w m = some w' →
    (role label).world z w'

variable {W : ι → Prop} {labels : List ι} {stage : ι → ζ} {c c' : Config S ε α σ}

theorem InStep.start (h : InStep role W labels stage c) {label : ι} (hnew : label ∉ labels)
    (hbody : (body label).Keeps (role label).protocol (role label).ends (role label).start) :
    InStep role W (labels ++ [label]) stage { c with threads := c.threads ++ [body label] } where
  length_eq := by simp [h.length_eq]
  keeps i label' p hlabel hp := by
    rcases Nat.lt_trichotomy i labels.length with hi | rfl | hi
    · rw [List.getElem?_append_left hi] at hlabel
      rw [List.getElem?_append_left (h.length_eq ▸ hi)] at hp
      exact h.keeps i label' p hlabel hp
    · obtain rfl : label = label' := by simpa using hlabel
      rw [← h.length_eq] at hp
      obtain rfl : body label = p := by simpa using hp
      rw [h.fresh label hnew]
      exact hbody
    · have hnone : (labels ++ [label])[i]? = none := by simp; omega
      rw [hnone] at hlabel
      cases hlabel
  world := h.world
  fresh label' hlabel' := h.fresh label' fun hmem => hlabel' (List.mem_append_left _ hmem)

theorem InStep.moves (h : InStep role W labels stage c) (hM : M.Respects role W) {m : μ} {w : σ}
    (hmove : M.move c.world m = some w) : InStep role W labels stage { c with world := w } where
  length_eq := h.length_eq
  keeps := h.keeps
  world label hlabel := hM.move label _ _ m w hlabel (h.world label hlabel) hmove
  fresh := h.fresh

/-- A thread's step takes its own label to the next stage, and no other. -/
theorem InStep.act [DecidableEq ι] (h : InStep role W labels stage c) (hM : M.Respects role W)
    (hnodup : labels.Nodup) (hW : ∀ label ∈ labels, W label) {i : ℕ} {op : S.Op}
    {k : S.Answer op → Program S ε α} {choice : χ} {r : σ × S.Answer op}
    (hk : c.threads[i]? = some (.step op k)) (hr : M.perform i c.world op choice = some r) :
    ∃ stage', InStep role W labels stage' ⟨r.1, c.threads.set i (k r.2)⟩ := by
  have hi : i < labels.length := h.length_eq ▸ (List.getElem?_eq_some_iff.mp hk).1
  obtain ⟨label, hlabel⟩ : ∃ label, labels[i]? = some label := ⟨_, List.getElem?_eq_getElem hi⟩
  have hmem : label ∈ labels := List.mem_of_getElem? hlabel
  obtain ⟨hallows, hrest⟩ := h.keeps i label _ hlabel hk
  have hworld := h.world label (hW label hmem)
  refine ⟨Function.update stage label ((role label).protocol.next (stage label) op r.2), ?_, ?_, ?_, ?_⟩
  · simpa using h.length_eq
  · intro j label' p hlabel' hp
    by_cases hij : i = j
    · subst hij
      obtain rfl := Option.some.inj (hlabel.symm.trans hlabel')
      rw [List.getElem?_set_self (h.length_eq ▸ hi)] at hp
      obtain rfl := Option.some.inj hp
      rw [Function.update_self]
      exact hrest r.2
    · rw [List.getElem?_set_ne hij] at hp
      have hne : label' ≠ label := by
        rintro rfl
        exact hij ((List.getElem?_inj hi hnodup).mp (hlabel.trans hlabel'.symm))
      rw [Function.update_of_ne hne]
      exact h.keeps j label' p hlabel' hp
  · intro label' hW'
    by_cases hne : label' = label
    · subst hne
      rw [Function.update_self]
      exact hM.own label' i _ _ op choice r hW' hworld hallows hr
    · rw [Function.update_of_ne hne]
      exact hM.other label label' i _ _ _ op choice r hne (hW label hmem) hW' hworld hallows
        (h.world label' hW') hr
  · intro label' hnot
    have hne : label' ≠ label := by
      rintro rfl
      exact hnot hmem
    rw [Function.update_of_ne hne]
    exact h.fresh label' hnot

/-- Interleaved threads that start once each stay in step with their roles. -/
theorem exec_inStep [DecidableEq ι] (labels : List ι) (hM : M.Respects role W) {ss : List (Sched χ μ ι)}
    (hnodup : (labels ++ started ss).Nodup) (hW : ∀ label ∈ labels ++ started ss, W label)
    (hbody : ∀ label ∈ started ss,
      (body label).Keeps (role label).protocol (role label).ends (role label).start)
    (hc : InStep role W labels stage c) (h : M.exec body c ss = some c') :
    ∃ stage', InStep role W (labels ++ started ss) stage' c' := by
  induction ss generalizing c labels stage with
  | nil =>
    obtain rfl := Option.some.inj h
    exact ⟨stage, by simpa [started] using hc⟩
  | cons s ss ih =>
    simp only [exec] at h
    cases hn : M.next body c s with
    | none => simp [hn] at h
    | some c₁ =>
      simp only [hn] at h
      cases s with
      | start label =>
        obtain rfl : _ = c₁ := Option.some.inj hn
        have hsplit : labels ++ label :: started ss = (labels ++ [label]) ++ started ss := by simp
        simp only [started] at hnodup hW hbody ⊢
        rw [hsplit] at hnodup hW ⊢
        have hnew : label ∉ labels := fun hmem => by
          have hone := (List.nodup_append.mp hnodup).1
          exact (List.nodup_append.mp hone).2.2 label hmem label (by simp) rfl
        exact ih _ hnodup hW (fun label' hmem => hbody label' (List.mem_cons_of_mem _ hmem))
          (hc.start hnew (hbody label List.mem_cons_self)) h
      | move m =>
        obtain ⟨w, hw, rfl⟩ := Option.map_eq_some_iff.mp hn
        exact ih _ hnodup hW hbody (hc.moves hM hw) h
      | act i choice =>
        simp only [next] at hn
        split at hn
        · rename_i op k hk
          obtain ⟨r, hr, rfl⟩ := Option.map_eq_some_iff.mp hn
          obtain ⟨stage', hstage⟩ := hc.act hM (List.nodup_append.mp hnodup).1
            (fun label hmem => hW label (List.mem_append_left _ hmem)) hk hr
          exact ih _ hnodup hW hbody hstage h
        · cases hn

end Machine

end Effects
