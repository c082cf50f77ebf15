import ReviewAgent.Effects.Sum

/-! Operations carried out by programs of another signature, what a program issues and ends in, and
threads that only what has happened lets start. -/
namespace Effects

variable {S T : Signature} {σ χ μ ε α β ι : Type}

namespace Program

theorem andThen_assoc {γ : Type} (p : Program S ε α) (k : Except ε α → Program S ε β)
    (l : Except ε β → Program S ε γ) : (p.andThen k).andThen l = p.andThen fun r => (k r).andThen l := by
  induction p with
  | done r => rfl
  | step op next ih =>
    simp only [andThen]
    exact congrArg _ (funext ih)

theorem bind_assoc {γ : Type} (p : Program S ε α) (f : α → Program S ε β) (g : β → Program S ε γ) :
    (p >>= f) >>= g = p >>= fun a => f a >>= g := by
  rw [bind_def, bind_def, bind_def, andThen_assoc]
  congr 1
  funext r
  cases r <;> rfl

/-- `p` with each operation carried out by a program. -/
def handle (h : (op : S.Op) → Program T ε (S.Answer op)) : Program S ε α → Program T ε α
  | .done r => .done r
  | .step op next => (h op).andThen (onOk fun answer => (next answer).handle h)

/-- Whatever the answers, only operations with `C` are issued, and the end has `Q`. -/
def Yields (C : S.Op → Prop) (Q : Except ε α → Prop) : Program S ε α → Prop
  | .done r => Q r
  | .step op next => C op ∧ ∀ answer, (next answer).Yields C Q

section

variable {C D : S.Op → Prop} {Q R : Except ε α → Prop} {p : Program S ε α}

theorem Yields.issues (h : p.Yields C Q) : p.Issues C := by
  induction p with
  | done r => trivial
  | step op next ih => exact ⟨h.1, fun answer => ih answer (h.2 answer)⟩

theorem Issues.yields (h : p.Issues C) (hQ : ∀ r, Q r) : p.Yields C Q := by
  induction p with
  | done r => exact hQ r
  | step op next ih => exact ⟨h.1, fun answer => ih answer (h.2 answer)⟩

theorem Yields.andThen {k : Except ε α → Program S ε β} {Q : Except ε β → Prop}
    (hp : p.Yields C R) (hk : ∀ r, R r → (k r).Yields C Q) : (p.andThen k).Yields C Q := by
  induction p with
  | done r => exact hk r hp
  | step op next ih => exact ⟨hp.1, fun answer => ih answer (hp.2 answer)⟩

theorem Yields.bind {f : α → Program S ε β} {Q : Except ε β → Prop} (hp : p.Yields C R)
    (hf : ∀ a, R (.ok a) → (f a).Yields C Q) (he : ∀ e, R (.error e) → Q (.error e)) :
    (p >>= f).Yields C Q := by
  refine hp.andThen fun r hr => ?_
  cases r with
  | ok a => exact hf a hr
  | error e => exact he e hr

/-- A part whose end is of no concern, and what follows it. -/
theorem Issues.bind_yields {f : α → Program S ε β} {Q : Except ε β → Prop} (hp : p.Issues C)
    (hf : ∀ a, (f a).Yields C Q) (he : ∀ e, Q (.error e)) : (p >>= f).Yields C Q :=
  (hp.yields (Q := fun _ => True) fun _ => trivial).bind (fun a _ => hf a) fun e _ => he e

/-- A value that is there or raises, and what follows it. -/
theorem ofExcept_yields {r : Except ε α} {f : α → Program S ε β} {Q : Except ε β → Prop}
    (hf : ∀ a, r = .ok a → (f a).Yields C Q) (he : ∀ e, Q (.error e)) :
    (Program.ofExcept r >>= f).Yields C Q := by
  cases r with
  | ok a => exact hf a rfl
  | error e => exact he e

theorem Yields.relabel {C : T.Op → Prop} {f : S.Op → T.Op}
    {read : ∀ op, T.Answer (f op) → S.Answer op} (hp : p.Yields (fun op => C (f op)) Q) :
    (p.relabel f read).Yields C Q := by
  induction p with
  | done r => exact hp
  | step op next ih => exact ⟨hp.1, fun answer => ih _ (hp.2 _)⟩

theorem Yields.right {C : (S.sum T).Op → Prop} {Q : Except ε α → Prop} {p : Program T ε α}
    (hp : p.Yields (fun op => C (.inr op)) Q) : (p.right : Program (S.sum T) ε α).Yields C Q := by
  induction p with
  | done r => exact hp
  | step op next ih => exact ⟨hp.1, fun answer => ih answer (hp.2 answer)⟩

theorem Issues.left {C : (S.sum T).Op → Prop} (hp : p.Issues fun op => C (.inl op)) :
    (p.left : Program (S.sum T) ε α).Issues C := by
  induction p with
  | done r => trivial
  | step op next ih => exact ⟨hp.1, fun answer => ih answer (hp.2 answer)⟩

/-- What a program issues is issued by the programs that carry out its operations. -/
theorem issues_handle {C : T.Op → Prop} {h : (op : S.Op) → Program T ε (S.Answer op)}
    (hp : p.Issues D) (hh : ∀ op, D op → (h op).Issues C) : (p.handle h).Issues C := by
  induction p with
  | done r => trivial
  | step op next ih => exact issues_bind (hh op hp.1) fun answer => ih answer (hp.2 answer)

end

end Program

namespace Machine

variable {M : Machine S σ χ μ} {body : ι → Program S ε α} {allowed G : σ → ι → Prop}
  {C : ι → S.Op → Prop} {J : σ → List ι → Prop}

/-- Every thread of an interleaving starts in a world that allows its label. -/
def StartsAllowed (M : Machine S σ χ μ) (body : ι → Program S ε α) (allowed : σ → ι → Prop) :
    Config S ε α σ → List (Sched χ μ ι) → Prop
  | _, [] => True
  | c, s :: ss => (∀ label, s = .start label → allowed c.world label) ∧
    match M.next body c s with
    | none => True
    | some c' => M.StartsAllowed body allowed c' ss

/-- Labels that may start in any world. -/
theorem startsAllowed_of_forall {c : Config S ε α σ} {ss : List (Sched χ μ ι)}
    (h : ∀ label, .start label ∈ ss → ∀ w, allowed w label) : M.StartsAllowed body allowed c ss := by
  induction ss generalizing c with
  | nil => trivial
  | cons s ss ih =>
    refine ⟨fun label hs => h label (hs ▸ List.mem_cons_self) _, ?_⟩
    split
    · trivial
    · exact ih fun label hmem => h label (List.mem_cons_of_mem _ hmem)

/-- Allowed starts, and allowed starts from where they lead. -/
theorem startsAllowed_append {c c' : Config S ε α σ} {ss ts : List (Sched χ μ ι)}
    (hss : M.StartsAllowed body allowed c ss) (hexec : M.exec body c ss = some c')
    (hts : M.StartsAllowed body allowed c' ts) : M.StartsAllowed body allowed c (ss ++ ts) := by
  induction ss generalizing c with
  | nil =>
    obtain rfl := Option.some.inj hexec
    exact hts
  | cons s ss ih =>
    refine ⟨hss.1, ?_⟩
    simp only [exec] at hexec
    cases hn : M.next body c s with
    | none => trivial
    | some c₁ =>
      simp only [hn] at hexec
      simp only [StartsAllowed, hn] at hss
      exact ih hss.2 hexec

/-- An invariant of the world and the labels started so far: where a label may start, it gives the
thread something to count on, and what threads issue on the strength of that keeps it. -/
theorem exec_spawned (hbody : ∀ label, (body label).Issues (C label))
    (hstart : ∀ w labels label, J w labels → allowed w label → J w (labels ++ [label]) ∧ G w label)
    (hact : ∀ w labels i label op choice r, J w labels → label ∈ labels → G w label → C label op →
      M.perform i w op choice = some r → J r.1 labels)
    (hmove : ∀ w labels m w', J w labels → M.move w m = some w' → J w' labels)
    (hperform : ∀ label i w op choice r, G w label → M.perform i w op choice = some r → G r.1 label)
    (hmoves : ∀ label w m w', G w label → M.move w m = some w' → G w' label)
    {c c' : Config S ε α σ} {ss : List (Sched χ μ ι)} (labels : List ι)
    (hthreads : ∀ p ∈ c.threads, ∃ label ∈ labels, p.Issues (C label) ∧ G c.world label)
    (hj : J c.world labels) (hallowed : M.StartsAllowed body allowed c ss)
    (h : M.exec body c ss = some c') : J c'.world (labels ++ started ss) := by
  induction ss generalizing c labels with
  | nil =>
    obtain rfl := Option.some.inj h
    rwa [started, List.append_nil]
  | cons s ss ih =>
    simp only [exec] at h
    cases hn : M.next body c s with
    | none => simp [hn] at h
    | some c₁ =>
      simp only [StartsAllowed, hn] at h hallowed
      cases s with
      | start label =>
        obtain rfl : _ = c₁ := Option.some.inj hn
        obtain ⟨hj', hG⟩ := hstart _ _ label hj (hallowed.1 label rfl)
        have hnext := ih (c := { c with threads := c.threads ++ [body label] })
          (labels ++ [label]) ?_ hj' hallowed.2 h
        · simpa [started] using hnext
        · intro p hp
          rcases List.mem_append.mp hp with hp | hp
          · obtain ⟨label', hlabel, hrest⟩ := hthreads p hp
            exact ⟨label', List.mem_append_left _ hlabel, hrest⟩
          · obtain rfl := List.mem_singleton.mp hp
            exact ⟨label, List.mem_append_right _ List.mem_cons_self, hbody label, hG⟩
      | move m =>
        obtain ⟨w, hw, rfl⟩ := Option.map_eq_some_iff.mp hn
        refine ih labels (fun p hp => ?_) (hmove _ _ _ _ hj hw) hallowed.2 h
        obtain ⟨label, hlabel, hissues, hG⟩ := hthreads p hp
        exact ⟨label, hlabel, hissues, hmoves _ _ _ _ hG hw⟩
      | act i choice =>
        simp only [next] at hn
        split at hn
        · rename_i op k hk
          obtain ⟨r, hr, rfl⟩ := Option.map_eq_some_iff.mp hn
          obtain ⟨label, hlabel, ⟨hop, hrest⟩, hG⟩ := hthreads _ (List.mem_of_getElem? hk)
          refine ih labels (fun p hp => ?_) (hact _ _ _ _ _ _ _ hj hlabel hG hop hr) hallowed.2 h
          rcases List.mem_or_eq_of_mem_set hp with hp | rfl
          · obtain ⟨label', hlabel', hissues', hG'⟩ := hthreads p hp
            exact ⟨label', hlabel', hissues', hperform _ _ _ _ _ _ hG' hr⟩
          · exact ⟨label, hlabel, hrest _, hperform _ _ _ _ _ _ hG hr⟩
        · cases hn

end Machine

end Effects
