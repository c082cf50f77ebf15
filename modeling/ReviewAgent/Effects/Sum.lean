import ReviewAgent.Effects.Machine

/-! Programs over two signatures side by side, and what a program can issue at all. -/
namespace Effects

/-- The operations of two signatures. -/
abbrev Signature.sum (S T : Signature) : Signature where
  Op := S.Op ⊕ T.Op
  Answer
    | .inl op => S.Answer op
    | .inr op => T.Answer op

variable {S T : Signature} {σ χ μ ε α β ι : Type}

namespace Program

/-- A program of the first signature. -/
def left : Program S ε α → Program (S.sum T) ε α
  | .done r => .done r
  | .step op next => .step (.inl op) fun answer => (next answer).left

/-- A program of the second signature. -/
def right : Program T ε α → Program (S.sum T) ε α
  | .done r => .done r
  | .step op next => .step (.inr op) fun answer => (next answer).right

theorem outcome_left (answers : (op : (S.sum T).Op) → (S.sum T).Answer op) (p : Program S ε α) :
    (p.left : Program (S.sum T) ε α).outcome answers = p.outcome fun op => answers (.inl op) := by
  induction p with
  | done r => rfl
  | step op next ih => exact ih _

theorem outcome_right (answers : (op : (S.sum T).Op) → (S.sum T).Answer op) (p : Program T ε α) :
    (p.right : Program (S.sum T) ε α).outcome answers = p.outcome fun op => answers (.inr op) := by
  induction p with
  | done r => rfl
  | step op next ih => exact ih _

/-- A program whose operations are issued as operations of another signature. -/
def relabel (f : S.Op → T.Op) (read : ∀ op, T.Answer (f op) → S.Answer op) :
    Program S ε α → Program T ε α
  | .done r => .done r
  | .step op next => .step (f op) fun answer => (next (read op answer)).relabel f read

theorem outcome_relabel {f : S.Op → T.Op} {read : ∀ op, T.Answer (f op) → S.Answer op}
    (answers : (op : T.Op) → T.Answer op) (p : Program S ε α) :
    (p.relabel f read).outcome answers = p.outcome fun op => read op (answers (f op)) := by
  induction p with
  | done r => rfl
  | step op next ih => exact ih _

/-- Whatever the answers, only operations with `P` are issued. -/
def Issues (P : S.Op → Prop) : Program S ε α → Prop
  | .done _ => True
  | .step op next => P op ∧ ∀ answer, (next answer).Issues P

theorem Issues.mono {P Q : S.Op → Prop} {p : Program S ε α} (hp : p.Issues P)
    (h : ∀ op, P op → Q op) : p.Issues Q := by
  induction p with
  | done r => trivial
  | step op next ih => exact ⟨h op hp.1, fun answer => ih answer (hp.2 answer)⟩

theorem issues_andThen {P : S.Op → Prop} {p : Program S ε α} {k : Except ε α → Program S ε β}
    (hp : p.Issues P) (hk : ∀ r, (k r).Issues P) : (p.andThen k).Issues P := by
  induction p with
  | done r => exact hk r
  | step op next ih => exact ⟨hp.1, fun answer => ih answer (hp.2 answer)⟩

theorem issues_bind {P : S.Op → Prop} {p : Program S ε α} {f : α → Program S ε β}
    (hp : p.Issues P) (hf : ∀ a, (f a).Issues P) : (p >>= f).Issues P := by
  refine issues_andThen hp fun r => ?_
  cases r with
  | ok a => exact hf a
  | error e => trivial

theorem issues_done {P : S.Op → Prop} (r : Except ε α) : (done r : Program S ε α).Issues P :=
  trivial

theorem issues_tryCatch {P : S.Op → Prop} {p : Program S ε α} {h : ε → Program S ε α}
    (hp : p.Issues P) (hh : ∀ e, (h e).Issues P) : (tryCatch p h).Issues P := by
  refine issues_andThen hp fun r => ?_
  cases r with
  | ok a => trivial
  | error e => exact hh e

theorem issues_attempt {P : S.Op → Prop} {p : Program S ε α} (hp : p.Issues P) :
    p.attempt.Issues P :=
  issues_andThen hp fun _ => trivial

theorem issues_perform {P : S.Op → Prop} {op : S.Op} (h : P op) :
    (perform op : Program S ε _).Issues P :=
  ⟨h, fun _ => trivial⟩

theorem issues_left {P : (S.sum T).Op → Prop} (hP : ∀ op, P (.inl op)) (p : Program S ε α) :
    (p.left : Program (S.sum T) ε α).Issues P := by
  induction p with
  | done r => trivial
  | step op next ih => exact ⟨hP op, ih⟩

theorem issues_right {P : (S.sum T).Op → Prop} {p : Program T ε α}
    (hp : p.Issues fun op => P (.inr op)) : (p.right : Program (S.sum T) ε α).Issues P := by
  induction p with
  | done r => trivial
  | step op next ih => exact ⟨hp.1, fun answer => ih answer (hp.2 answer)⟩

theorem issues_relabel {P : T.Op → Prop} {f : S.Op → T.Op}
    {read : ∀ op, T.Answer (f op) → S.Answer op} {p : Program S ε α}
    (hp : p.Issues fun op => P (f op)) : (p.relabel f read).Issues P := by
  induction p with
  | done r => trivial
  | step op next ih => exact ⟨hp.1, fun answer => ih _ (hp.2 _)⟩

theorem issued_andThen (answers : (op : S.Op) → S.Answer op) (p : Program S ε α)
    (k : Except ε α → Program S ε β) : (p.andThen k).issued answers =
      p.issued answers ++ (k (p.outcome answers)).issued answers := by
  induction p with
  | done r => rfl
  | step op next ih => exact congrArg (List.cons op) (ih (answers op))

/-- A composition that returns is one of parts that return. -/
theorem outcome_bind_ok {answers : (op : S.Op) → S.Answer op} {p : Program S ε α}
    {f : α → Program S ε β} {b : β} (h : (p >>= f).outcome answers = .ok b) :
    ∃ a, p.outcome answers = .ok a ∧ (f a).outcome answers = .ok b := by
  rw [outcome_bind] at h
  cases hp : p.outcome answers with
  | ok a =>
    rw [hp] at h
    exact ⟨a, rfl, h⟩
  | error e =>
    rw [hp] at h
    cases h

/-- What a composition issues, when its first part returns. -/
theorem issued_bind {answers : (op : S.Op) → S.Answer op} {p : Program S ε α}
    {f : α → Program S ε β} {a : α} (h : p.outcome answers = .ok a) :
    (p >>= f).issued answers = p.issued answers ++ (f a).issued answers := by
  rw [bind_def, issued_andThen, h]
  rfl

/-- Every operation that is issued on the way is one that can be. -/
theorem Issues.issued {P : S.Op → Prop} {p : Program S ε α} (h : p.Issues P)
    (answers : (op : S.Op) → S.Answer op) : ∀ op ∈ p.issued answers, P op := by
  induction p with
  | done r => simp [Program.issued]
  | step op next ih =>
    intro op' hop'
    rcases List.mem_cons.mp hop' with rfl | hop'
    · exact h.1
    · exact ih _ (h.2 _) op' hop'

end Program

namespace Machine

/-- The labels of the threads that an interleaving starts. -/
def started : List (Sched χ μ ι) → List ι
  | [] => []
  | .start label :: ss => label :: started ss
  | _ :: ss => started ss

variable {M : Machine S σ χ μ} {body : ι → Program S ε α} {P : ι → S.Op → Prop} {I : σ → Prop}

/-- What the environment and the operations that the started threads can issue preserve holds at
the end of an interleaving. -/
theorem exec_preserves (labels : List ι) (hbody : ∀ label, (body label).Issues (P label))
    (hmove : ∀ w m w', M.move w m = some w' → I w → I w') {ss : List (Sched χ μ ι)}
    (hperform : ∀ label ∈ labels ++ started ss, ∀ i w op c r, P label op →
      M.perform i w op c = some r → I w → I r.1)
    {c c' : Config S ε α σ} (hthreads : ∀ p ∈ c.threads, ∃ label ∈ labels, p.Issues (P label))
    (hi : I c.world) (h : M.exec body c ss = some c') : I c'.world := by
  induction ss generalizing c labels with
  | nil => exact Option.some.inj h ▸ hi
  | cons s ss ih =>
    simp only [exec] at h
    cases hn : M.next body c s with
    | none => simp [hn] at h
    | some c₁ =>
      simp only [hn] at h
      cases s with
      | start label =>
        have hc₁ : { c with threads := c.threads ++ [body label] } = c₁ := Option.some.inj hn
        refine ih (labels ++ [label]) ?_ ?_ ?_ h
        · intro label' hmem
          exact hperform label' (by simpa [started] using hmem)
        · intro p hp
          rw [← hc₁] at hp
          rcases List.mem_append.mp hp with hp | hp
          · obtain ⟨label', hlabel, hissues⟩ := hthreads p hp
            exact ⟨label', List.mem_append_left _ hlabel, hissues⟩
          · obtain rfl := List.mem_singleton.mp hp
            exact ⟨label, by simp, hbody label⟩
        · exact hc₁ ▸ hi
      | move m =>
        obtain ⟨w, hw, hc₁⟩ := Option.map_eq_some_iff.mp hn
        refine ih labels hperform ?_ ?_ h
        · exact hc₁ ▸ hthreads
        · exact hc₁ ▸ hmove _ _ _ hw hi
      | act i choice =>
        simp only [next] at hn
        split at hn
        · rename_i op k hk
          obtain ⟨r, hr, hc₁⟩ := Option.map_eq_some_iff.mp hn
          obtain ⟨label, hlabel, hop, hrest⟩ := hthreads _ (List.mem_of_getElem? hk)
          have hstep := hperform label (List.mem_append_left _ hlabel) i _ op choice r hop hr hi
          refine ih labels hperform ?_ (hc₁ ▸ hstep) h
          intro p hp
          rw [← hc₁] at hp
          rcases List.mem_or_eq_of_mem_set hp with hp | rfl
          · exact hthreads p hp
          · exact ⟨label, hlabel, hrest _⟩
        · cases hn

end Machine

end Effects
