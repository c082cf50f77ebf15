import ReviewAgent.Effects.Sum

/-! Programs whose operations a script answers. -/
namespace Effects

/-- What an operation is answered in each state of the script, and the state after it. -/
abbrev Script (S : Signature) (σ : Type) := (op : S.Op) → σ → S.Answer op × σ

namespace Program

variable {S : Signature} {ε α β σ : Type}

/-- What a program ends with, and the state it leaves the script in. -/
def play (script : Script S σ) : Program S ε α → σ → Except ε α × σ
  | .done r, s => (r, s)
  | .step op next, s => (next (script op s).1).play script (script op s).2

variable {script : Script S σ} {s s' : σ}

@[simp] theorem play_done (r : Except ε α) :
    (Program.done r : Program S ε α).play script s = (r, s) := rfl

@[simp] theorem play_perform (op : S.Op) :
    (perform op : Program S ε _).play script s = (.ok (script op s).1, (script op s).2) := rfl

theorem play_andThen (p : Program S ε α) (k : Except ε α → Program S ε β) :
    (p.andThen k).play script s = (k (p.play script s).1).play script (p.play script s).2 := by
  induction p generalizing s with
  | done r => rfl
  | step op next ih => exact ih _

theorem play_bind_ok {p : Program S ε α} {a : α} (h : p.play script s = (.ok a, s'))
    (f : α → Program S ε β) : (p >>= f).play script s = (f a).play script s' := by
  rw [bind_def, play_andThen, h]
  rfl

theorem play_bind_error {p : Program S ε α} {e : ε} (h : p.play script s = (.error e, s'))
    (f : α → Program S ε β) : (p >>= f).play script s = (.error e, s') := by
  rw [bind_def, play_andThen, h]
  rfl

theorem play_tryCatch_ok {p : Program S ε α} {a : α} (h : p.play script s = (.ok a, s'))
    (handler : ε → Program S ε α) : (tryCatch p handler).play script s = (.ok a, s') := by
  rw [tryCatch_def, play_andThen, h]
  rfl

theorem play_tryCatch_error {p : Program S ε α} {e : ε} (h : p.play script s = (.error e, s'))
    (handler : ε → Program S ε α) :
    (tryCatch p handler).play script s = (handler e).play script s' := by
  rw [tryCatch_def, play_andThen, h]
  rfl

end Program

/-- Two scripts side by side. -/
def Script.sum {S T : Signature} {σ τ : Type} (left : Script S σ) (right : Script T τ) :
    Script (S.sum T) (σ × τ)
  | .inl op, s => ((left op s.1).1, ((left op s.1).2, s.2))
  | .inr op, s => ((right op s.2).1, (s.1, (right op s.2).2))

namespace Program

section

variable {S T : Signature} {ε α σ τ : Type} {left : Script S σ} {right : Script T τ}

theorem play_left (p : Program S ε α) (s : σ × τ) : (p.left (T := T)).play (left.sum right) s =
    ((p.play left s.1).1, ((p.play left s.1).2, s.2)) := by
  induction p generalizing s with
  | done r => rfl
  | step op next ih => exact ih _ _

theorem play_right (p : Program T ε α) (s : σ × τ) : (p.right (S := S)).play (left.sum right) s =
    ((p.play right s.2).1, (s.1, (p.play right s.2).2)) := by
  induction p generalizing s with
  | done r => rfl
  | step op next ih => exact ih _ _

end

section

variable {S : Signature} {ε α β σ τ : Type} {script : Script S σ} {script' : Script S τ}
  {R : σ → τ → Prop}

/-- From states that `R` relates, the two scripts take the program to the same end, in states that
`R` relates. -/
def Agrees (script : Script S σ) (script' : Script S τ) (R : σ → τ → Prop) (p : Program S ε α) :
    Prop :=
  ∀ s t, R s t → (p.play script s).1 = (p.play script' t).1 ∧
    R (p.play script s).2 (p.play script' t).2

theorem agrees_done (r : Except ε α) : (Program.done r : Program S ε α).Agrees script script' R :=
  fun _ _ h => ⟨rfl, h⟩

theorem Agrees.bind {p : Program S ε α} {f : α → Program S ε β} (hp : p.Agrees script script' R)
    (hf : ∀ a, (f a).Agrees script script' R) : (p >>= f).Agrees script script' R := by
  intro s t h
  obtain ⟨hsame, hrelated⟩ := hp s t h
  rw [bind_def, play_andThen, play_andThen, hsame]
  cases (p.play script' t).1 with
  | ok a => exact hf a _ _ hrelated
  | error e => exact ⟨rfl, hrelated⟩

end

end Program

end Effects
