import ReviewAgent.Effects.Histories
import ReviewAgent.Effects.Sum
import ReviewAgent.Reliability.Guarded

/-! Histories of calls through retry and breaker: their bookkeeping tells nothing about the
dependency, so only the attempts matter. -/
namespace ReviewAgent

open Effects

variable {D : Signature} {T : Type}

/-- What has occurred so far, newest first. -/
abbrev GuardedHistory (D : Signature) : Type := List (Occurrence (Guarded D))

/-- The breaker's critical sections, sleeping and drawing neither need nor change what `P` says. -/
def OverBookkeeping (P : GuardedHistory D → Prop) : Prop :=
  ∀ h (op : GuardOp D) (answer : (Guarded D).Answer op), (∀ o, op ≠ .dep o) → P h →
    P (⟨op, answer⟩ :: h)

/-- What a longer history does not take back. -/
def Lasting (P : GuardedHistory D → Prop) : Prop := ∀ h h', h ⊆ h' → P h → P h'

theorem Lasting.overBookkeeping {P : GuardedHistory D → Prop} (hP : Lasting P) :
    OverBookkeeping P :=
  fun _ _ _ _ hPh => hP _ _ (List.subset_cons_self _ _) hPh

/-- Bookkeeping is always allowed. -/
def AllowsBookkeeping (C : GuardedHistory D → GuardOp D → Prop) : Prop :=
  ∀ h op, (∀ o, op ≠ .dep o) → C h op

/-- `p` keeps to `C` from every history with `P`; it ends in `A`, or raises and leaves `E`. -/
def Behaves (C : GuardedHistory D → GuardOp D → Prop) (P : GuardedHistory D → Prop)
    (p : Program (Guarded D) Exc T) (A : T → GuardedHistory D → Prop)
    (E : GuardedHistory D → Prop) : Prop :=
  ∀ h, P h → p.Follows C (Ends A E) h

section

variable {P : GuardOp D → Prop} {func : Program (Guarded D) Exc T} {policy : RetryPolicy}
  {nonRetryableExceptions : List ExcClass} {wrap : Exc → Exc}

/-- A call adds the operations of the breaker to those of its function. -/
theorem call_issues (hP : ∀ op, (∀ o, op ≠ .dep o) → (∀ s, op = .sleep s → 0 < s) → P op)
    (hfunc : func.Issues P) : (CircuitBreaker.call func).Issues P := by
  refine Program.issues_bind ⟨hP _ (by simp) (by simp), fun _ => Program.issues_done _⟩ fun _ => ?_
  refine Program.issues_bind (Program.issues_tryCatch hfunc fun e => ?_) fun _ => ?_
  · refine Program.issues_bind ?_ fun _ => Program.issues_done _
    unfold noteRaised
    split
    · exact Program.issues_perform (hP _ (by simp) (by simp))
    · exact Program.issues_done _
  · refine Program.issues_bind ?_ fun _ => Program.issues_done _
    exact Program.issues_perform (hP _ (by simp) (by simp))

theorem backoff_issues (hrand : P .rand) (hsleep : ∀ s, 0 < s → P (.sleep s)) (n : ℕ) :
    (backoff policy (sleep (D := D)) rand n).Issues P := by
  unfold backoff
  split
  · refine Program.issues_bind (Program.issues_done _) fun delay => ?_
    refine Program.issues_bind ?_ fun delay' => ?_
    · unfold jittered
      split
      · exact Program.issues_bind (Program.issues_perform hrand) fun _ => Program.issues_done _
      · exact Program.issues_done _
    · split
      · exact Program.issues_perform (hsleep _ ‹_›)
      · exact Program.issues_done _
  · exact Program.issues_done _

/-- A client's call adds the operations of breaker and retry; it pauses only for a while. -/
theorem callReliably_issues (hP : ∀ op, (∀ o, op ≠ .dep o) → (∀ s, op = .sleep s → 0 < s) → P op)
    (hfunc : func.Issues P) :
    (callReliably policy nonRetryableExceptions wrap func).Issues P := by
  have hattempts : ∀ remaining n, (attemptsFrom (CircuitBreaker.call func) policy
      nonRetryableExceptions (sleep (D := D)) rand remaining n).Issues P := by
    intro remaining
    induction remaining with
    | zero => exact fun n => Program.issues_done _
    | succ remaining ih =>
      intro n
      have hsleep : ∀ s, 0 < s → P (.sleep s) := by
        refine fun s hpos => hP _ (by simp) fun s' hs => ?_
        obtain rfl := GuardOp.sleep.inj hs
        exact hpos
      refine Program.issues_bind (backoff_issues (hP _ (by simp) (by simp)) hsleep n) fun _ => ?_
      refine Program.issues_tryCatch (call_issues hP hfunc) fun e => ?_
      split
      · exact Program.issues_done _
      · split
        · split
          · exact Program.issues_done _
          · exact ih (n + 1)
        · exact Program.issues_done _
  exact Program.issues_tryCatch (hattempts _ _) fun e => Program.issues_done _

theorem backoff_endsWithin (n : ℕ) :
    (backoff policy (sleep (D := D)) rand n).EndsWithin 2 := by
  unfold backoff
  split
  · apply Program.EndsWithin.bind (m := 0) (n := 2) .done
    intro delay
    apply Program.EndsWithin.bind (m := 1) (n := 1)
    · unfold jittered
      split
      · exact fun u => .done
      · exact .done
    · intro delay'
      split
      · exact fun u => .done
      · exact .done
  · exact .done

theorem call_endsWithin {n : ℕ} (hfunc : func.EndsWithin n) :
    (CircuitBreaker.call func).EndsWithin (1 + (n + 1 + 1)) := by
  have henter : (enterBreaker (D := D)).EndsWithin 1 := fun _ => .done
  refine henter.bind fun _ => Program.EndsWithin.bind (m := n + 1) (n := 1) ?_ fun _ => ?_
  · refine hfunc.tryCatch fun e => Program.EndsWithin.bind (m := 1) (n := 0) ?_ fun _ => .done
    unfold noteRaised
    split
    · exact fun _ => .done
    · exact .done
  · exact fun _ => .done

/-- A client's call makes so many attempts, each within so many operations. -/
theorem callReliably_endsWithin {n : ℕ} (hfunc : func.EndsWithin n) :
    (callReliably policy nonRetryableExceptions wrap func).EndsWithin
      (policy.maxAttempts * (n + 5)) := by
  have hattempts : ∀ remaining attempt, (attemptsFrom (CircuitBreaker.call func) policy
      nonRetryableExceptions (sleep (D := D)) rand remaining attempt).EndsWithin
        (remaining * (n + 5)) := by
    intro remaining
    induction remaining with
    | zero => exact fun attempt => .done
    | succ remaining ih =>
      intro attempt
      have hsum : (remaining + 1) * (n + 5) = 2 + (1 + (n + 1 + 1) + remaining * (n + 5)) := by
        rw [Nat.succ_mul]
        omega
      rw [hsum]
      refine (backoff_endsWithin attempt).bind fun _ => (call_endsWithin hfunc).tryCatch fun e => ?_
      split
      · exact .done
      · split
        · split
          · exact .done
          · exact ih (attempt + 1)
        · exact .done
  exact (hattempts policy.maxAttempts 1).tryCatch (n := 0) fun e => .done

end

namespace Behaves

variable {C : GuardedHistory D → GuardOp D → Prop} {P E : GuardedHistory D → Prop} {U : Type}
  {p : Program (Guarded D) Exc T} {A : T → GuardedHistory D → Prop}
  {B : U → GuardedHistory D → Prop}

theorem bind {f : T → Program (Guarded D) Exc U} (hp : Behaves C P p A E)
    (hf : ∀ a, Behaves C (A a) (f a) B E) : Behaves C P (p >>= f) B E := by
  intro h hP
  exact (hp h hP).bind (fun a h' ha => hf a h' ha) fun e h' he => he

theorem done {r : Except Exc T} (h : ∀ h, P h → Ends A E r h) : Behaves C P (.done r) A E := h

theorem pure {a : T} (h : ∀ h, P h → A a h) :
    Behaves C P (Pure.pure a : Program (Guarded D) Exc T) A E := h

theorem throw {e : Exc} (h : ∀ h, P h → E h) :
    Behaves C P (MonadExcept.throw e : Program (Guarded D) Exc T) A E := h

theorem mono {P' E' : GuardedHistory D → Prop} {A' : T → GuardedHistory D → Prop}
    (hp : Behaves C P p A E) (hpre : ∀ h, P' h → P h) (hok : ∀ a h, A a h → A' a h)
    (herror : ∀ h, E h → E' h) : Behaves C P' p A' E' := by
  intro h hP
  refine (hp h (hpre h hP)).mono fun r h' hr => ?_
  cases r with
  | ok a => exact hok a h' hr
  | error e => exact herror h' hr

/-- What a longer history does not take back, a program does not either. -/
theorem frame {F : GuardedHistory D → Prop} (hF : Lasting F)
    (hp : Behaves C P p A E) : Behaves C (fun h => P h ∧ F h) p (fun a h => A a h ∧ F h)
      fun h => E h ∧ F h := by
  intro h hPF
  refine (hp h hPF.1).grows.mono fun r h' hr => ?_
  cases r with
  | ok a => exact ⟨hr.1, hF h h' hr.2.subset hPF.2⟩
  | error e => exact ⟨hr.1, hF h h' hr.2.subset hPF.2⟩

/-- Where a lasting fact allows everything, every program keeps to it. -/
theorem of_lasting {F : GuardedHistory D → Prop} (hF : Lasting F) (hC : ∀ h op, F h → C h op)
    (p : Program (Guarded D) Exc T) : Behaves C F p (fun _ => F) F := by
  intro h hFh
  induction p generalizing h with
  | done r => cases r <;> exact hFh
  | step op next ih =>
    exact ⟨hC h op hFh, fun answer => ih answer _ (hF _ _ (List.subset_cons_self _ _) hFh)⟩

/-- A program that issues only operations which are allowed and change nothing in what `P` says. -/
theorem of_issues {B : GuardOp D → Prop} (hC : ∀ h op, B op → P h → C h op)
    (hP : ∀ h op (answer : (Guarded D).Answer op), B op → P h → P (⟨op, answer⟩ :: h))
    (hp : p.Issues B) : Behaves C P p (fun _ => P) P := by
  intro h hPh
  induction p generalizing h with
  | done r => cases r <;> exact hPh
  | step op next ih =>
    exact ⟨hC h op hp.1 hPh, fun answer => ih answer (hp.2 answer) _ (hP h op answer hp.1 hPh)⟩

/-- One operation on the dependency, and what follows it. -/
theorem dep {op : D.Op} {k : D.Answer op → Program (Guarded D) Exc U}
    {R : D.Answer op → GuardedHistory D → Prop} (hC : ∀ h, P h → C h (.dep op))
    (hR : ∀ h (answer : D.Answer op), P h → R answer (⟨GuardOp.dep op, answer⟩ :: h))
    (hk : ∀ answer, Behaves C (R answer) (k answer) B E) :
    Behaves C P (ReviewAgent.dep op >>= k) B E := by
  intro h hP
  exact ⟨hC h hP, fun answer => hk answer _ (hR h answer hP)⟩

/-- One operation of the reliability layer, and what follows it. -/
theorem bookkeeping (hC : AllowsBookkeeping C) (hP : OverBookkeeping P) {op : GuardOp D}
    (hop : ∀ o, op ≠ .dep o) {k : (Guarded D).Answer op → Program (Guarded D) Exc U}
    (hk : ∀ answer, Behaves C P (k answer) B E) : Behaves C P (.step op k) B E := by
  intro h hPh
  exact ⟨hC h op hop, fun answer => hk answer _ (hP h op answer hop hPh)⟩

/-- An attempt through the breaker does what its function does, or is refused. -/
theorem call (hC : AllowsBookkeeping C) (hP : OverBookkeeping P) (hE : OverBookkeeping E)
    (hA : ∀ a, OverBookkeeping (A a))
    (hrefused : ∀ h e, P h → E (⟨.admission, .error e⟩ :: h)) (hp : Behaves C P p A E) :
    Behaves C P (CircuitBreaker.call p) A E := by
  unfold CircuitBreaker.call
  have henter : Behaves C P (enterBreaker (D := D)) (fun _ => P) E := by
    intro h hPh
    refine ⟨hC h _ (by simp), ?_⟩
    rintro (e | a)
    · exact hrefused h e hPh
    · exact hP h _ _ (by simp) hPh
  apply henter.bind
  intro _
  have hguarded : Behaves C P (tryCatch p fun e => do noteRaised e; MonadExcept.throw e) A E := by
    intro h hPh
    refine (hp h hPh).tryCatch (fun a h' ha => ha) fun e h' he => ?_
    unfold noteRaised
    split
    · have hnote : Behaves C E ((noteFailure (D := D)) >>= fun _ =>
          (MonadExcept.throw e : Program (Guarded D) Exc T)) A E :=
        bookkeeping hC hE (by simp) fun _ => throw fun _ h => h
      exact hnote h' he
    · exact he
  apply hguarded.bind
  intro a
  exact bookkeeping hC (hA a) (by simp) fun _ => pure fun _ h => h

theorem backoff (hC : AllowsBookkeeping C) (hP : OverBookkeeping P) {policy : RetryPolicy}
    {n : ℕ} : Behaves C P (ReviewAgent.backoff policy (sleep (D := D)) rand n) (fun _ => P) P := by
  unfold ReviewAgent.backoff
  split
  · have hjitter : ∀ delay, Behaves C P (jittered policy (rand (D := D)) delay) (fun _ => P) P := by
      intro delay
      unfold jittered
      split
      · exact bookkeeping hC hP (by simp) fun _ => pure fun _ h => h
      · exact pure fun _ h => h
    have hdelay : Behaves C P (Program.ofExcept (policy.delayForAttempt n)) (fun _ => P) P := by
      apply done
      intro h hPh
      cases policy.delayForAttempt n with
      | ok delay => exact hPh
      | error e => exact hPh
    apply hdelay.bind
    intro delay
    apply (hjitter delay).bind
    intro delay'
    split
    · exact bookkeeping hC hP (by simp) fun _ => done fun _ h => h
    · exact pure fun _ h => h
  · exact pure fun _ h => h

theorem attemptsFrom (hC : AllowsBookkeeping C) (hP : OverBookkeeping P)
    {policy : RetryPolicy} {nonRetryableExceptions : List ExcClass} (hp : Behaves C P p A P)
    (remaining n : ℕ) : Behaves C P
      (ReviewAgent.attemptsFrom p policy nonRetryableExceptions (sleep (D := D)) rand remaining n)
      A P := by
  induction remaining generalizing n with
  | zero => exact throw fun _ h => h
  | succ remaining ih =>
    apply (backoff hC hP).bind
    intro _ h hPh
    refine (hp h hPh).tryCatch (fun a h' ha => ha) fun e h' he => ?_
    split
    · exact he
    · split
      · split
        · exact he
        · exact ih (n + 1) h' he
      · exact he

/-- A client's call does what one attempt does: the first goes from `P`, the others from what a
failed attempt leaves. -/
theorem tried (hC : AllowsBookkeeping C) (hP : OverBookkeeping P) (hE : OverBookkeeping E)
    (hA : ∀ a, OverBookkeeping (A a))
    (hrefused : ∀ h e, P h → E (⟨.admission, .error e⟩ :: h)) {policy : RetryPolicy}
    {nonRetryableExceptions : List ExcClass} {wrap : Exc → Exc} (hfirst : Behaves C P p A E)
    (hagain : Behaves C E p A E) :
    Behaves C P (callReliably policy nonRetryableExceptions wrap p) A E := by
  obtain ⟨remaining, hremaining⟩ : ∃ r, policy.maxAttempts = r + 1 :=
    ⟨policy.maxAttempts - 1, by have := policy.one_le_maxAttempts; omega⟩
  have hattempts : Behaves C P (callWithRetry (CircuitBreaker.call p) policy
      nonRetryableExceptions (sleep (D := D)) rand) A E := by
    intro h hPh
    rw [callWithRetry, hremaining]
    refine (call hC hP hE hA hrefused hfirst h hPh).tryCatch (fun a h' ha => ha) fun e h' he => ?_
    split
    · exact he
    · split
      · split
        · exact he
        · exact attemptsFrom hC hE (call hC hE hE hA
            (fun h e => hE h _ _ (by simp)) hagain) remaining 2 h' he
      · exact he
  intro h hPh
  exact (hattempts h hPh).tryCatch (fun a h' ha => ha) fun e h' he => he

/-- A client's call does what one attempt does, when a failed attempt leaves what the next one
needs. -/
theorem reliably (hC : AllowsBookkeeping C) (hP : OverBookkeeping P)
    (hA : ∀ a, OverBookkeeping (A a)) {policy : RetryPolicy}
    {nonRetryableExceptions : List ExcClass} {wrap : Exc → Exc} (hp : Behaves C P p A P) :
    Behaves C P (callReliably policy nonRetryableExceptions wrap p) A P :=
  tried hC hP hP hA (fun h e => hP h _ _ (by simp)) hp hp

end Behaves

/-- `p` keeps to `C` from every history with `P`, and ends in `A` unless it raises. -/
def Learns (C : GuardedHistory D → GuardOp D → Prop) (P : GuardedHistory D → Prop)
    (p : Program (Guarded D) Exc T) (A : T → GuardedHistory D → Prop) : Prop :=
  Behaves C P p A fun _ => True

namespace Learns

variable {C : GuardedHistory D → GuardOp D → Prop} {P : GuardedHistory D → Prop} {U : Type}
  {p : Program (Guarded D) Exc T} {A : T → GuardedHistory D → Prop}
  {B : U → GuardedHistory D → Prop}

theorem keep (hP : Lasting P) (hp : Learns C P p A) :
    Behaves C P p (fun a h => A a h ∧ P h) P :=
  (Behaves.frame hP hp).mono (fun _ h => ⟨h, h⟩) (fun _ _ h => h) fun _ h => h.2

theorem bind {f : T → Program (Guarded D) Exc U} (hP : Lasting P) (hp : Learns C P p A)
    (hf : ∀ a, Learns C (fun h => P h ∧ A a h) (f a) B) : Learns C P (p >>= f) B := by
  have hkept : Behaves C P p (fun a h => P h ∧ A a h) fun _ => True :=
    (hp.keep hP).mono (fun _ h => h) (fun _ _ h => h.symm) fun _ _ => trivial
  exact hkept.bind hf

theorem mono {P' : GuardedHistory D → Prop} {A' : T → GuardedHistory D → Prop}
    (hp : Learns C P p A) (hpre : ∀ h, P' h → P h) (hok : ∀ a h, A a h → A' a h) :
    Learns C P' p A' :=
  Behaves.mono hp hpre hok fun _ h => h

theorem of_true (hp : Learns C (fun _ => True) p A) : Learns C P p A :=
  hp.mono (fun _ _ => trivial) fun _ _ h => h

theorem done {r : Except Exc T} (h : ∀ a h, r = .ok a → P h → A a h) :
    Learns C P (.done r) A := by
  intro hist hP
  cases r with
  | ok a => exact h a hist rfl hP
  | error e => trivial

theorem pure {a : T} (h : ∀ h, P h → A a h) :
    Learns C P (Pure.pure a : Program (Guarded D) Exc T) A := h

/-- One operation on the dependency, and what follows it. -/
theorem dep {op : D.Op} {k : D.Answer op → Program (Guarded D) Exc U} (hP : Lasting P)
    (hC : ∀ h, P h → C h (.dep op))
    (hk : ∀ answer, Learns C (fun h => P h ∧
      (⟨.dep op, answer⟩ : Occurrence (Guarded D)) ∈ h) (k answer) B) :
    Learns C P (ReviewAgent.dep op >>= k) B := by
  apply Behaves.dep (R := fun answer h => P h ∧
    (⟨.dep op, answer⟩ : Occurrence (Guarded D)) ∈ h) hC _ hk
  exact fun h answer hPh => ⟨hP _ _ (List.subset_cons_self _ _) hPh, List.mem_cons_self⟩

/-- A client's call ends in what one attempt ends in. -/
theorem reliably (hC : AllowsBookkeeping C) (hP : Lasting P) (hA : ∀ a, Lasting (A a))
    {policy : RetryPolicy} {nonRetryableExceptions : List ExcClass} {wrap : Exc → Exc}
    (hp : Learns C P p A) :
    Learns C P (callReliably policy nonRetryableExceptions wrap p) A := by
  have hboth : ∀ a, OverBookkeeping fun h => A a h ∧ P h := by
    intro a h op answer hop hAP
    exact ⟨(hA a).overBookkeeping h op answer hop hAP.1, hP.overBookkeeping h op answer hop hAP.2⟩
  exact (Behaves.reliably hC hP.overBookkeeping hboth (hp.keep hP)).mono (fun _ h => h)
    (fun _ _ h => h.1) fun _ _ => trivial

end Learns

theorem Lasting.and {P Q : GuardedHistory D → Prop} (hP : Lasting P) (hQ : Lasting Q) :
    Lasting fun h => P h ∧ Q h :=
  fun _ _ hs h => ⟨hP _ _ hs h.1, hQ _ _ hs h.2⟩

theorem lasting_mem (occurrence : Occurrence (Guarded D)) :
    Lasting fun h => occurrence ∈ h := fun _ _ hs h => hs h

theorem lasting_true : Lasting fun _ : GuardedHistory D => True := fun _ _ _ h => h

end ReviewAgent
