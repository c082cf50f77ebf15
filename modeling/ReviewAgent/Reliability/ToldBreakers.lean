import ReviewAgent.Effects.LeftOut
import ReviewAgent.Reliability.BreakerStates
import ReviewAgent.Reliability.GuardedHistories

/-! The breaker of a client over an interleaving of its callers, and the same breaker told of some of
them only; and what a program does whose call is turned away. -/
namespace ReviewAgent

open Effects

variable {D : Signature} {σ χ μ T : Type} {M : Machine D σ χ μ} {inst : ℕ → ℕ}

/-- The callers of the breakers are the threads, nobody else. -/
def soleCallers (M : Machine D σ χ μ) (inst : ℕ → ℕ) :
    Machine (Guarded D) (GuardWorld σ) (GuardChoice χ) (GuardMove μ) where
  perform := guardPerform M inst
  move w
    | .tick seconds => guardMove M w (.tick seconds)
    | .dep m => guardMove M w (.dep m)
    | _ => none

abbrev GuardMoment (D : Signature) (σ : Type) : Type := Machine.Moment (Guarded D) (GuardWorld σ)

/-- A client's breaker after one of its operations. -/
def GuardOp.recorded (b : CircuitBreaker) (now : ℚ) : GuardOp D → CircuitBreaker
  | .admission => (b.admission now).1
  | .recordFailure => b.recordFailure now
  | .recordSuccess => b.recordSuccess
  | _ => b

/-- What the breaker `b` of client `k` has come to, had it been told only of the threads that count. -/
def told (inst : ℕ → ℕ) (k : ℕ) (counts : ℕ → Prop) [DecidablePred counts] (b : CircuitBreaker) :
    List (GuardMoment D σ) → CircuitBreaker
  | [] => b
  | m :: past =>
    if inst m.thread = k ∧ counts m.thread then
      m.occurrence.op.recorded (told inst k counts b past) m.world.clock
    else told inst k counts b past

section

variable {i k : ℕ} {w w' v : GuardWorld σ} {op : GuardOp D} {c : GuardChoice χ}
  {answer : (Guarded D).Answer op} {b b' : CircuitBreaker} {now : ℚ}

theorem perform_breaker (h : guardPerform M inst i w op c = some (w', answer)) :
    w'.breaker k = if inst i = k then op.recorded (w.breaker k) w.clock else w.breaker k := by
  cases op <;> cases c <;> simp only [guardPerform] at h <;> try cases h
  · by_cases hk : inst i = k
    · subst hk
      rw [if_pos rfl]
      unfold GuardWorld.admission
      split
      · exact GuardWorld.setBreaker_breaker
      · exact GuardWorld.setBreaker_breaker
    · rw [if_neg hk]
      unfold GuardWorld.admission
      split
      · exact Function.update_of_ne (Ne.symm hk) _ _
      · exact Function.update_of_ne (Ne.symm hk) _ _
  · by_cases hk : inst i = k
    · subst hk
      simp [GuardOp.recorded]
    · simp [hk, GuardWorld.setBreaker, Function.update_of_ne (Ne.symm hk)]
  · by_cases hk : inst i = k
    · subst hk
      simp [GuardOp.recorded]
    · simp [hk, GuardWorld.setBreaker, Function.update_of_ne (Ne.symm hk)]
  · simp [GuardOp.recorded]
  · split at h <;> cases h
    simp [GuardOp.recorded]
  · obtain ⟨r, -, hr⟩ := Option.map_eq_some_iff.mp h
    obtain ⟨rfl, -⟩ := Prod.mk.inj hr
    simp [GuardOp.recorded]

@[simp] theorem recorded_name : (op.recorded b now).name = b.name := by
  cases op <;> simp [GuardOp.recorded, CircuitBreaker.recordSuccess]

theorem perform_name (h : guardPerform M inst i w op c = some (w', answer)) :
    (w'.breaker k).name = (w.breaker k).name := by
  rw [perform_breaker h]
  split
  · exact recorded_name
  · rfl

/-- The answer to a call depends on the name of the breaker and on whether it admits the call. -/
theorem admission_answer : (b.admission now).2 =
    if b.admits now then .ok () else .error (CircuitBreaker.circuitOpenError b.name) := by
  unfold CircuitBreaker.admits
  cases hadmission : (b.admission now).2 with
  | ok u => rfl
  | error e =>
    have he := CircuitBreaker.enter_error (b := b.maybeExpireOpen now) hadmission
    rw [CircuitBreaker.maybeExpireOpen_name] at he
    simp [he, Except.isOk, Except.toBool]

end

/-- At a call of the breaker: turned away, the program is at its end, with what `turned` makes of
that; let through, it goes on. -/
def HingesAt (turned : Exc → Exc) : (op : GuardOp D) →
    ((Guarded D).Answer op → Program (Guarded D) Exc T) → Prop
  | .admission, next => (∃ op' next', next (.ok ()) = .step op' next') ∧
      ∀ e, e.cls = .circuitOpenError → next (.error e) = .done (.error (turned e))
  | _, _ => True

/-- The operation does not ask the breaker. -/
def Unasking (op : GuardOp D) : Prop := op ≠ .admission

/-- A program that one call turned away ends. -/
def Hinges (turned : Exc → Exc) : Program (Guarded D) Exc T → Prop
  | .done _ => True
  | .step op next => HingesAt turned op next ∧ ∀ answer, Hinges turned (next answer)

section

variable {α β : Type} {turned turned' : Exc → Exc} {p : Program (Guarded D) Exc α}

theorem hingesAt_of_unasking {op : GuardOp D}
    {next : (Guarded D).Answer op → Program (Guarded D) Exc α} (hop : Unasking op) :
    HingesAt turned op next := by
  cases op with
  | admission => exact absurd rfl hop
  | _ => trivial

/-- Of two breakers of which one admits the call, the program goes on with one and ends with the
other. -/
theorem Hinges.parts {next : (Guarded D).Answer .admission → Program (Guarded D) Exc α}
    (hp : Hinges turned (.step (.admission : GuardOp D) next)) {b b' : CircuitBreaker} {now : ℚ}
    (hdiffer : b'.admits now ≠ b.admits now) :
    Machine.Parted (next (b.admission now).2) (next (b'.admission now).2) := by
  obtain ⟨⟨hgoes, hends⟩, -⟩ := hp
  have hended : ∀ name, ∃ r, next (.error (CircuitBreaker.circuitOpenError name)) = .done r :=
    fun name => ⟨_, hends _ rfl⟩
  rw [admission_answer, admission_answer]
  cases hadmits : b.admits now with
  | true =>
    have hnot : b'.admits now = false := by simpa [hadmits] using hdiffer
    rw [hnot]
    exact Or.inr ⟨hgoes, hended b'.name⟩
  | false =>
    have hadmits' : b'.admits now = true := by simpa [hadmits] using hdiffer
    rw [hadmits']
    exact Or.inl ⟨hended b.name, hgoes⟩

/-- What never asks the breaker. -/
theorem Hinges.of_issues (hp : p.Issues Unasking) : Hinges turned p := by
  induction p with
  | done r => trivial
  | step op next ih => exact ⟨hingesAt_of_unasking hp.1, fun answer => ih answer (hp.2 answer)⟩

theorem Hinges.andThen {k : Except Exc α → Program (Guarded D) Exc β} (hp : Hinges turned p)
    (hk : ∀ r, Hinges turned' (k r))
    (hturned : ∀ e, e.cls = .circuitOpenError →
      k (.error (turned e)) = .done (.error (turned' e))) : Hinges turned' (p.andThen k) := by
  induction p with
  | done r => exact hk r
  | step op next ih =>
    refine ⟨?_, fun answer => ih answer (hp.2 answer)⟩
    cases op with
    | admission =>
      obtain ⟨⟨op', next', hstep⟩, hend⟩ := hp.1
      refine ⟨⟨op', _, congrArg (Program.andThen · k) hstep⟩, fun e he => ?_⟩
      show (next (.error e)).andThen k = _
      rw [hend e he]
      exact hturned e he
    | _ => trivial

theorem Hinges.bind {f : α → Program (Guarded D) Exc β} (hp : Hinges turned p)
    (hf : ∀ a, Hinges turned (f a)) : Hinges turned (p >>= f) := by
  refine hp.andThen (fun r => ?_) fun e _ => rfl
  cases r with
  | ok a => exact hf a
  | error e => trivial

/-- A call of a function that does something. -/
theorem hinges_call {op : GuardOp D} {next : (Guarded D).Answer op → Program (Guarded D) Exc α}
    (hfunc : (Program.step op next : Program (Guarded D) Exc α).Issues Unasking) :
    Hinges id (CircuitBreaker.call (.step op next)) := by
  have hnote : ∀ e, (noteRaised (D := D) e).Issues Unasking := by
    intro e
    unfold noteRaised
    split
    · exact Program.issues_perform (by simp [Unasking])
    · exact Program.issues_done _
  have hguarded : (tryCatch (.step op next) fun e => do
      noteRaised e
      throw e : Program (Guarded D) Exc α).Issues Unasking :=
    Program.issues_tryCatch hfunc fun e =>
      Program.issues_bind (hnote e) fun _ => Program.issues_done _
  refine ⟨⟨⟨op, _, rfl⟩, fun e _ => rfl⟩, ?_⟩
  rintro (e | u)
  · trivial
  · exact (Hinges.of_issues hguarded).bind fun result => Hinges.of_issues
      (Program.issues_bind (Program.issues_perform (by simp [Unasking])) fun _ =>
        Program.issues_done _)

/-- Retry does not repeat a call that was turned away, where that is not to be retried. -/
theorem hinges_callReliably {policy : RetryPolicy} {nonRetryableExceptions : List ExcClass}
    {wrap : Exc → Exc} (hfast : .circuitOpenError ∈ nonRetryableExceptions) {op : GuardOp D}
    {next : (Guarded D).Answer op → Program (Guarded D) Exc α}
    (hfunc : (Program.step op next : Program (Guarded D) Exc α).Issues Unasking) :
    Hinges (outward wrap) (callReliably policy nonRetryableExceptions wrap (.step op next)) := by
  have hbackoff : ∀ n, (backoff policy (sleep (D := D)) rand n).Issues Unasking :=
    backoff_issues (by simp [Unasking]) (by simp [Unasking])
  have hattempts : ∀ remaining n, Hinges id (attemptsFrom (CircuitBreaker.call (.step op next)) policy
      nonRetryableExceptions (sleep (D := D)) rand remaining n) := by
    intro remaining
    induction remaining with
    | zero => exact fun n => trivial
    | succ remaining ih =>
      intro n
      refine (Hinges.of_issues (hbackoff n)).bind fun _ => ?_
      refine (hinges_call hfunc).andThen (fun r => ?_) fun e he => ?_
      · cases r with
        | ok a => trivial
        | error e =>
          show Hinges id (ite _ _ _)
          split
          · trivial
          · split
            · split
              · trivial
              · exact ih (n + 1)
            · trivial
      · have hlisted : e.isInstanceOfAny nonRetryableExceptions = true :=
          Exc.isInstanceOfAny_iff.mpr ⟨_, hfast, by simp [Exc.isInstance, he]⟩
        exact if_pos hlisted
  refine (hattempts _ _).andThen (fun r => ?_) fun e _ => rfl
  cases r with
  | ok a => trivial
  | error e => trivial

end

end ReviewAgent
