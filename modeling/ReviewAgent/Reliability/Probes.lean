import Mathlib.Data.List.Perm.Basic
import ReviewAgent.Reliability.BreakerRuns

/-! Probes in flight: calls admitted while the breaker was half open. -/
namespace ReviewAgent

open Effects

namespace BreakerWorld

/-- The probes that have been admitted and have not reported. -/
def probes (w : BreakerWorld) : ℕ := w.calls.countP fun call => call.entered = .halfOpen

/-- While a probe is in flight, the outcomes recorded are those of probes. -/
def ProbeDecides (w : BreakerWorld) (s : BreakerStep) (_ : BreakerWorld) : Prop :=
  match s with
  | .finish i outcome => ∀ call, w.calls[i]? = some call → Recorded outcome →
      w.probes = 0 ∨ call.entered = .halfOpen
  | _ => True

instance (w : BreakerWorld) (s : BreakerStep) (w' : BreakerWorld) :
    Decidable (w.ProbeDecides s w') :=
  match s with
  | .finish i outcome => inferInstanceAs (Decidable (∀ call ∈ w.calls[i]?, Recorded outcome →
      w.probes = 0 ∨ call.entered = .halfOpen))
  | .admission | .invoke _ | .snapshot | .tick _ => isTrue trivial

/-- A probe in flight has the flag to itself. -/
def Owned (w : BreakerWorld) : Prop :=
  w.probes = 0 ∨
    (w.probes = 1 ∧ w.breaker.state = .halfOpen ∧ w.breaker.probeInFlight = true)

variable {w w' : BreakerWorld} {s : BreakerStep} {i : ℕ} {call : BreakerCall}

theorem maybeExpireOpen_of_halfOpen {b : CircuitBreaker} {now : ℚ} (h : b.state = .halfOpen) :
    b.maybeExpireOpen now = b := by
  simp [CircuitBreaker.maybeExpireOpen, CircuitBreaker.due, h]

/-- A half-open breaker with its flag up admits nobody and stays as it is. -/
theorem admission_of_owned {b : CircuitBreaker} (now : ℚ) (hs : b.state = .halfOpen)
    (hflag : b.probeInFlight = true) : b.admits now = false ∧ (b.admission now).1 = b := by
  simp [CircuitBreaker.admits, CircuitBreaker.admission, CircuitBreaker.enter,
    maybeExpireOpen_of_halfOpen hs, hs, hflag, Except.isOk, Except.toBool]

/-- A call admitted half open raises the flag. -/
theorem admission_flag {b : CircuitBreaker} {now : ℚ} (hadmits : b.admits now = true)
    (hs : (b.admission now).1.state = .halfOpen) : (b.admission now).1.probeInFlight = true := by
  simp only [CircuitBreaker.admits, CircuitBreaker.admission, CircuitBreaker.enter] at hadmits hs ⊢
  split at hs
  · simp_all
  · split at hs
    · simp_all [Except.isOk, Except.toBool]
    · simp_all
  · simp_all

theorem probes_eraseIdx (h : w.calls[i]? = some call) :
    ({ w with calls := w.calls.eraseIdx i } : BreakerWorld).probes +
      (if call.entered = .halfOpen then 1 else 0) = w.probes := by
  obtain ⟨hi, rfl⟩ := List.getElem?_eq_some_iff.mp h
  have hp := (List.getElem_cons_eraseIdx_perm hi).countP_eq
    (fun call : BreakerCall => decide (call.entered = .halfOpen))
  simpa [probes, List.countP_cons] using hp

theorem probes_set (h : w.calls[i]? = some call) {call' : BreakerCall}
    (hentered : call'.entered = call.entered) :
    ({ w with calls := w.calls.set i call' } : BreakerWorld).probes = w.probes := by
  obtain ⟨hi, rfl⟩ := List.getElem?_eq_some_iff.mp h
  have hle := List.boole_getElem_le_countP
    (p := fun call : BreakerCall => decide (call.entered = .halfOpen)) hi
  simp only [probes, List.countP_set hi, hentered]
  omega

@[simp] theorem probes_record {outcome : Except Exc Unit} :
    (w.record outcome).probes = w.probes := by
  simp only [record]
  split
  · rfl
  · split <;> rfl

/-- A step at which probes decide keeps the flag with the one probe in flight. -/
theorem Owned.step (h : Owned w) (hdecides : w.ProbeDecides s w') (hw' : w.step s = some w') :
    Owned w' := by
  cases s with
  | admission =>
    rcases h with h | ⟨h, hs, hflag⟩
    · simp only [BreakerWorld.step] at hw'
      split at hw'
      · rename_i hadmits
        obtain rfl := Option.some.inj hw'
        by_cases hs : (w.breaker.admission w.now).1.state = .halfOpen
        · refine Or.inr ⟨?_, hs, admission_flag hadmits hs⟩
          have hzero : w.calls.countP (fun call => decide (call.entered = .halfOpen)) = 0 := h
          simp [probes, become, hzero, hs]
        · refine Or.inl ?_
          have hzero : w.calls.countP (fun call => decide (call.entered = .halfOpen)) = 0 := h
          simp only [probes, become, List.countP_append, hzero]
          simp [hs]
      · obtain rfl := Option.some.inj hw'
        exact Or.inl h
    · obtain ⟨hrejects, hsame⟩ := admission_of_owned w.now hs hflag
      simp only [BreakerWorld.step, hrejects, hsame, Bool.false_eq_true, if_false] at hw'
      obtain rfl := Option.some.inj hw'
      exact Or.inr ⟨h, hs, hflag⟩
  | invoke i =>
    simp only [BreakerWorld.step] at hw'
    split at hw'
    · rename_i entered period hcall
      obtain rfl := Option.some.inj hw'
      have hsame : ({ w with calls := w.calls.set i ⟨entered, period, true⟩ } :
          BreakerWorld).probes = w.probes := probes_set hcall rfl
      rw [Owned, hsame]
      exact h
    · cases hw'
  | finish i outcome =>
    simp only [BreakerWorld.step] at hw'
    split at hw'
    · rename_i entered period hcall
      obtain rfl := Option.some.inj hw'
      have herase := probes_eraseIdx hcall
      by_cases hprobe : entered = .halfOpen
      · -- the probe itself reports: none is left
        simp only [hprobe, if_true] at herase
        refine Or.inl ?_
        rw [probes_record]
        rcases h with h | ⟨h, -⟩ <;> omega
      · simp only [hprobe, if_false, add_zero] at herase
        by_cases hrec : Recorded outcome
        · rcases hdecides _ hcall hrec with hzero | he
          · exact Or.inl (by rw [probes_record, herase, hzero])
          · exact absurd he hprobe
        · cases outcome with
          | ok u => exact absurd trivial hrec
          | error e =>
            have hsame : e.isInstance .exception = false := by simpa [Recorded] using hrec
            simp only [record, hsame, Bool.false_eq_true, if_false]
            rw [Owned, herase]
            exact h
    · cases hw'
  | snapshot =>
    obtain rfl := Option.some.inj hw'
    rcases h with h | ⟨h, hs, hflag⟩
    · exact Or.inl h
    · refine Or.inr ⟨h, ?_⟩
      rw [maybeExpireOpen_of_halfOpen hs]
      exact ⟨hs, hflag⟩
  | tick seconds =>
    simp only [BreakerWorld.step] at hw'
    split at hw'
    · obtain rfl := Option.some.inj hw'
      exact h
    · cases hw'

/-- A run in which, while a probe is in flight, only probes report has at most one probe in flight
in the state it reaches, hence in every state on the way. -/
theorem probes_le_one (config : CircuitBreakerConfig) (name : String) (run : List BreakerStep)
    (w : BreakerWorld) (hrun : steps step (initial config name) run = some w)
    (hdecides : EveryStep step ProbeDecides (initial config name) run) : w.probes ≤ 1 := by
  have howned : Owned w := by
    refine steps_invariant ?_ (Or.inl rfl) hdecides hrun
    exact fun w s w' h hd hw' => h.step hd hw'
  rcases howned with h | ⟨h, -⟩ <;> omega

/-- A breaker opened by one failure, and its first probe. -/
def firstProbe : List BreakerStep :=
  [.admission, .invoke 0, .finish 0 (.error (.plain .osError "")), .tick 1, .admission]

theorem probes_le_one_firstProbe : ∃ w,
    steps step (initial .touchy "redis") firstProbe = some w ∧ w.probes ≤ 1 := by
  obtain ⟨w, hw⟩ : ∃ w, steps step (initial .touchy "redis") firstProbe = some w :=
    Option.isSome_iff_exists.mp (by decide +kernel)
  exact ⟨w, hw, probes_le_one .touchy "redis" firstProbe w hw (by decide +kernel)⟩

/-- Two calls are admitted closed; one opens the breaker, and the other fails under the first
probe, which opens it again. -/
def failureUnderProbe : List BreakerStep :=
  [.admission, .invoke 0, .admission, .invoke 1, .finish 0 (.error (.plain .osError "")), .tick 1, .admission,
    .finish 0 (.error (.plain .osError "")), .tick 1]

/-- The failure of a call admitted closed makes room for a second probe beside the first. -/
theorem late_failure_admits_second_probe : ¬ ∀ config name run w,
    steps step (initial config name) run = some w → w.probes ≤ 1 := by
  intro h
  have htwo : (steps step (initial .touchy "redis") (failureUnderProbe ++ [.admission])).map probes =
      some 2 := by decide +kernel
  obtain ⟨w, hw, hprobes⟩ := Option.map_eq_some_iff.mp htwo
  have := h .touchy "redis" _ w hw
  omega

end BreakerWorld

end ReviewAgent
