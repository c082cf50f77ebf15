import Mathlib.Data.List.Perm.Basic
import ReviewAgent.Reliability.BreakerStates

/-! Calls that hammer a breaker whose dependency is down. -/
namespace ReviewAgent

open Effects

def BreakerStep.invokes : BreakerStep → Bool
  | .invoke _ => true
  | _ => false

def BreakerStep.finishes : BreakerStep → Bool
  | .finish _ _ => true
  | _ => false

namespace BreakerWorld

variable {w w' : BreakerWorld} {s : BreakerStep} {past : List BreakerStep} {W : ℕ}
  {config : CircuitBreakerConfig} {name : String}

/-- How often a run invokes `func`, and how many of these invocations it finishes. -/
def invocations (run : List BreakerStep) : ℕ := run.countP BreakerStep.invokes

def finished (run : List BreakerStep) : ℕ := run.countP BreakerStep.finishes

/-- A call that ends here ends in an `Exception`. -/
def Raises : BreakerStep → Prop
  | .finish _ (.error e) => e.isInstance .exception = true
  | .finish _ (.ok ()) => False
  | .admission | .invoke _ | .snapshot | .tick _ => True

instance : DecidablePred Raises := fun s =>
  match s with
  | .finish _ (.error e) => inferInstanceAs (Decidable (e.isInstance .exception = true))
  | .finish _ (.ok ()) => isFalse nofun
  | .admission | .invoke _ | .snapshot | .tick _ => isTrue trivial

/-- Every `func` raises an `Exception`, at most `W` calls are in flight, and the clock stays within
the reset window of the first opening. -/
def Hammers (W : ℕ) (_ : BreakerWorld) (s : BreakerStep) (w' : BreakerWorld) : Prop :=
  Raises s ∧ w'.calls.length ≤ W ∧
    ∀ t ∈ w'.openings.getLast?, w'.now < t + w'.breaker.config.resetTimeoutSeconds

instance (w : BreakerWorld) (s : BreakerStep) (w' : BreakerWorld) :
    Decidable (w.Hammers W s w') :=
  inferInstanceAs (Decidable (Raises s ∧ _ ∧ ∀ t ∈ w'.openings.getLast?, _))

/-- Admitted, running and reported calls counted together; once open, the breaker stays open. -/
structure Hammered (W : ℕ) (past : List BreakerStep) (w : BreakerWorld) : Prop where
  failures : w.breaker.consecutiveFailures = finished past
  invoked : invocations past = finished past + w.calls.countP BreakerCall.invoked
  load : finished past + w.calls.length + 1 ≤ w.breaker.config.failureThreshold + W
  represents : w.breaker.Represents
  notHalfOpen : w.breaker.state ≠ .halfOpen
  neverOpened : w.breaker.state = .closed → w.openings = []
  stamped : w.breaker.state = .opened → ∃ t u, w.openings = [t] ∧ w.breaker.openedAt = some u ∧
    t ≤ u ∧ u ≤ w.now ∧ w.now < t + w.breaker.config.resetTimeoutSeconds

theorem hammered_initial : Hammered W [] (initial config name) where
  failures := rfl
  invoked := rfl
  load := by
    have := config.one_le_failureThreshold
    simp [finished, initial, CircuitBreaker.fresh]
    omega
  represents := .fresh config name
  notHalfOpen := nofun
  neverOpened _ := rfl
  stamped := nofun

/-- The reset window is not over: the breaker does not expire. -/
theorem Hammered.not_due (h : Hammered W past w) : w.breaker.due w.now = false := by
  rw [Bool.eq_false_iff]
  intro hdue
  obtain ⟨hs, u, hu, hreset⟩ := CircuitBreaker.due_iff.mp hdue
  obtain ⟨t, u', -, hu', htu, -, hnow⟩ := h.stamped hs
  obtain rfl := Option.some.inj (hu.symm.trans hu')
  linarith

/-- Past its threshold the breaker is open and rejects. -/
theorem Hammered.rejects (h : Hammered W past w)
    (hpast : w.breaker.config.failureThreshold ≤ finished past) :
    w.breaker.admission w.now = (w.breaker, .error (CircuitBreaker.circuitOpenError w.breaker.name)) := by
  cases hs : w.breaker.state with
  | closed =>
    have := (h.represents.closed hs).1
    have := h.failures
    omega
  | opened => exact CircuitBreaker.admission_of_opened hs h.not_due
  | halfOpen => exact absurd hs h.notHalfOpen

theorem invocations_append : invocations (past ++ [s]) =
    invocations past + if s.invokes then 1 else 0 := by
  simp [invocations, List.countP_append, List.countP_singleton]

theorem finished_append : finished (past ++ [s]) = finished past + if s.finishes then 1 else 0 := by
  simp [finished, List.countP_append, List.countP_singleton]

/-- A step that neither invokes nor finishes anything, and leaves breaker and calls alone. -/
theorem Hammered.idle (h : Hammered W past w) (hinvokes : s.invokes = false)
    (hfinishes : s.finishes = false) : Hammered W (past ++ [s]) w where
  failures := by simpa [finished_append, hfinishes] using h.failures
  invoked := by simpa [invocations_append, finished_append, hinvokes, hfinishes] using h.invoked
  load := by simpa [finished_append, hfinishes] using h.load
  represents := h.represents
  notHalfOpen := h.notHalfOpen
  neverOpened := h.neverOpened
  stamped := h.stamped

/-- A call asks for admission: a closed breaker has counted fewer failures than its threshold, and
an open one turns it away. -/
theorem Hammered.admission (h : Hammered W past w) (hfew : w'.calls.length ≤ W)
    (hw' : w.step .admission = some w') : Hammered W (past ++ [.admission]) w' := by
  simp only [BreakerWorld.step] at hw'
  cases hs : w.breaker.state with
  | closed =>
    simp only [CircuitBreaker.admits, CircuitBreaker.admission_of_closed hs, become_of_state,
      Except.isOk, Except.toBool, if_true] at hw'
    obtain rfl := Option.some.inj hw'
    have hbelow := (h.represents.closed hs).1
    have hfailures := h.failures
    have hidle := h.idle (s := .admission) rfl rfl
    refine ⟨hidle.failures, ?_, ?_, h.represents, h.notHalfOpen, h.neverOpened, h.stamped⟩
    · simpa using hidle.invoked
    · have hsame : finished (past ++ [.admission]) = finished past := finished_append
      simp only [List.length_append, List.length_singleton] at hfew ⊢
      omega
  | opened =>
    simp only [CircuitBreaker.admits, CircuitBreaker.admission_of_opened hs h.not_due,
      become_of_state, Except.isOk, Except.toBool, Bool.false_eq_true, if_false] at hw'
    obtain rfl := Option.some.inj hw'
    exact h.idle rfl rfl
  | halfOpen => exact absurd hs h.notHalfOpen

theorem countP_set_invoked {i : ℕ} {call : BreakerCall} (hcall : w.calls[i]? = some call)
    (hfalse : call.invoked = false) :
    (w.calls.set i { call with invoked := true }).countP BreakerCall.invoked =
      w.calls.countP BreakerCall.invoked + 1 := by
  obtain ⟨hi, rfl⟩ := List.getElem?_eq_some_iff.mp hcall
  simp [List.countP_set hi, hfalse]

theorem countP_eraseIdx_invoked {i : ℕ} {call : BreakerCall} (hcall : w.calls[i]? = some call)
    (htrue : call.invoked = true) :
    (w.calls.eraseIdx i).countP BreakerCall.invoked + 1 =
      w.calls.countP BreakerCall.invoked := by
  obtain ⟨hi, rfl⟩ := List.getElem?_eq_some_iff.mp hcall
  have hperm := (List.getElem_cons_eraseIdx_perm hi).countP_eq BreakerCall.invoked
  simpa [List.countP_cons, htrue] using hperm

theorem Hammered.invoke {i : ℕ} (h : Hammered W past w) (hw' : w.step (.invoke i) = some w') :
    Hammered W (past ++ [.invoke i]) w' := by
  obtain ⟨call, hcall, hfalse, rfl⟩ := step_invoke_some.mp hw'
  have hcount := countP_set_invoked hcall hfalse
  have hone : invocations (past ++ [.invoke i]) = invocations past + 1 := invocations_append
  have hsame : finished (past ++ [.invoke i]) = finished past := finished_append
  have hinvoked := h.invoked
  refine ⟨hsame ▸ h.failures, ?_, ?_, h.represents, h.notHalfOpen, h.neverOpened, h.stamped⟩
  · simp only
    omega
  · simpa [hsame] using h.load

/-- A call fails: one call fewer is in flight and one failure more is counted, and the breaker is
open once its threshold is reached. -/
theorem Hammered.finish {i : ℕ} {e : Exc} (h : Hammered W past w)
    (he : e.isInstance .exception = true) (hw' : w.step (.finish i (.error e)) = some w') :
    Hammered W (past ++ [.finish i (.error e)]) w' := by
  obtain ⟨call, hcall, htrue, rfl⟩ := step_finish_some.mp hw'
  have hcount := countP_eraseIdx_invoked hcall htrue
  have hlength : (w.calls.eraseIdx i).length + 1 = w.calls.length := by
    have hi := (List.getElem?_eq_some_iff.mp hcall).1
    rw [List.length_eraseIdx_of_lt hi]
    omega
  have hone : finished (past ++ [.finish i (.error e)]) = finished past + 1 := finished_append
  have hsame : invocations (past ++ [.finish i (.error e)]) = invocations past :=
    invocations_append
  have hinvoked := h.invoked
  have hload := h.load
  have hfailures := h.failures
  have hstate := @CircuitBreaker.recordFailure_state w.breaker w.now
  have hnot := h.notHalfOpen
  simp only [hnot, false_or] at hstate
  simp only [record, he, if_true, become]
  refine ⟨?_, ?_, ?_, h.represents.recordFailure, ?_, ?_, ?_⟩
  · simp [hone, hfailures]
  · simp only
    omega
  · simp only [CircuitBreaker.recordFailure_config]
    omega
  · simp only [hstate]
    split <;> simp [hnot]
  · intro hclosed
    have hstays := CircuitBreaker.recordFailure_closed.mp hclosed
    have hnew : (w.breaker.recordFailure w.now).state ≠ .opened := by
      intro ho
      cases hclosed.symm.trans ho
    exact (if_neg fun ho => hnew ho.1).trans (h.neverOpened hstays.1)
  · intro hopened
    have hpos := w.breaker.config.resetTimeoutSeconds_pos
    have hstamp : (w.breaker.recordFailure w.now).openedAt = some w.now := by
      have hle := (@CircuitBreaker.Represents.recordFailure _ w.now h.represents).opened hopened
      simp only [CircuitBreaker.recordFailure_config,
        CircuitBreaker.recordFailure_consecutiveFailures] at hle
      simp [CircuitBreaker.recordFailure, hle.1]
    cases hs : w.breaker.state with
    | closed =>
      refine ⟨w.now, w.now, ?_, hstamp, le_rfl, le_rfl, ?_⟩
      · exact (if_pos ⟨hopened, by simp⟩).trans (by rw [h.neverOpened hs])
      · simp only [CircuitBreaker.recordFailure_config]
        linarith
    | opened =>
      obtain ⟨t, u, hopenings, -, htu, hu, hnow⟩ := h.stamped hs
      refine ⟨t, w.now, by simpa using hopenings, hstamp, htu.trans hu, le_rfl, ?_⟩
      simpa using hnow
    | halfOpen => exact absurd hs hnot

theorem Hammered.tick {seconds : ℚ} (h : Hammered W past w)
    (hfirst : ∀ t, w'.openings.getLast? = some t →
      w'.now < t + w'.breaker.config.resetTimeoutSeconds)
    (hw' : w.step (.tick seconds) = some w') : Hammered W (past ++ [.tick seconds]) w' := by
  have hidle := h.idle (s := .tick seconds) rfl rfl
  simp only [BreakerWorld.step] at hw'
  split at hw'
  · rename_i hpos
    obtain rfl := Option.some.inj hw'
    refine ⟨hidle.failures, hidle.invoked, hidle.load, h.represents, h.notHalfOpen,
      h.neverOpened, ?_⟩
    intro hs
    obtain ⟨t, u, hopenings, hu, htu, hun, -⟩ := h.stamped hs
    refine ⟨t, u, hopenings, hu, htu, ?_, hfirst t (by simp [hopenings])⟩
    simp only
    linarith
  · cases hw'

theorem Hammered.step (h : Hammered W past w) (hc : Hammers W w s w') (hw' : w.step s = some w') :
    Hammered W (past ++ [s]) w' := by
  obtain ⟨hfails, hfew, hfirst⟩ := hc
  cases s with
  | admission => exact h.admission hfew hw'
  | invoke i => exact h.invoke hw'
  | finish i outcome =>
    cases outcome with
    | ok u => exact absurd hfails id
    | error e => exact h.finish hfails hw'
  | snapshot =>
    simp only [BreakerWorld.step] at hw'
    rw [CircuitBreaker.maybeExpireOpen_of_not_due (by simp [h.not_due]), become_of_state rfl] at hw'
    obtain rfl := Option.some.inj hw'
    exact h.idle rfl rfl
  | tick seconds => exact h.tick hfirst hw'

/-- However many calls hammer a dead dependency, `W` at a time: the threshold is passed by less than
`W` invocations, every finished one is counted, and past the threshold a call is turned away. -/
theorem load_bounded (config : CircuitBreakerConfig) (name : String) (W : ℕ)
    (run : List BreakerStep) (w : BreakerWorld)
    (hrun : steps step (initial config name) run = some w)
    (hhammers : EveryStep step (Hammers W) (initial config name) run) :
    invocations run ≤ config.failureThreshold + W - 1 ∧
      w.breaker.consecutiveFailures = finished run ∧
      (config.failureThreshold ≤ finished run →
        (w.breaker.admission w.now).2 = .error (CircuitBreaker.circuitOpenError name)) := by
  obtain ⟨rfl, rfl⟩ := keeps_reached hrun
  have h : Hammered W run w := by
    refine steps_history (I := Hammered W) ?_ hammered_initial hhammers hrun
    exact fun past w s w' h hc hw' => h.step hc hw'
  have hrunning : w.calls.countP BreakerCall.invoked ≤ w.calls.length := List.countP_le_length
  have hinvoked := h.invoked
  have hload := h.load
  exact ⟨by omega, h.failures, fun hpast => by rw [h.rejects hpast]⟩

/-- Two calls at a time against threshold 1. -/
def twoFailures : List BreakerStep :=
  [.admission, .invoke 0, .admission, .invoke 1, .finish 0 (.error (.plain .osError "")),
    .finish 0 (.error (.plain .osError ""))]

theorem load_bounded_twoFailures : ∃ w,
    steps step (initial .touchy "redis") twoFailures = some w ∧
      (invocations twoFailures ≤ CircuitBreakerConfig.touchy.failureThreshold + 2 - 1 ∧
        w.breaker.consecutiveFailures = finished twoFailures ∧
        (CircuitBreakerConfig.touchy.failureThreshold ≤ finished twoFailures →
          (w.breaker.admission w.now).2 = .error (CircuitBreaker.circuitOpenError "redis"))) := by
  obtain ⟨w, hw⟩ : ∃ w, steps step (initial .touchy "redis") twoFailures = some w :=
    Option.isSome_iff_exists.mp (by decide +kernel)
  exact ⟨w, hw, load_bounded .touchy "redis" 2 twoFailures w hw (by decide +kernel)⟩

end BreakerWorld

end ReviewAgent
