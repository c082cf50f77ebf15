import Mathlib.Tactic.Linarith
import ReviewAgent.Reliability.BreakerRuns

/-! The documented edges of the breaker, and the runs that keep to them. -/
namespace ReviewAgent

open Effects

namespace BreakerWorld

variable {w w' : BreakerWorld} {s : BreakerStep} {config : CircuitBreakerConfig} {name : String}

/-- The probe of this half-open period reports an outcome. -/
def ProbeReports (w : BreakerWorld) (s : BreakerStep) (reported : Except Exc Unit → Prop) : Prop :=
  ∃ i outcome call, s = .finish i outcome ∧ w.calls[i]? = some call ∧
    call.entered = .halfOpen ∧ call.period = w.period ∧ reported outcome

/-- A call reports a failure that the breaker counts. -/
def IsFailure (outcome : Except Exc Unit) : Prop :=
  ∃ e, outcome = .error e ∧ e.isInstance .exception = true

/-- The state stays, or changes along one of the four edges. -/
def Documented (w : BreakerWorld) (s : BreakerStep) (w' : BreakerWorld) : Prop :=
  match w.breaker.state, w'.breaker.state with
  | .closed, .closed | .opened, .opened | .halfOpen, .halfOpen => True
  | .closed, .opened => (∃ i outcome, s = .finish i outcome ∧ IsFailure outcome) ∧
      w.streak + 1 = w.breaker.config.failureThreshold
  | .opened, .halfOpen =>
    ∃ t, w.openings.head? = some t ∧ t + w.breaker.config.resetTimeoutSeconds ≤ w.now
  | .halfOpen, .closed => w.ProbeReports s (· = .ok ())
  | .halfOpen, .opened => w.ProbeReports s IsFailure
  | .closed, .halfOpen | .opened, .closed => False

/-- The edge is documented, and no `func` is invoked within the reset window of an opening. -/
def Contracted (w : BreakerWorld) (s : BreakerStep) (w' : BreakerWorld) : Prop :=
  w.Documented s w' ∧ ∀ i, s = .invoke i → w.WindowsOver

/-- While the breaker is not closed, the only outcomes recorded are those of calls admitted since
it last changed its state, and failures while it is open; and no call invokes `func` while the
breaker is open within its reset window. -/
def InTurn (w : BreakerWorld) (s : BreakerStep) (_ : BreakerWorld) : Prop :=
  match s with
  | .finish i outcome => ∀ call, w.calls[i]? = some call → Recorded outcome →
      w.breaker.state = .closed ∨ call.period = w.period ∨
        (w.breaker.state = .opened ∧ IsFailure outcome)
  | .invoke _ => w.breaker.state = .opened → w.WindowsOver
  | _ => True

/-- What holds between the steps of a run that keeps to the edges. -/
structure Orderly (w : BreakerWorld) : Prop where
  streak : w.breaker.consecutiveFailures = w.streak
  below : w.breaker.state = .closed → w.streak < w.breaker.config.failureThreshold
  calls : ∀ call ∈ w.calls, call.period ≤ w.period ∧
    (call.period = w.period → call.entered = w.breaker.state) ∧ call.entered ≠ .opened
  stamped : w.breaker.state = .opened → ∃ t ts u, w.openings = t :: ts ∧
    w.breaker.openedAt = some u ∧ t ≤ u ∧ u ≤ w.now ∧
      ∀ v ∈ ts, v + w.breaker.config.resetTimeoutSeconds ≤ w.now
  windows : w.breaker.state ≠ .opened → w.WindowsOver

theorem orderly_initial : Orderly (initial config name) where
  streak := rfl
  below _ := config.one_le_failureThreshold
  calls := by simp [initial]
  stamped := by simp [initial, CircuitBreaker.fresh]
  windows _ := by simp [WindowsOver, initial]

/-- An open breaker whose window has elapsed has its latest opening behind it by that much. -/
theorem Orderly.due (h : Orderly w) (hdue : w.breaker.due w.now = true) :
    w.breaker.state = .opened ∧ ∃ t ts, w.openings = t :: ts ∧
      t + w.breaker.config.resetTimeoutSeconds ≤ w.now ∧ w.WindowsOver := by
  obtain ⟨hs, u, hu, hle⟩ := CircuitBreaker.due_iff.mp hdue
  obtain ⟨t, ts, u', hopen, hu', htu, -, hts⟩ := h.stamped hs
  obtain rfl := Option.some.inj (hu.symm.trans hu')
  have ht : t + w.breaker.config.resetTimeoutSeconds ≤ w.now := by linarith
  refine ⟨hs, t, ts, hopen, ht, ?_⟩
  intro v hv
  rw [hopen] at hv
  rcases List.mem_cons.mp hv with rfl | hv
  · exact ht
  · exact hts v hv

/-- What expiry and admission do to an orderly breaker: nothing that shows, or the edge from open
to half open. -/
theorem Orderly.become (h : Orderly w) {b : CircuitBreaker}
    (hstate : b.state = (w.breaker.maybeExpireOpen w.now).state)
    (hconfig : b.config = w.breaker.config)
    (hfailures : b.consecutiveFailures = w.breaker.consecutiveFailures)
    (hopened : b.openedAt = w.breaker.openedAt) :
    Orderly (w.become b) ∧ w.Documented s (w.become b) := by
  rw [CircuitBreaker.maybeExpireOpen_state] at hstate
  by_cases hdue : w.breaker.due w.now = true
  · rw [if_pos hdue] at hstate
    obtain ⟨hs, t, ts, hopen, ht, hover⟩ := h.due hdue
    refine ⟨⟨by simpa [BreakerWorld.become, hfailures] using h.streak, ?_, ?_, ?_, ?_⟩, ?_⟩
    · simp [BreakerWorld.become, hstate]
    · intro call hcall
      have hle := (h.calls call hcall).1
      have hne : b.state ≠ w.breaker.state := by simp [hstate, hs]
      refine ⟨?_, ?_, (h.calls call hcall).2.2⟩
      · simp only [BreakerWorld.become, if_neg hne]
        omega
      · simp only [BreakerWorld.become, if_neg hne]
        omega
    · simp [BreakerWorld.become, hstate]
    · intro _
      simpa [WindowsOver, BreakerWorld.become, hstate, hconfig] using hover
    · simp only [Documented, BreakerWorld.become, hs, hstate]
      exact ⟨t, by simp [hopen], ht⟩
  · rw [if_neg hdue] at hstate
    have hsame : ¬ (b.state = .opened ∧ w.breaker.state ≠ .opened) := by simp [hstate]
    refine ⟨⟨by simpa [BreakerWorld.become, hfailures] using h.streak, ?_, ?_, ?_, ?_⟩, ?_⟩
    · simpa [BreakerWorld.become, hstate, hconfig] using h.below
    · simpa [BreakerWorld.become, hstate] using h.calls
    · simpa [BreakerWorld.become, hstate, hconfig, hopened] using h.stamped
    · simpa [WindowsOver, BreakerWorld.become, hstate, hconfig] using h.windows
    · simp only [Documented, BreakerWorld.become, hstate]
      cases w.breaker.state <;> trivial

/-- Dropping a call changes nothing else. -/
theorem Orderly.erase (h : Orderly w) (i : ℕ) :
    Orderly { w with calls := w.calls.eraseIdx i } where
  streak := h.streak
  below := h.below
  calls call hcall := h.calls call (List.mem_of_mem_eraseIdx hcall)
  stamped := h.stamped
  windows := h.windows

/-- A success leaves an orderly breaker closed with nothing counted, if its windows are over. -/
theorem Orderly.recordSuccess (h : Orderly w) (hs : w.breaker.state ≠ .opened) :
    Orderly (w.record (.ok ())) := by
  refine ⟨rfl, fun _ => w.breaker.config.one_le_failureThreshold, ?_, ?_, ?_⟩
  · intro call hcall
    obtain ⟨hle, hentered, hopened⟩ := h.calls call hcall
    by_cases hc : w.breaker.state = .closed
    · simpa [record, BreakerWorld.become, CircuitBreaker.recordSuccess, hc] using
        ⟨hle, fun hp => hc ▸ hentered hp, hopened⟩
    · have hne : w.breaker.recordSuccess.state ≠ w.breaker.state :=
        fun he => hc (he.symm.trans rfl)
      refine ⟨?_, ?_, hopened⟩
      · simp only [record, BreakerWorld.become, if_neg hne]
        omega
      · simp only [record, BreakerWorld.become, if_neg hne]
        omega
  · simp [record, BreakerWorld.become, CircuitBreaker.recordSuccess]
  · intro _
    simpa [WindowsOver, record, BreakerWorld.become, CircuitBreaker.recordSuccess] using h.windows hs

/-- A failure keeps the breaker orderly, whatever its state. -/
theorem Orderly.recordFailure (h : Orderly w) {e : Exc} (he : e.isInstance .exception = true) :
    Orderly (w.record (.error e)) := by
  have hrecord : w.record (.error e) =
      { w.become (w.breaker.recordFailure w.now) with streak := w.streak + 1 } := by
    simp [record, he]
  rw [hrecord]
  refine ⟨?_, ?_, ?_, ?_, ?_⟩
  · simp [BreakerWorld.become, h.streak]
  · intro hc
    have := (CircuitBreaker.recordFailure_closed.mp hc).2
    simpa [BreakerWorld.become, h.streak] using this
  · intro call hcall
    obtain ⟨hle, hentered, hopened⟩ := h.calls call hcall
    by_cases hs : (w.breaker.recordFailure w.now).state = w.breaker.state
    · simpa [BreakerWorld.become, hs] using ⟨hle, hentered, hopened⟩
    · refine ⟨?_, ?_, hopened⟩
      · simp only [BreakerWorld.become, if_neg hs]
        omega
      · simp only [BreakerWorld.become, if_neg hs]
        omega
  · intro hopen
    by_cases hs : w.breaker.state = .opened
    · obtain ⟨t, ts, u, hts, hu, htu, hun, hrest⟩ := h.stamped hs
      rcases CircuitBreaker.recordFailure_openedAt hopen with hnew | ⟨-, hold⟩
      · exact ⟨t, ts, w.now, by simp [BreakerWorld.become, hs, hts], hnew, htu.trans hun,
          le_rfl, by simpa [BreakerWorld.become] using hrest⟩
      · exact ⟨t, ts, u, by simp [BreakerWorld.become, hs, hts], hold.trans hu, htu, hun,
          by simpa [BreakerWorld.become] using hrest⟩
    · rcases CircuitBreaker.recordFailure_openedAt hopen with hnew | ⟨hold, -⟩
      · have hopen' : (w.breaker.recordFailure w.now).state = .opened := hopen
        refine ⟨w.now, w.openings, w.now, by simp [BreakerWorld.become, hs, hopen'], hnew,
          le_rfl, le_rfl, ?_⟩
        simpa [BreakerWorld.become, WindowsOver] using h.windows hs
      · exact absurd hold hs
  · intro hne
    have hs : w.breaker.state ≠ .opened := by
      intro hs
      refine hne ?_
      simp [BreakerWorld.become, CircuitBreaker.recordFailure_state, hs]
    have hne' : (w.breaker.recordFailure w.now).state ≠ .opened := hne
    simpa [WindowsOver, BreakerWorld.become, hne'] using h.windows hs

theorem Documented.of_state (h : w'.breaker.state = w.breaker.state) : w.Documented s w' := by
  simp only [Documented, h]
  cases w.breaker.state <;> trivial

/-- Recording an outcome moves an orderly breaker along an edge, to an orderly one, exactly when it
comes in turn. -/
theorem Orderly.finish (h : Orderly w) {i : ℕ} {outcome : Except Exc Unit} {call : BreakerCall}
    (hcall : w.calls[i]? = some call)
    (hw' : ({ w with calls := w.calls.eraseIdx i } : BreakerWorld).record outcome = w') :
    (w.Documented (.finish i outcome) w' → Orderly w') ∧
      (w.InTurn (.finish i outcome) w' ↔ w.Documented (.finish i outcome) w') := by
  have herased := h.erase i
  obtain ⟨-, hentered, hopened⟩ := h.calls call (List.mem_of_getElem? hcall)
  have hturn : w.InTurn (.finish i outcome) w' ↔ (Recorded outcome →
      w.breaker.state = .closed ∨ call.period = w.period ∨
        (w.breaker.state = .opened ∧ IsFailure outcome)) := by
    simp [InTurn, hcall]
  have hprobe : ∀ reported : Except Exc Unit → Prop, w.breaker.state = .halfOpen →
      reported outcome →
      (w.ProbeReports (.finish i outcome) reported ↔ call.period = w.period) := by
    intro reported hs hr
    constructor
    · rintro ⟨i', outcome', call', he, hc', -, hp, -⟩
      obtain ⟨rfl, rfl⟩ := BreakerStep.finish.inj he
      exact Option.some.inj (hcall.symm.trans hc') ▸ hp
    · intro hp
      exact ⟨i, outcome, call, rfl, hcall, (hentered hp).trans hs, hp, hr⟩
  rw [hturn]
  by_cases hrec : Recorded outcome
  swap
  · -- what passes unrecorded leaves the breaker alone
    rw [record_unrecorded hrec] at hw'
    subst hw'
    exact ⟨fun _ => herased, fun _ => Documented.of_state rfl, fun _ hr => absurd hr hrec⟩
  simp only [hrec, forall_const]
  cases outcome with
  | ok u =>
    have hnot : ¬ IsFailure (.ok u) := by simp [IsFailure]
    have hstate : w'.breaker.state = .closed := by rw [← hw']; rfl
    refine ⟨?_, ?_⟩
    · intro hdoc
      rw [← hw']
      refine herased.recordSuccess fun hs => ?_
      have hs' : w.breaker.state = .opened := hs
      simp [Documented, hs', hstate] at hdoc
    · cases hs : w.breaker.state with
      | closed => simp [Documented, hs, hstate]
      | opened =>
        have hne : call.period ≠ w.period := fun hp => hopened ((hentered hp).trans hs)
        simp [Documented, hs, hstate, hnot, hne]
      | halfOpen =>
        simp only [Documented, hs, hstate]
        rw [hprobe (· = .ok ()) hs rfl]
        simp
  | error e =>
    have he : e.isInstance .exception = true := hrec
    have hfailure : IsFailure (.error e) := ⟨e, rfl, he⟩
    refine ⟨fun _ => hw' ▸ herased.recordFailure he, ?_⟩
    have hstate : w'.breaker.state = (w.breaker.recordFailure w.now).state := by
      rw [← hw']
      simp only [record, he, if_true]
      rfl
    rw [CircuitBreaker.recordFailure_state] at hstate
    cases hs : w.breaker.state with
    | closed =>
      simp only [hs, reduceCtorEq, false_or] at hstate
      split at hstate
      · rename_i hle
        have hbelow := h.below hs
        have hstreak := h.streak
        have hnow : w.streak + 1 = w.breaker.config.failureThreshold := by omega
        simp only [Documented, hs, hstate, true_or, true_iff]
        exact ⟨⟨i, _, rfl, hfailure⟩, hnow⟩
      · simp [Documented, hs, hstate]
    | opened =>
      simp only [hs] at hstate
      simp only [hfailure, and_self, or_true, true_iff]
      apply Documented.of_state
      rw [hs, hstate]
      split <;> rfl
    | halfOpen =>
      simp only [hs, true_or, if_true] at hstate
      simp only [Documented, hs, hstate]
      rw [hprobe _ hs hfailure]
      simp

/-- One step of an orderly breaker: it keeps the contract exactly when it comes in turn, and then
leaves the breaker orderly. -/
theorem Orderly.step (h : Orderly w) (hw' : w.step s = some w') :
    (w.InTurn s w' → Orderly w') ∧ (w.InTurn s w' ↔ w.Contracted s w') := by
  cases s with
  | admission =>
    have hb := h.become (s := .admission) (@CircuitBreaker.admission_state _ w.now)
      CircuitBreaker.admission_config CircuitBreaker.admission_consecutiveFailures
      CircuitBreaker.admission_openedAt
    simp only [BreakerWorld.step] at hw'
    split at hw'
    · rename_i hadmits
      obtain rfl := Option.some.inj hw'
      refine ⟨fun _ => ⟨hb.1.streak, hb.1.below, ?_, hb.1.stamped, hb.1.windows⟩,
        fun _ => ⟨hb.2, by simp⟩, fun _ => trivial⟩
      intro call hcall
      rcases List.mem_append.mp hcall with hcall | hcall
      · exact hb.1.calls call hcall
      · obtain rfl := List.mem_singleton.mp hcall
        exact ⟨le_rfl, fun _ => rfl, CircuitBreaker.admission_state_of_admits hadmits⟩
    · obtain rfl := Option.some.inj hw'
      exact ⟨fun _ => hb.1, fun _ => ⟨hb.2, by simp⟩, fun _ => trivial⟩
  | invoke i =>
    simp only [BreakerWorld.step] at hw'
    split at hw'
    · rename_i entered period hcall
      obtain rfl := Option.some.inj hw'
      refine ⟨fun _ => ⟨h.streak, h.below, ?_, h.stamped, h.windows⟩, ?_, ?_⟩
      · intro call hmem
        rcases List.mem_or_eq_of_mem_set hmem with hmem | rfl
        · exact h.calls call hmem
        · exact h.calls ⟨entered, period, false⟩ (List.mem_of_getElem? hcall)
      · intro hturn
        refine ⟨Documented.of_state rfl, fun _ _ => ?_⟩
        by_cases hs : w.breaker.state = .opened
        · exact hturn hs
        · exact h.windows hs
      · exact fun hc _ => hc.2 i rfl
    · cases hw'
  | finish i outcome =>
    simp only [BreakerWorld.step] at hw'
    split at hw'
    · rename_i hcall
      obtain ⟨hkeeps, hiff⟩ := h.finish hcall (Option.some.inj hw')
      refine ⟨fun hturn => hkeeps (hiff.mp hturn), hiff.trans ⟨fun hd => ⟨hd, by simp⟩, And.left⟩⟩
    · cases hw'
  | snapshot =>
    have hb := h.become (s := .snapshot) (b := w.breaker.maybeExpireOpen w.now) rfl (by simp)
      (by simp) (by simp)
    obtain rfl := Option.some.inj hw'
    exact ⟨fun _ => hb.1, fun _ => ⟨hb.2, by simp⟩, fun _ => trivial⟩
  | tick seconds =>
    simp only [BreakerWorld.step] at hw'
    split at hw'
    · rename_i hpos
      obtain rfl := Option.some.inj hw'
      refine ⟨fun _ => ⟨h.streak, h.below, h.calls, ?_, ?_⟩,
        fun _ => ⟨Documented.of_state rfl, by simp⟩, fun _ => trivial⟩
      · intro hs
        obtain ⟨t, ts, u, hts, hu, htu, hun, hrest⟩ := h.stamped hs
        refine ⟨t, ts, u, hts, hu, htu, by simp only; linarith, fun v hv => ?_⟩
        have := hrest v hv
        simp only
        linarith
      · intro hs v hv
        have := h.windows hs v hv
        simp only
        linarith
    · cases hw'

/-- A run keeps to the documented edges, with no `func` invoked within a reset window, exactly when
its outcomes are recorded and its calls begun in turn. -/
theorem contracted_iff (config : CircuitBreakerConfig) (name : String)
    (run : List BreakerStep) : EveryStep step Contracted (initial config name) run ↔
      EveryStep step InTurn (initial config name) run := by
  symm
  apply everyStep_iff (I := Orderly)
  · exact fun w s w' h hturn hw' => (h.step hw').1 hturn
  · exact fun w s w' h hw' => (h.step hw').2
  · exact orderly_initial

/-- Two calls are admitted; the first fails and opens the breaker. -/
def openedUnderCall : List BreakerStep :=
  [.admission, .invoke 0, .admission, .invoke 1, .finish 0 (.error (.plain .osError ""))]

/-- The success of the second call, admitted before the breaker opened, closes it again. -/
theorem late_success_closes : ¬ ∀ config name run,
    EveryStep step Contracted (initial config name) run := by
  intro h
  obtain ⟨w, hw, hs, hcalls⟩ : ∃ w, steps step (initial .touchy "redis") openedUnderCall = some w ∧
      w.breaker.state = .opened ∧ w.calls = [⟨.closed, 0, true⟩] := by
    refine ⟨_, rfl, ?_, ?_⟩ <;> decide +kernel
  have hstep : w.step (.finish 0 (.ok ())) = some (({ w with calls := [] }).record (.ok ())) := by
    simp [step, hcalls]
  have hdoc := ((h .touchy "redis" (openedUnderCall ++ [.finish 0 (.ok ())])).last hw hstep).1
  simp [Documented, hs, record, become, CircuitBreaker.recordSuccess] at hdoc

end BreakerWorld

end ReviewAgent
