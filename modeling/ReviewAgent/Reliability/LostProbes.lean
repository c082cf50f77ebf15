import ReviewAgent.Reliability.LateFailures
import ReviewAgent.Reliability.Probes

/-! Probes that end without an outcome the breaker records, and when a call is let through again. -/
namespace ReviewAgent

open Effects

namespace BreakerWorld

variable {w w' : BreakerWorld} {s : BreakerStep} {run : List BreakerStep} {i : ℕ}
  {call : BreakerCall} {outcome : Except Exc Unit} {config : CircuitBreakerConfig} {name : String}

/-- The call is a probe of the half-open period the breaker is in. -/
def ProbeOf (w : BreakerWorld) (call : BreakerCall) : Prop :=
  call.entered = .halfOpen ∧ call.period = w.period

/-- The steps report nothing to the breaker. -/
def Unreported (run : List BreakerStep) : Prop :=
  ∀ i outcome, .finish i outcome ∈ run → ¬ Recorded outcome

/-- A probe of the period the breaker was in ended in what is not an `Exception`, and since then no
call has reported an outcome. -/
def ProbeLost (config : CircuitBreakerConfig) (name : String) (run : List BreakerStep) : Prop :=
  ∃ before after i outcome w call, run = before ++ .finish i outcome :: after ∧
    steps step (initial config name) before = some w ∧ w.calls[i]? = some call ∧ w.ProbeOf call ∧
    ¬ Recorded outcome ∧ Unreported after

/-- No admitted call is still running, and the breaker is closed or last opened a reset window ago
or longer. -/
def Rested (w : BreakerWorld) : Prop :=
  w.calls = [] ∧ (w.breaker.state = .closed ∨
    ∃ t, w.openings.head? = some t ∧ t + w.breaker.config.resetTimeoutSeconds ≤ w.now)

/-- The flag is up in a half-open breaker. -/
def Flagged (w : BreakerWorld) : Prop :=
  w.breaker.state = .halfOpen ∧ w.breaker.probeInFlight = true

/-- A breaker turns a call away while its flag is up, and while it waits for its window to end. -/
theorem admits_iff_not_flagged : w.breaker.admits w.now = true ↔
    ¬ w.Flagged ∧ ¬ (w.breaker.state = .opened ∧ ¬ w.breaker.due w.now = true) := by
  cases hs : w.breaker.state with
  | closed => simp [Flagged, hs, CircuitBreaker.admits, CircuitBreaker.admission_of_closed hs,
      Except.isOk, Except.toBool]
  | opened =>
    by_cases hdue : w.breaker.due w.now = true
    · simp [Flagged, hs, hdue, CircuitBreaker.admits, CircuitBreaker.admission,
        CircuitBreaker.enter, CircuitBreaker.maybeExpireOpen_of_due hdue, Except.isOk,
        Except.toBool]
    · simp [Flagged, hs, hdue, CircuitBreaker.admits,
        CircuitBreaker.admission_of_opened hs (by simpa using hdue), Except.isOk, Except.toBool]
  | halfOpen =>
    cases hflag : w.breaker.probeInFlight with
    | false => simp [Flagged, hs, hflag, CircuitBreaker.admits, CircuitBreaker.admission,
        CircuitBreaker.enter, maybeExpireOpen_of_halfOpen hs, Except.isOk, Except.toBool]
    | true => simp [Flagged, hs, hflag, admission_of_owned w.now hs hflag]

/-- A call reports to the breaker. -/
def Reports (s : BreakerStep) : Prop := ∃ i outcome, s = .finish i outcome ∧ Recorded outcome

/-- A probe of this half-open period ends without a report. -/
def Loses (w : BreakerWorld) (s : BreakerStep) : Prop :=
  ∃ i outcome call, s = .finish i outcome ∧ w.calls[i]? = some call ∧ w.ProbeOf call ∧
    ¬ Recorded outcome

/-- A probe is lost at the last step, or was lost before it and the step reports nothing. -/
theorem probeLost_append (hrun : steps step (initial config name) run = some w) :
    ProbeLost config name (run ++ [s]) ↔
      (ProbeLost config name run ∧ ¬ Reports s) ∨ w.Loses s := by
  constructor
  · rintro ⟨before, after, i, outcome, u, call, hsplit, hu, hcall, hprobe, hlost, hafter⟩
    rcases List.eq_nil_or_concat after with rfl | ⟨rest, t, rfl⟩
    · obtain ⟨rfl, hs⟩ := List.append_inj' hsplit rfl
      obtain rfl := Option.some.inj (hrun.symm.trans hu)
      exact Or.inr ⟨i, outcome, call, by simpa using hs, hcall, hprobe, hlost⟩
    · have hsplit' : run ++ [s] = (before ++ .finish i outcome :: rest) ++ [t] := by
        simpa using hsplit
      obtain ⟨rfl, hs⟩ := List.append_inj' hsplit' rfl
      obtain rfl := List.singleton_inj.mp hs
      refine Or.inl ⟨⟨before, rest, i, outcome, u, call, rfl, hu, hcall, hprobe, hlost, ?_⟩, ?_⟩
      · exact fun j o hj => hafter j o (by simp [hj])
      · rintro ⟨j, o, rfl, ho⟩
        exact hafter j o (by simp) ho
  · rintro (⟨⟨before, after, i, outcome, u, call, rfl, hu, hcall, hprobe, hlost, hafter⟩, hquiet⟩ |
      ⟨i, outcome, call, rfl, hcall, hprobe, hlost⟩)
    · refine ⟨before, after ++ [s], i, outcome, u, call, by simp, hu, hcall, hprobe, hlost, ?_⟩
      intro j o hj ho
      rcases List.mem_append.mp hj with hj | hj
      · exact hafter j o hj ho
      · exact hquiet ⟨j, o, (List.mem_singleton.mp hj).symm, ho⟩
    · exact ⟨run, [], i, outcome, w, call, rfl, hrun, hcall, hprobe, hlost, by simp [Unreported]⟩

/-- Who holds the flag: the probe that is running, or one that was lost. -/
structure Held (config : CircuitBreakerConfig) (name : String) (past : List BreakerStep)
    (w : BreakerWorld) : Prop where
  reached : steps step (initial config name) past = some w
  periods : ∀ call ∈ w.calls, call.period ≤ w.period
  flagged : w.Flagged ↔ (∃ call ∈ w.calls, w.ProbeOf call) ∨ ProbeLost config name past

theorem Held.not_flagged (h : Held config name run w) (hs : w.breaker.state ≠ .halfOpen) :
    (∀ call ∈ w.calls, ¬ w.ProbeOf call) ∧ ¬ ProbeLost config name run := by
  have hnot : ¬ w.Flagged := fun hf => hs hf.1
  rw [h.flagged, not_or] at hnot
  exact ⟨by simpa using hnot.1, hnot.2⟩

/-- A step that reports nothing and loses no probe leaves the lost probes as they are. -/
theorem Held.quiet (h : Held config name run w) (hw' : w.step s = some w')
    (hs : ∀ i outcome, s ≠ .finish i outcome) (hperiods : ∀ call ∈ w'.calls, call.period ≤ w'.period)
    (hflagged : w'.Flagged ↔ (∃ call ∈ w'.calls, w'.ProbeOf call) ∨ ProbeLost config name run) :
    Held config name (run ++ [s]) w' := by
  refine ⟨?_, hperiods, ?_⟩
  · rw [steps_append, h.reached]
    simpa [steps] using hw'
  · have hlost : ProbeLost config name (run ++ [s]) ↔ ProbeLost config name run := by
      rw [probeLost_append h.reached]
      constructor
      · rintro (⟨hlost, -⟩ | ⟨i, outcome, -, rfl, -⟩)
        · exact hlost
        · exact absurd rfl (hs i outcome)
      · intro hlost
        refine Or.inl ⟨hlost, ?_⟩
        rintro ⟨i, outcome, he, -⟩
        exact hs i outcome he
    rw [hflagged, hlost]

/-- A breaker whose state stays has its probes and lost probes as they were. -/
theorem Held.same (h : Held config name run w) (hw' : w.step s = some w')
    (hs : ∀ i outcome, s ≠ .finish i outcome) (hcalls : w'.calls = w.calls)
    (hperiod : w'.period = w.period) (hflag : w'.Flagged ↔ w.Flagged) :
    Held config name (run ++ [s]) w' := by
  refine h.quiet hw' hs ?_ ?_
  · rw [hcalls, hperiod]
    exact h.periods
  · simp only [hflag, h.flagged, hcalls, ProbeOf, hperiod]

theorem le_period_become {b : CircuitBreaker} : w.period ≤ (w.become b).period := by
  simp only [become]
  split <;> omega

/-- A breaker that rejects a call stays as it is. -/
theorem admission_of_rejected {b : CircuitBreaker} {now : ℚ} (h : ¬ b.admits now = true) :
    (b.admission now).1 = b := by
  simp only [CircuitBreaker.admits, CircuitBreaker.admission, CircuitBreaker.enter] at h ⊢
  split at h
  · rename_i hs
    have hdue : ¬ b.due now = true := by
      intro hdue
      simp [CircuitBreaker.maybeExpireOpen_of_due hdue] at hs
    simp [CircuitBreaker.maybeExpireOpen_of_not_due hdue]
  · rename_i hs
    split at h
    · rename_i hflag
      have hdue : ¬ b.due now = true := by
        intro hdue
        simp [CircuitBreaker.maybeExpireOpen_of_due hdue] at hflag
      simp only [CircuitBreaker.maybeExpireOpen_of_not_due hdue] at hflag ⊢
      simp [hflag]
    · exact absurd rfl h
  · exact absurd rfl h

/-- A call asks for admission: it is let through as the probe that holds the flag, or who holds the
flag stays as it was. -/
theorem Held.admission (h : Held config name run w) (hw' : w.step .admission = some w') :
    Held config name (run ++ [.admission]) w' := by
  by_cases hadmits : w.breaker.admits w.now = true
  · have hcalls := hw'
    rw [BreakerWorld.step, if_pos hadmits] at hcalls
    cases hs : (w.breaker.admission w.now).1.state with
    | closed =>
      have hclosed := CircuitBreaker.admission_state_closed.mp hs
      rw [CircuitBreaker.admission_of_closed hclosed, become_of_state rfl] at hcalls
      obtain rfl := Option.some.inj hcalls
      obtain ⟨hprobes, hlost⟩ := h.not_flagged (by simp [hclosed])
      refine h.quiet hw' (by simp) ?_ ?_
      · intro call hcall
        rcases List.mem_append.mp hcall with hcall | hcall
        · exact h.periods call hcall
        · obtain rfl := List.mem_singleton.mp hcall
          exact le_rfl
      · have hnew : ∀ call ∈ w.calls ++ [⟨w.breaker.state, w.period, false⟩], ¬ w.ProbeOf call := by
          intro call hcall
          rcases List.mem_append.mp hcall with hcall | hcall
          · exact hprobes call hcall
          · obtain rfl := List.mem_singleton.mp hcall
            simp [ProbeOf, hclosed]
        refine iff_of_false (fun hf => by simp [Flagged, hclosed] at hf) ?_
        rintro (⟨call, hcall, hprobe⟩ | hl)
        · exact hnew call hcall hprobe
        · exact hlost hl
    | opened => exact absurd hs (CircuitBreaker.admission_state_of_admits hadmits)
    | halfOpen =>
      obtain rfl := Option.some.inj hcalls
      refine h.quiet hw' (by simp) ?_ ?_
      · intro call hcall
        rcases List.mem_append.mp hcall with hcall | hcall
        · exact (h.periods call hcall).trans le_period_become
        · obtain rfl := List.mem_singleton.mp hcall
          exact le_rfl
      · let probe : BreakerCall := ⟨(w.breaker.admission w.now).1.state,
          (w.become (w.breaker.admission w.now).1).period, false⟩
        refine iff_of_true ⟨hs, admission_flag hadmits hs⟩ (Or.inl ⟨probe, ?_, hs, rfl⟩)
        exact List.mem_append_right _ (List.mem_singleton.mpr rfl)
  · have hsame := hw'
    rw [BreakerWorld.step, if_neg hadmits, admission_of_rejected hadmits, become_of_state rfl]
      at hsame
    obtain rfl := Option.some.inj hsame
    exact h.same hw' (by simp) rfl rfl Iff.rfl

/-- Expiry takes the flag down, and the half-open period it begins has no probe yet. -/
theorem Held.snapshot (h : Held config name run w) (hw' : w.step .snapshot = some w') :
    Held config name (run ++ [.snapshot]) w' := by
  have hw := Option.some.inj hw'
  by_cases hdue : w.breaker.due w.now = true
  · rw [CircuitBreaker.maybeExpireOpen_of_due hdue] at hw
    have hs := (CircuitBreaker.due_iff.mp hdue).1
    obtain ⟨-, hlost⟩ := h.not_flagged (by simp [hs])
    subst hw
    refine h.quiet hw' (by simp) ?_ ?_
    · exact fun call hcall => (h.periods call hcall).trans le_period_become
    · refine iff_of_false (fun hf => by simp [Flagged, become] at hf) ?_
      rintro (⟨call, hcall, -, hperiod⟩ | hl)
      · have := h.periods call hcall
        simp [become, hs] at hperiod
        omega
      · exact hlost hl
  · rw [CircuitBreaker.maybeExpireOpen_of_not_due hdue, become_of_state rfl] at hw
    subst hw
    exact h.same hw' (by simp) rfl rfl Iff.rfl

/-- Invoking `func` leaves a call the probe it was, or was not. -/
theorem map_set_invoked (hcall : w.calls[i]? = some call) :
    (w.calls.set i { call with invoked := true }).map (fun c => (c.entered, c.period)) =
      w.calls.map fun c => (c.entered, c.period) := by
  obtain ⟨hi, rfl⟩ := List.getElem?_eq_some_iff.mp hcall
  refine List.ext_getElem (by simp) fun j hj _ => ?_
  by_cases hij : i = j
  · subst hij
    simp
  · simp [hij]

theorem Held.invoke (h : Held config name run w) (hw' : w.step (.invoke i) = some w') :
    Held config name (run ++ [.invoke i]) w' := by
  obtain ⟨call, hcall, -, rfl⟩ := step_invoke_some.mp hw'
  have hsame := map_set_invoked hcall
  refine h.quiet hw' (by simp) ?_ ?_
  · have hperiods : ∀ c ∈ w.calls.map (fun c => (c.entered, c.period)), c.2 ≤ w.period :=
      List.forall_mem_map.mpr h.periods
    rw [← hsame] at hperiods
    exact List.forall_mem_map.mp hperiods
  · have hprobes : ∀ calls : List BreakerCall, (∃ c ∈ calls, w.ProbeOf c) ↔
        (.halfOpen, w.period) ∈ calls.map fun c => (c.entered, c.period) := by
      simp [ProbeOf]
    change w.Flagged ↔ (∃ c ∈ w.calls.set i { call with invoked := true }, w.ProbeOf c) ∨ _
    rw [h.flagged, hprobes, hprobes, hsame]

/-- What a call reports ends the half-open period it is reported in, and takes the flag down. -/
theorem record_of_recorded (hrec : Recorded outcome) :
    ¬ (w.record outcome).Flagged ∧
      (w.breaker.state = .halfOpen → (w.record outcome).period = w.period + 1) := by
  cases outcome with
  | ok u => simp +contextual [record, become, Flagged, CircuitBreaker.recordSuccess]
  | error e =>
    have he : e.isInstance .exception = true := hrec
    simp only [record, he, if_true, become, Flagged]
    refine ⟨?_, fun hs => ?_⟩
    · simp only [CircuitBreaker.recordFailure]
      split <;> simp
    · simp [CircuitBreaker.recordFailure_state, hs]

theorem le_period_record : w.period ≤ (w.record outcome).period := by
  cases outcome with
  | ok u => exact le_period_become
  | error e =>
    simp only [record]
    split
    · exact le_period_become
    · exact le_rfl

theorem calls_record : (w.record outcome).calls = w.calls := by
  simp only [record]
  split
  · rfl
  · split <;> rfl

/-- A call ends. Its report takes the flag down; without one the flag stays up, and is nobody's if
the call was the probe. -/
theorem Held.finish (h : Held config name run w) (hw' : w.step (.finish i outcome) = some w') :
    Held config name (run ++ [.finish i outcome]) w' := by
  obtain ⟨call, hcall, -, rfl⟩ := step_finish_some.mp hw'
  have hmem : ∀ c, c ∈ w.calls ↔ c = call ∨ c ∈ w.calls.eraseIdx i := by
    obtain ⟨hi, rfl⟩ := List.getElem?_eq_some_iff.mp hcall
    intro c
    rw [← List.mem_cons]
    exact (List.getElem_cons_eraseIdx_perm hi).mem_iff.symm
  refine ⟨?_, ?_, ?_⟩
  · rw [steps_append, h.reached]
    simpa [steps] using hw'
  · intro c hc
    rw [calls_record] at hc
    have hle := h.periods c ((hmem c).mpr (Or.inr hc))
    exact hle.trans (le_period_record (w := { w with calls := w.calls.eraseIdx i }))
  · rw [probeLost_append h.reached, calls_record]
    by_cases hrec : Recorded outcome
    · obtain ⟨hdown, hnext⟩ := record_of_recorded
        (w := { w with calls := w.calls.eraseIdx i }) hrec
      refine iff_of_false hdown ?_
      rintro (⟨c, hc, hentered, hperiod⟩ | ⟨-, hquiet⟩ | ⟨j, o, c, he, -, -, hlost⟩)
      · have hle := h.periods c ((hmem c).mpr (Or.inr hc))
        have hgrows : w.period ≤
            (({ w with calls := w.calls.eraseIdx i } : BreakerWorld).record outcome).period :=
          le_period_record (w := { w with calls := w.calls.eraseIdx i })
        have hcur : c.period = w.period := by omega
        have hflagged : w.Flagged :=
          h.flagged.mpr (Or.inl ⟨c, (hmem c).mpr (Or.inr hc), hentered, hcur⟩)
        have := hnext hflagged.1
        simp only at this
        omega
      · exact hquiet ⟨i, outcome, rfl, hrec⟩
      · cases he
        exact hlost hrec
    · have hsame := record_unrecorded (w := { w with calls := w.calls.eraseIdx i }) hrec
      have hquiet : ¬ Reports (.finish i outcome) := by
        rintro ⟨j, o, he, ho⟩
        cases he
        exact hrec ho
      have hloses : w.Loses (.finish i outcome) ↔ w.ProbeOf call := by
        constructor
        · rintro ⟨j, o, c, he, hc, hprobe, -⟩
          cases he
          obtain rfl := Option.some.inj (hcall.symm.trans hc)
          exact hprobe
        · exact fun hprobe => ⟨i, outcome, call, rfl, hcall, hprobe, hrec⟩
      rw [hsame, hloses, and_iff_left hquiet]
      change w.Flagged ↔ (∃ c ∈ w.calls.eraseIdx i, w.ProbeOf c) ∨ _
      rw [h.flagged]
      simp only [hmem, or_and_right, exists_or, exists_eq_left]
      rw [or_comm (a := w.ProbeOf call), or_assoc, or_comm (a := w.ProbeOf call)]

theorem Held.step (h : Held config name run w) (hw' : w.step s = some w') :
    Held config name (run ++ [s]) w' := by
  cases s with
  | admission => exact h.admission hw'
  | invoke i => exact h.invoke hw'
  | finish i outcome => exact h.finish hw'
  | snapshot => exact h.snapshot hw'
  | tick seconds =>
    have htick := hw'
    simp only [BreakerWorld.step] at htick
    split at htick
    · obtain rfl := Option.some.inj htick
      exact h.same hw' (by simp) rfl rfl Iff.rfl
    · cases htick

theorem held_reached (hrun : steps step (initial config name) run = some w) :
    Held config name run w := by
  refine steps_history (I := Held config name) ?_ ⟨rfl, ?_, ?_⟩ (everyStep_true _ _ _) hrun
  · exact fun past w s w' h _ hw' => h.step hw'
  · simp [initial]
  · simp [Flagged, initial, CircuitBreaker.fresh, ProbeLost]

/-- A rested breaker waits for no window but one that a late failure began. -/
theorem Rested.waits_iff (h : w.Rested) (hrun : steps step (initial config name) run = some w) :
    (w.breaker.state = .opened ∧ ¬ w.breaker.due w.now = true) ↔
      Restamped config name run w.now := by
  have hstamped := stamped_reached hrun
  rcases h.2 with hclosed | ⟨t, hhead, hle⟩
  · refine iff_of_false (fun hopened => by simp [hclosed] at hopened) ?_
    rintro ⟨t, hfailed, hlt⟩
    have hopened := ((hstamped.failed t hfailed).2 hlt).1
    simp [hclosed] at hopened
  · refine hstamped.waits_iff fun u hu => ?_
    obtain rfl := Option.some.inj (hhead.symm.trans hu)
    rwa [hstamped.sameConfig] at hle

/-- A rested breaker lets the next call through exactly when no probe of its half-open period was
lost and no failure reported while it was open is less than a reset window old. -/
theorem admits_iff_no_probe_lost (config : CircuitBreakerConfig) (name : String)
    (run : List BreakerStep) (w : BreakerWorld)
    (hrun : steps step (initial config name) run = some w) (hrested : w.Rested) :
    w.breaker.admits w.now = true ↔
      ¬ ProbeLost config name run ∧ ¬ Restamped config name run w.now := by
  rw [admits_iff_not_flagged, hrested.waits_iff hrun, (held_reached hrun).flagged, hrested.1]
  simp

/-- A breaker opened by one failure, when its window is over. -/
def windowPassed : List BreakerStep :=
  [.admission, .invoke 0, .finish 0 (.error (.plain .osError "")), .tick 1]

theorem admits_iff_windowPassed : ∃ w, steps step (initial .touchy "redis") windowPassed = some w ∧
    w.Rested ∧ w.breaker.admits w.now = true ∧ ¬ ProbeLost .touchy "redis" windowPassed ∧
    ¬ Restamped .touchy "redis" windowPassed w.now := by
  obtain ⟨w, hw, hcalls, hat, hnow, hconfig, hadmits⟩ : ∃ w,
      steps step (initial .touchy "redis") windowPassed = some w ∧ w.calls = [] ∧
      w.openings.head? = some 0 ∧ w.now = 1 ∧ w.breaker.config.resetTimeoutSeconds = 1 ∧
      w.breaker.admits w.now = true := by
    refine ⟨_, rfl, ?_, ?_, ?_, ?_, ?_⟩ <;> decide +kernel
  have hrested : w.Rested := by
    refine ⟨hcalls, Or.inr ⟨0, hat, ?_⟩⟩
    rw [hconfig, hnow]
    norm_num
  have hiff := admits_iff_no_probe_lost .touchy "redis" windowPassed w hw hrested
  exact ⟨w, hw, hrested, hadmits, hiff.mp hadmits⟩

/-- The probe is interrupted: nobody takes the flag down again. -/
theorem interrupted_probe_wedges : ¬ ∀ config name run w,
    steps step (initial config name) run = some w → w.Rested → w.breaker.admits w.now = true := by
  intro h
  have hends : (steps step (initial .touchy "redis") (firstProbe ++
      [.invoke 0, .finish 0 (.error (.plain .keyboardInterrupt ""))])).map (fun w => (w.calls,
        w.openings.head?, w.now, w.breaker.config.resetTimeoutSeconds, w.breaker.admits w.now)) =
      some ([], some 0, 1, 1, false) := by
    decide +kernel
  obtain ⟨w, hw, hview⟩ := Option.map_eq_some_iff.mp hends
  simp only [Prod.mk.injEq] at hview
  obtain ⟨hcalls, hat, hnow, hconfig, hrejects⟩ := hview
  have hrested : w.Rested := by
    refine ⟨hcalls, Or.inr ⟨0, hat, ?_⟩⟩
    rw [hconfig, hnow]
    norm_num
  simp [h .touchy "redis" _ w hw hrested] at hrejects

/-- A failure reported half a window after the opening keeps the breaker shut when the window since
the opening is over. -/
example : (steps step (initial .touchy "redis") (lateFailure ++ [.tick (1 / 2)])).map (fun w =>
    (w.calls, w.openings, w.breaker.openedAt, w.now, w.breaker.admits w.now)) =
      some ([], [0], some (1 / 2), 1, false) := by
  decide +kernel

end BreakerWorld

end ReviewAgent
