import Mathlib.Data.List.InsertIdx
import Mathlib.Tactic.Linarith
import ReviewAgent.Reliability.BreakerRuns

/-! What the fields of a breaker say in each of its states, and what a look at it can change. -/
namespace ReviewAgent

open Effects

/-- What the fields hold in each state. -/
structure CircuitBreaker.Represents (b : CircuitBreaker) : Prop where
  closed : b.state = .closed → b.consecutiveFailures < b.config.failureThreshold ∧
    b.openedAt = none ∧ b.probeInFlight = false
  opened : b.state = .opened → b.config.failureThreshold ≤ b.consecutiveFailures ∧
    b.openedAt.isSome ∧ b.probeInFlight = false
  halfOpen : b.state = .halfOpen → b.config.failureThreshold ≤ b.consecutiveFailures ∧
    b.openedAt.isSome

/-- A read-only view of a breaker. -/
structure CircuitBreakerSnapshot where
  name : String
  state : CircuitState
  consecutiveFailures : ℕ
  openedAt : Option ℚ

/-- A look at the breaker lets it expire first. -/
def CircuitBreaker.snapshot (b : CircuitBreaker) (now : ℚ) :
    CircuitBreaker × CircuitBreakerSnapshot :=
  let b' := b.maybeExpireOpen now
  (b', ⟨b'.name, b'.state, b'.consecutiveFailures, b'.openedAt⟩)

namespace CircuitBreaker

variable {b c : CircuitBreaker} {now later : ℚ}

theorem Represents.fresh (config : CircuitBreakerConfig) (name : String) :
    (fresh config name).Represents where
  closed _ := ⟨config.one_le_failureThreshold, rfl, rfl⟩
  opened := nofun
  halfOpen := nofun

theorem maybeExpireOpen_of_due (h : b.due now = true) :
    b.maybeExpireOpen now = { b with state := .halfOpen, probeInFlight := false } :=
  if_pos h

theorem maybeExpireOpen_of_not_due (h : ¬ b.due now = true) : b.maybeExpireOpen now = b :=
  if_neg h

@[simp] theorem maybeExpireOpen_name : (b.maybeExpireOpen now).name = b.name := by
  unfold maybeExpireOpen
  split <;> rfl

@[simp] theorem admission_name : (b.admission now).1.name = b.name := by
  simp only [admission, enter, maybeExpireOpen]
  repeat' split
  all_goals rfl

@[simp] theorem recordFailure_name : (b.recordFailure now).name = b.name := by
  simp only [recordFailure]
  split <;> rfl

theorem due_mono (hle : now ≤ later) (h : b.due now = true) : b.due later = true := by
  obtain ⟨hs, t, ht, hreset⟩ := due_iff.mp h
  exact due_iff.mpr ⟨hs, t, ht, by linarith⟩

/-- Whether a breaker expired on the way cannot be told later. -/
theorem maybeExpireOpen_maybeExpireOpen (hle : now ≤ later) :
    (b.maybeExpireOpen now).maybeExpireOpen later = b.maybeExpireOpen later := by
  by_cases hdue : b.due now = true
  · rw [maybeExpireOpen_of_due hdue, maybeExpireOpen_of_due (due_mono hle hdue)]
    rfl
  · rw [maybeExpireOpen_of_not_due hdue]

theorem admission_maybeExpireOpen :
    (b.maybeExpireOpen now).admission now = b.admission now := by
  rw [admission, admission, maybeExpireOpen_maybeExpireOpen le_rfl]

theorem recordSuccess_maybeExpireOpen :
    (b.maybeExpireOpen now).recordSuccess = b.recordSuccess := by
  by_cases hdue : b.due now = true
  · rw [maybeExpireOpen_of_due hdue]
    rfl
  · rw [maybeExpireOpen_of_not_due hdue]

theorem Represents.maybeExpireOpen (h : b.Represents) : (b.maybeExpireOpen now).Represents := by
  by_cases hdue : b.due now = true
  · rw [maybeExpireOpen_of_due hdue]
    have hopened := h.opened (due_iff.mp hdue).1
    refine ⟨nofun, nofun, fun _ => ?_⟩
    exact ⟨hopened.1, hopened.2.1⟩
  · rwa [maybeExpireOpen_of_not_due hdue]

/-- Admission touches the flag of a half-open breaker only. -/
theorem Represents.enter (h : b.Represents) : b.enter.1.Represents := by
  cases hs : b.state with
  | closed => simpa only [CircuitBreaker.enter, hs] using h
  | opened => simpa only [CircuitBreaker.enter, hs] using h
  | halfOpen =>
    simp only [CircuitBreaker.enter, hs]
    split
    · exact h
    · exact ⟨by simp, by simp, fun _ => h.halfOpen hs⟩

theorem Represents.admission (h : b.Represents) : (b.admission now).1.Represents :=
  h.maybeExpireOpen.enter

/-- A failure reported in any state: a breaker that is not closed has its threshold behind it. -/
theorem Represents.recordFailure (h : b.Represents) : (b.recordFailure now).Represents := by
  have hcount : b.state ≠ .closed → b.config.failureThreshold ≤ b.consecutiveFailures := by
    intro hne
    cases hs : b.state with
    | closed => exact absurd hs hne
    | opened => exact (h.opened hs).1
    | halfOpen => exact (h.halfOpen hs).1
  by_cases htrips : b.state = .halfOpen ∨ b.config.failureThreshold ≤ b.consecutiveFailures + 1
  · have hle : b.config.failureThreshold ≤ b.consecutiveFailures + 1 := by
      rcases htrips with hs | hle
      · have := hcount (by simp [hs])
        omega
      · exact hle
    rw [CircuitBreaker.recordFailure, if_pos htrips]
    exact ⟨by simp, fun _ => ⟨hle, rfl, rfl⟩, by simp⟩
  · have hstays := not_or.mp htrips
    rw [CircuitBreaker.recordFailure, if_neg htrips]
    have hclosed : b.state = .closed := by
      by_contra hne
      have := hcount hne
      omega
    exact ⟨fun _ => ⟨by simpa using hstays.2, (h.closed hclosed).2.1, rfl⟩, by simp [hclosed],
      by simp [hclosed]⟩

/-- Expired or not, an open breaker opens anew on a failure. -/
theorem Represents.recordFailure_maybeExpireOpen (h : b.Represents) :
    (b.maybeExpireOpen now).recordFailure now = b.recordFailure now := by
  by_cases hdue : b.due now = true
  · have hle := (h.opened (due_iff.mp hdue).1).1
    have htrips : b.state = .halfOpen ∨ b.config.failureThreshold ≤ b.consecutiveFailures + 1 :=
      Or.inr (by omega)
    rw [maybeExpireOpen_of_due hdue, CircuitBreaker.recordFailure, CircuitBreaker.recordFailure,
      if_pos htrips, if_pos (Or.inl rfl)]
  · rw [maybeExpireOpen_of_not_due hdue]

theorem Represents.recordSuccess (b : CircuitBreaker) : b.recordSuccess.Represents where
  closed _ := ⟨b.config.one_le_failureThreshold, rfl, rfl⟩
  opened := nofun
  halfOpen := nofun

end CircuitBreaker

namespace BreakerWorld

variable {w w' : BreakerWorld} {s : BreakerStep} {outcome : Except Exc Unit}

theorem become_of_state {b : CircuitBreaker} (h : b.state = w.breaker.state) :
    w.become b = { w with breaker := b } := by
  simp [become, h]

/-- A breaker keeps its config and its name. -/
theorem step_keeps (hw' : w.step s = some w') :
    w'.breaker.config = w.breaker.config ∧ w'.breaker.name = w.breaker.name := by
  cases s with
  | admission =>
    simp only [step] at hw'
    split at hw'
    · rw [← Option.some.inj hw']
      exact ⟨CircuitBreaker.admission_config, CircuitBreaker.admission_name⟩
    · rw [← Option.some.inj hw']
      exact ⟨CircuitBreaker.admission_config, CircuitBreaker.admission_name⟩
  | invoke i =>
    simp only [step] at hw'
    split at hw'
    · rw [← Option.some.inj hw']
      exact ⟨rfl, rfl⟩
    · cases hw'
  | finish i outcome =>
    simp only [step] at hw'
    split at hw'
    · rw [← Option.some.inj hw']
      cases outcome with
      | ok u => exact ⟨rfl, rfl⟩
      | error e =>
        simp only [record]
        split
        · exact ⟨CircuitBreaker.recordFailure_config, CircuitBreaker.recordFailure_name⟩
        · exact ⟨rfl, rfl⟩
    · cases hw'
  | snapshot =>
    rw [← Option.some.inj hw']
    exact ⟨CircuitBreaker.maybeExpireOpen_config, CircuitBreaker.maybeExpireOpen_name⟩
  | tick seconds =>
    simp only [step] at hw'
    split at hw'
    · rw [← Option.some.inj hw']
      exact ⟨rfl, rfl⟩
    · cases hw'

theorem keeps_reached {run : List BreakerStep} {config : CircuitBreakerConfig} {name : String}
    (hrun : steps step (initial config name) run = some w) :
    w.breaker.config = config ∧ w.breaker.name = name := by
  refine steps_invariant (I := fun w => w.breaker.config = config ∧ w.breaker.name = name)
    ?_ ⟨rfl, rfl⟩ (everyStep_true _ _ _) hrun
  intro w s w' h _ hw'
  have hkeeps := step_keeps hw'
  exact ⟨hkeeps.1.trans h.1, hkeeps.2.trans h.2⟩

theorem represents_record (h : w.breaker.Represents) : (w.record outcome).breaker.Represents := by
  cases outcome with
  | ok u => exact .recordSuccess w.breaker
  | error e =>
    simp only [record]
    split
    · exact h.recordFailure
    · exact h

theorem represents_step (h : w.breaker.Represents) (hw' : w.step s = some w') :
    w'.breaker.Represents := by
  cases s with
  | admission =>
    simp only [step] at hw'
    split at hw'
    · exact Option.some.inj hw' ▸ h.admission
    · exact Option.some.inj hw' ▸ h.admission
  | invoke i =>
    simp only [step] at hw'
    split at hw'
    · exact Option.some.inj hw' ▸ h
    · cases hw'
  | finish i outcome =>
    simp only [step] at hw'
    split at hw'
    · rw [← Option.some.inj hw']
      exact represents_record h
    · cases hw'
  | snapshot => exact Option.some.inj hw' ▸ h.maybeExpireOpen
  | tick seconds =>
    simp only [step] at hw'
    split at hw'
    · exact Option.some.inj hw' ▸ h
    · cases hw'

/-- In every state a run reaches, late outcomes included, the fields hold what the state says. -/
theorem represents_reached (config : CircuitBreakerConfig) (name : String)
    (run : List BreakerStep) (w : BreakerWorld)
    (hrun : steps step (initial config name) run = some w) : w.breaker.Represents := by
  refine steps_invariant (I := fun w => w.breaker.Represents) ?_ ?_ (everyStep_true _ _ _) hrun
  · exact fun w s w' h _ hw' => represents_step h hw'
  · exact .fresh config name

/-- Two calls are admitted closed; the second fails when the first has opened the breaker. -/
def lateFailure : List BreakerStep :=
  [.admission, .invoke 0, .admission, .invoke 1, .finish 0 (.error (.plain .osError "")),
    .tick (1 / 2), .finish 0 (.error (.plain .osError ""))]

theorem represents_lateFailure : ∃ w, steps step (initial .touchy "redis") lateFailure = some w ∧
    w.breaker.Represents := by
  obtain ⟨w, hw⟩ : ∃ w, steps step (initial .touchy "redis") lateFailure = some w :=
    Option.isSome_iff_exists.mp (by decide +kernel)
  exact ⟨w, hw, represents_reached .touchy "redis" lateFailure w hw⟩

/-- What a step tells the caller who takes it: whether the call is let through, or a view. -/
inductive BreakerAnswer where
  | call (admitted : Except Exc Unit)
  | snapshot (view : CircuitBreakerSnapshot)

def answer (w : BreakerWorld) : BreakerStep → Option BreakerAnswer
  | .admission => some (.call (w.breaker.admission w.now).2)
  | .snapshot => some (.snapshot (w.breaker.snapshot w.now).2)
  | .invoke _ | .finish _ _ | .tick _ => none

/-- What the steps of a run tell their callers; `none` is a look somebody else takes, and the whole
is `none` for a run that cannot be taken. -/
def answers : BreakerWorld → List (Option BreakerStep) → Option (List (Option BreakerAnswer))
  | _, [] => some []
  | w, some s :: run => (w.step s).bind fun w' => (answers w' run).map (w.answer s :: ·)
  | w, none :: run => (w.step .snapshot).bind fun w' => answers w' run

/-- The same breaker, but that one of them may have an expiry still to perform. -/
structure Alike (w v : BreakerWorld) : Prop where
  now : w.now = v.now
  expired : w.breaker.maybeExpireOpen w.now = v.breaker.maybeExpireOpen w.now
  invoked : w.calls.map BreakerCall.invoked = v.calls.map BreakerCall.invoked
  left : w.breaker.Represents
  right : v.breaker.Represents

variable {v : BreakerWorld}

theorem Alike.of_breaker (hnow : w.now = v.now) (hsame : w.breaker = v.breaker)
    (hinvoked : w.calls.map BreakerCall.invoked = v.calls.map BreakerCall.invoked)
    (h : w.breaker.Represents) : Alike w v :=
  ⟨hnow, by rw [hsame], hinvoked, h, hsame ▸ h⟩

/-- One side is looked at. -/
theorem Alike.snapshot (h : Alike w v) (hw' : w.step .snapshot = some w') : Alike w' v := by
  obtain rfl := Option.some.inj hw'
  refine ⟨h.now, ?_, h.invoked, h.left.maybeExpireOpen, h.right⟩
  exact (CircuitBreaker.maybeExpireOpen_maybeExpireOpen le_rfl).trans h.expired

theorem Alike.admission (h : Alike w v) : w.breaker.admission w.now = v.breaker.admission v.now := by
  rw [← CircuitBreaker.admission_maybeExpireOpen, h.expired,
    CircuitBreaker.admission_maybeExpireOpen, h.now]

theorem Alike.answer (h : Alike w v) : w.answer s = v.answer s := by
  cases s with
  | admission => rw [BreakerWorld.answer, BreakerWorld.answer, h.admission]
  | snapshot =>
    simp only [BreakerWorld.answer, CircuitBreaker.snapshot, h.expired]
    rw [h.now]
  | _ => rfl

/-- An outcome is recorded on both sides: what they differed in is overwritten. -/
theorem Alike.record (h : Alike w v) : Alike (w.record outcome) (v.record outcome) := by
  cases outcome with
  | ok u =>
    have hsame : w.breaker.recordSuccess = v.breaker.recordSuccess := by
      rw [← CircuitBreaker.recordSuccess_maybeExpireOpen, h.expired,
        CircuitBreaker.recordSuccess_maybeExpireOpen]
    exact .of_breaker h.now hsame h.invoked (.recordSuccess _)
  | error e =>
    have hsame : w.breaker.recordFailure w.now = v.breaker.recordFailure v.now := by
      rw [← h.left.recordFailure_maybeExpireOpen, h.expired, h.now,
        h.right.recordFailure_maybeExpireOpen]
    simp only [BreakerWorld.record]
    split
    · exact .of_breaker h.now hsame h.invoked h.left.recordFailure
    · exact h

/-- The same call has, or has not, invoked `func` on both sides. -/
theorem Alike.call {i : ℕ} {call : BreakerCall} (h : Alike w v) (hcall : w.calls[i]? = some call) :
    ∃ call', v.calls[i]? = some call' ∧ call'.invoked = call.invoked := by
  have hsame : v.calls[i]?.map BreakerCall.invoked = w.calls[i]?.map BreakerCall.invoked := by
    rw [← List.getElem?_map, ← List.getElem?_map, h.invoked]
  rw [hcall] at hsame
  exact Option.map_eq_some_iff.mp hsame

theorem step_invoke_some {i : ℕ} : w.step (.invoke i) = some w' ↔
    ∃ call, w.calls[i]? = some call ∧ call.invoked = false ∧
      w' = { w with calls := w.calls.set i { call with invoked := true } } := by
  simp only [step]
  split
  · rename_i entered period hcall
    refine ⟨fun h => ⟨_, hcall, rfl, (Option.some.inj h).symm⟩, ?_⟩
    rintro ⟨call, hcall', -, rfl⟩
    obtain rfl := Option.some.inj (hcall.symm.trans hcall')
    rfl
  · rename_i hnone
    refine ⟨nofun, ?_⟩
    rintro ⟨⟨entered, period, invoked⟩, hcall, rfl, -⟩
    exact absurd hcall (hnone entered period)

theorem step_finish_some {i : ℕ} : w.step (.finish i outcome) = some w' ↔
    ∃ call, w.calls[i]? = some call ∧ call.invoked = true ∧
      w' = ({ w with calls := w.calls.eraseIdx i } : BreakerWorld).record outcome := by
  simp only [step]
  split
  · rename_i entered period hcall
    refine ⟨fun h => ⟨_, hcall, rfl, (Option.some.inj h).symm⟩, ?_⟩
    rintro ⟨call, hcall', -, rfl⟩
    obtain rfl := Option.some.inj (hcall.symm.trans hcall')
    rfl
  · rename_i hnone
    refine ⟨nofun, ?_⟩
    rintro ⟨⟨entered, period, invoked⟩, hcall, rfl, -⟩
    exact absurd hcall (hnone entered period)

/-- The other side can take the step too, and stays alike. -/
theorem Alike.step (h : Alike w v) (hw' : w.step s = some w') :
    ∃ v', v.step s = some v' ∧ Alike w' v' := by
  cases s with
  | admission =>
    have hsame := h.admission
    by_cases hadmits : w.breaker.admits w.now = true
    · have hadmits' : v.breaker.admits v.now = true := by
        rwa [CircuitBreaker.admits, hsame] at hadmits
      rw [BreakerWorld.step, if_pos hadmits] at hw'
      rw [BreakerWorld.step, if_pos hadmits', ← Option.some.inj hw']
      refine ⟨_, rfl, .of_breaker h.now (congrArg Prod.fst hsame) ?_ h.left.admission⟩
      simp [become, h.invoked]
    · have hadmits' : ¬ v.breaker.admits v.now = true := by
        rwa [CircuitBreaker.admits, hsame] at hadmits
      rw [BreakerWorld.step, if_neg hadmits] at hw'
      rw [BreakerWorld.step, if_neg hadmits', ← Option.some.inj hw']
      exact ⟨_, rfl, .of_breaker h.now (congrArg Prod.fst hsame) h.invoked h.left.admission⟩
  | invoke i =>
    obtain ⟨call, hcall, hfalse, rfl⟩ := step_invoke_some.mp hw'
    obtain ⟨call', hcall', hsame⟩ := h.call hcall
    refine ⟨_, step_invoke_some.mpr ⟨call', hcall', hsame.trans hfalse, rfl⟩, h.now, h.expired, ?_, h.left,
      h.right⟩
    simp [List.map_set, h.invoked]
  | finish i outcome =>
    obtain ⟨call, hcall, htrue, rfl⟩ := step_finish_some.mp hw'
    obtain ⟨call', hcall', hsame⟩ := h.call hcall
    refine ⟨_, step_finish_some.mpr ⟨call', hcall', hsame.trans htrue, rfl⟩, Alike.record ?_⟩
    refine ⟨h.now, h.expired, ?_, h.left, h.right⟩
    simp [← List.eraseIdx_map, h.invoked]
  | snapshot =>
    obtain rfl := Option.some.inj hw'
    have hsame : w.breaker.maybeExpireOpen w.now = v.breaker.maybeExpireOpen v.now := by
      rw [h.expired, h.now]
    exact ⟨_, rfl, .of_breaker h.now hsame h.invoked h.left.maybeExpireOpen⟩
  | tick seconds =>
    simp only [BreakerWorld.step] at hw' ⊢
    split at hw'
    · rename_i hpos
      rw [if_pos hpos, ← Option.some.inj hw', ← h.now]
      refine ⟨_, rfl, rfl, ?_, h.invoked, h.left, h.right⟩
      have hle : w.now ≤ w.now + seconds := by linarith
      calc w.breaker.maybeExpireOpen (w.now + seconds)
          = (w.breaker.maybeExpireOpen w.now).maybeExpireOpen (w.now + seconds) :=
            (CircuitBreaker.maybeExpireOpen_maybeExpireOpen hle).symm
        _ = (v.breaker.maybeExpireOpen w.now).maybeExpireOpen (w.now + seconds) := by rw [h.expired]
        _ = v.breaker.maybeExpireOpen (w.now + seconds) :=
            CircuitBreaker.maybeExpireOpen_maybeExpireOpen hle
    · cases hw'

theorem Alike.symm (h : Alike w v) : Alike v w :=
  ⟨h.now.symm, h.now ▸ h.expired.symm, h.invoked.symm, h.right, h.left⟩

/-- A step that one side cannot take the other cannot take. -/
theorem Alike.step_none (h : Alike w v) (hw : w.step s = none) : v.step s = none := by
  rw [Option.eq_none_iff_forall_ne_some]
  intro v' hv'
  obtain ⟨w', hw', -⟩ := h.symm.step hv'
  simp [hw] at hw'

/-- Two breakers that cannot be told apart give the same answers, however often the first is looked
at. -/
theorem Alike.answers (h : Alike w v) (run : List (Option BreakerStep)) :
    w.answers run = v.answers ((run.filterMap id).map some) := by
  induction run generalizing w v with
  | nil => rfl
  | cons s run ih =>
    cases s with
    | none =>
      obtain ⟨w', hw'⟩ : ∃ w', w.step .snapshot = some w' := ⟨_, rfl⟩
      rw [BreakerWorld.answers, hw', Option.bind_some, ih (h.snapshot hw')]
      simp
    | some s =>
      have hkept : ((some s :: run).filterMap id).map some =
          some s :: (run.filterMap id).map some := rfl
      rw [hkept, BreakerWorld.answers, BreakerWorld.answers]
      cases hw : w.step s with
      | none => rw [h.step_none hw, Option.bind_none, Option.bind_none]
      | some w' =>
        obtain ⟨v', hv', hnext⟩ := h.step hw
        rw [hv', Option.bind_some, Option.bind_some, ih hnext, h.answer]

/-- Looks at the breaker, wherever they are put into a run, change no answer of it. -/
theorem answers_of_watched (config : CircuitBreakerConfig) (name : String)
    (run : List (Option BreakerStep)) :
    (initial config name).answers run =
      (initial config name).answers ((run.filterMap id).map some) :=
  Alike.answers ⟨rfl, rfl, rfl, .fresh config name, .fresh config name⟩ run

end BreakerWorld

end ReviewAgent
