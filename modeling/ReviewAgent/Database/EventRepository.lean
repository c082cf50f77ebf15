import ReviewAgent.Effects.Script
import ReviewAgent.Observability.Events
import ReviewAgent.Reliability.Guarded

/-! `EventRepository.insert_event` on a Postgres that is there or not: every insert goes through the
repository's breaker. -/
namespace ReviewAgent

open Effects

/-- One attempt to connect and write a row. -/
abbrev InsertSignature : Signature where
  Op := AgentEvent
  Answer _ := Except Exc Unit

/-- `insert_event`. -/
def insertEvent (event : AgentEvent) : Program (Guarded InsertSignature) Exc Unit :=
  CircuitBreaker.call do
    let written ← dep (D := InsertSignature) event
    Program.ofExcept written

/-- How each attempt to write ends, and what each reading of a clock gives. An attempt fails with
`psycopg.OperationalError` or with `OSError`. -/
structure EventsSchedule where
  insert : ℕ → Except Exc Unit
  clock : ℕ → ℚ
  outage : ∀ n e, insert n = .error e →
    e.isInstance .operationalError = true ∨ e.isInstance .osError = true

/-- The repository: its breaker, how far the schedule has come, and the rows written. -/
structure EventRepository where
  breaker : CircuitBreaker
  attempts : ℕ := 0
  readings : ℕ := 0
  rows : List AgentEvent := []

/-- The lock, the clock and Postgres, as `insert_event` meets them. -/
def EventsSchedule.guarded (schedule : EventsSchedule) :
    Script (Guarded InsertSignature) EventRepository
  | .admission, r =>
    let now := schedule.clock r.readings
    ((r.breaker.admission now).2,
      { r with breaker := (r.breaker.admission now).1, readings := r.readings + 1 })
  | .recordFailure, r =>
    ((), { r with
      breaker := r.breaker.recordFailure (schedule.clock r.readings)
      readings := r.readings + 1 })
  | .recordSuccess, r => ((), { r with breaker := r.breaker.recordSuccess })
  | .sleep _, r => ((), r)
  | .rand, r => (0, r)
  | .dep event, r =>
    (schedule.insert r.attempts, { r with
      attempts := r.attempts + 1
      rows := if (schedule.insert r.attempts).isOk then event :: r.rows else r.rows })

/-- A call through the breaker raises what the breaker raises, or what its function does. -/
theorem play_call_error {D : Signature} {T σ : Type} {script : Script (Guarded D) σ}
    {func : Program (Guarded D) Exc T} {s : σ} {e : Exc}
    (h : ((CircuitBreaker.call func).play script s).1 = .error e) :
    (script .admission s).1 = .error e ∨
      (func.play script (script .admission s).2).1 = .error e := by
  rw [CircuitBreaker.call, Program.bind_def, Program.play_andThen] at h
  change ((Program.onOk _ (script .admission s).1).play script (script .admission s).2).1 = _ at h
  cases hentered : (script .admission s).1 with
  | error e' =>
    rw [hentered] at h
    have hsame : e' = e := Except.error.inj h
    exact Or.inl (by rw [hsame])
  | ok u =>
    rw [hentered] at h
    refine Or.inr ?_
    change ((tryCatch func (fun e => noteRaised e >>= fun _ => throw e) >>= fun result =>
      noteSuccess >>= fun _ => pure result).play script (script .admission s).2).1 = _ at h
    rw [Program.bind_def, Program.play_andThen, Program.tryCatch_def, Program.play_andThen] at h
    cases hfunc : (func.play script (script .admission s).2).1 with
    | ok a =>
      rw [hfunc] at h
      cases h
    | error e' =>
      rw [hfunc] at h
      by_cases hexc : e'.isInstance .exception = true
      · simp only [Program.onError, noteRaised, if_pos hexc] at h
        exact h
      · simp only [Program.onError, noteRaised, if_neg hexc] at h
        exact h

/-- An insert succeeds, or fails as it does when the database is unavailable. -/
theorem insertEvent_outage {schedule : EventsSchedule} {event : AgentEvent} {r : EventRepository}
    {e : Exc} (h : ((insertEvent event).play schedule.guarded r).1 = .error e) : IsOutage e := by
  rw [IsOutage, Exc.isInstanceOfAny_iff]
  rcases play_call_error h with hentered | hwritten
  · refine ⟨.circuitOpenError, by simp, ?_⟩
    rw [Exc.isInstance, CircuitBreaker.admission_error hentered]
    rfl
  · rcases schedule.outage _ e hwritten with he | he
    · exact ⟨.operationalError, by simp, he⟩
    · exact ⟨.osError, by simp, he⟩

/-- What the route asks of the repository; `rest` answers what it does not ask. -/
def EventsSchedule.orchestrator (schedule : EventsSchedule) (rest : Answers) :
    Script OrchestratorSignature EventRepository
  | .now _, r => (schedule.clock r.readings, { r with readings := r.readings + 1 })
  | .insertEvent event, r => (insertEvent event).play schedule.guarded r
  | op, r => (rest op, r)

end ReviewAgent
