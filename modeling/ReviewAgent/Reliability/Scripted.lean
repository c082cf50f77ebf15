import ReviewAgent.Effects.Script
import ReviewAgent.Reliability.Guarded

/-! A client of a scripted dependency: one breaker, one clock, nobody else. -/
namespace ReviewAgent

open Effects

/-- The breaker of a client, the clock it reads, and the dependency behind it. -/
structure ScriptedClient (σ : Type) where
  breaker : CircuitBreaker
  clock : ℚ
  dep : σ

/-- Time passes, for the client and for the dependency. -/
def ScriptedClient.pass {σ : Type} (elapse : ℚ → σ → σ) (seconds : ℚ) (s : ScriptedClient σ) :
    ScriptedClient σ :=
  { s with clock := s.clock + seconds, dep := elapse seconds s.dep }

section

variable {D : Signature} {σ T : Type}

/-- The reliability layer in front of a scripted dependency, to which `elapse` happens while the
client sleeps. Every draw is `draw`. -/
def guardScript (script : Script D σ) (elapse : ℚ → σ → σ) (draw : ℚ) : Script (Guarded D) (ScriptedClient σ)
  | .admission, s =>
    ((s.breaker.admission s.clock).2, { s with breaker := (s.breaker.admission s.clock).1 })
  | .recordFailure, s => ((), { s with breaker := s.breaker.recordFailure s.clock })
  | .recordSuccess, s => ((), { s with breaker := s.breaker.recordSuccess })
  | .sleep seconds, s => ((), s.pass elapse seconds)
  | .rand, s => (draw, s)
  | .dep op, s => ((script op s.dep).1, { s with dep := (script op s.dep).2 })

variable {script : Script D σ} {elapse : ℚ → σ → σ} {draw : ℚ}
  {func : Program (Guarded D) Exc T}
  {s s' : ScriptedClient σ} {a : T}

/-- Through a closed breaker a call that succeeds is made once, and noted. -/
theorem play_call_closed (hclosed : s.breaker.state = .closed)
    (h : func.play (guardScript script elapse draw) s = (.ok a, s')) :
    (CircuitBreaker.call func).play (guardScript script elapse draw) s =
      (.ok a, { s' with breaker := s'.breaker.recordSuccess }) := by
  have hentered : (enterBreaker (D := D)).play (guardScript script elapse draw) s = (.ok (), s) := by
    rw [enterBreaker, Program.play, Program.play_done, guardScript,
      CircuitBreaker.admission_of_closed hclosed]
  rw [CircuitBreaker.call, Program.play_bind_ok hentered,
    Program.play_bind_ok (Program.play_tryCatch_ok h _)]
  rfl

/-- A call that succeeds at once is neither retried nor delayed. -/
theorem play_callReliably_closed {policy : RetryPolicy} {nonRetryableExceptions : List ExcClass}
    {wrap : Exc → Exc} (hclosed : s.breaker.state = .closed)
    (h : func.play (guardScript script elapse draw) s = (.ok a, s')) :
    (callReliably policy nonRetryableExceptions wrap func).play (guardScript script elapse draw) s =
      (.ok a, { s' with breaker := s'.breaker.recordSuccess }) := by
  have hattempts : (callWithRetry (CircuitBreaker.call func) policy nonRetryableExceptions sleep
        rand).play (guardScript script elapse draw) s =
      (.ok a, { s' with breaker := s'.breaker.recordSuccess }) := by
    obtain ⟨more, hmore⟩ := Nat.exists_eq_add_of_le' policy.one_le_maxAttempts
    have hpause : (backoff policy (sleep (D := D)) rand 1).play (guardScript script elapse draw) s =
        (.ok (), s) := rfl
    rw [callWithRetry, hmore, attemptsFrom, Program.play_bind_ok hpause]
    exact Program.play_tryCatch_ok (play_call_closed hclosed h) _
  exact Program.play_tryCatch_ok hattempts _

end

end ReviewAgent
