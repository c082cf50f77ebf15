import ReviewAgent.Effects.Script
import ReviewAgent.Reliability.Retry

/-! The retry loop over every stream of outcomes: what it calls, what it sleeps, what it ends
with. -/
namespace ReviewAgent

open Effects

/-- What the retry loop asks of its surroundings. -/
inductive RetryOp where
  | func
  | sleep (seconds : ℚ)
  | rand

abbrev Retrying (T : Type) : Signature where
  Op := RetryOp
  Answer
    | .func => Except Exc T
    | .sleep _ => Unit
    | .rand => ℚ

section

variable {T : Type}

def callFunc : Program (Retrying T) Exc T :=
  .step (.func : RetryOp) fun answer => .done answer

def sleepFor (seconds : ℚ) : Program (Retrying T) Exc Unit :=
  Program.perform (S := Retrying T) (.sleep seconds)

def draw : Program (Retrying T) Exc ℚ := Program.perform (S := Retrying T) .rand

end

/-- What is observed of a retry loop. -/
inductive RetryEvent where
  | called
  | slept (seconds : ℚ)
  deriving DecidableEq, Repr

/-- How far the two streams have been read, and what has been observed. -/
structure RetryTape where
  calls : ℕ := 0
  draws : ℕ := 0
  events : List RetryEvent := []

section

variable {T : Type} (policy : RetryPolicy) (nonRetryableExceptions : List ExcClass)
  (outcomes : ℕ → Except Exc T) (rands : ℕ → ℚ)

/-- The `n`th call of `func` ends as the stream of outcomes says, the `n`th draw as that of draws. -/
def retryScript : Script (Retrying T) RetryTape
  | .func, t => (outcomes t.calls, { t with calls := t.calls + 1, events := t.events ++ [.called] })
  | .sleep seconds, t => ((), { t with events := t.events ++ [.slept seconds] })
  | .rand, t => (rands t.draws, { t with draws := t.draws + 1 })

/-- `call_with_retry` on the two streams. -/
def retry : Except Exc T × RetryTape :=
  (callWithRetry callFunc policy nonRetryableExceptions sleepFor draw).play
    (retryScript outcomes rands) {}

/-- The loop ends on this outcome: a value, or an exception it does not retry. -/
def Settles : Except Exc T → Prop
  | .ok _ => True
  | .error e => ¬ Retryable nonRetryableExceptions e

/-- The delay before attempt `k + 2`: capped exponential growth, times the `k`th draw if there is
jitter. -/
def delayBefore (k : ℕ) : ℚ :=
  min (policy.baseDelaySeconds * 2 ^ k) policy.maxDelaySeconds *
    if policy.jitter then rands k else 1

/-- The sleep before attempt `n + 1`, which is skipped when it comes out as zero. -/
def pauseBefore : ℕ → List RetryEvent
  | 0 => []
  | k + 1 => if 0 < delayBefore policy rands k then [.slept (delayBefore policy rands k)] else []

/-- What is observed of `n` attempts. -/
def attemptEvents (n : ℕ) : List RetryEvent :=
  (List.range n).flatMap fun k => pauseBefore policy rands k ++ [.called]

/-- The tape after `n` attempts. -/
def tapeAfter (n : ℕ) : RetryTape where
  calls := n
  draws := if policy.jitter then n - 1 else 0
  events := attemptEvents policy rands n

end

section

variable {T : Type} {policy : RetryPolicy} {nonRetryableExceptions : List ExcClass}
  {outcomes : ℕ → Except Exc T} {rands : ℕ → ℚ} {n i remaining : ℕ}

theorem attemptEvents_succ : attemptEvents policy rands (n + 1) =
    attemptEvents policy rands n ++ (pauseBefore policy rands n ++ [.called]) := by
  simp [attemptEvents, List.range_succ]

/-- Jitter takes the next draw, also when the delay is zero. -/
theorem play_jittered (k : ℕ) :
    (jittered policy draw (min (policy.baseDelaySeconds * 2 ^ k) policy.maxDelaySeconds)).play
        (retryScript outcomes rands) (tapeAfter policy rands (k + 1)) =
      (.ok (delayBefore policy rands k),
        { tapeAfter policy rands (k + 1) with draws := if policy.jitter then k + 1 else 0 }) := by
  unfold jittered delayBefore
  split
  · rename_i hjitter
    have hdraw : (draw : Program (Retrying T) Exc ℚ).play (retryScript outcomes rands)
          (tapeAfter policy rands (k + 1)) =
        (.ok (rands k), { tapeAfter policy rands (k + 1) with draws := k + 1 }) := by
      simp only [tapeAfter, hjitter, if_true]
      rfl
    rw [Program.play_bind_ok hdraw]
    rfl
  · rename_i hjitter
    simp [tapeAfter, hjitter, Program.pure_def]

/-- Before an attempt at which the delay does not overflow, the loop sleeps what is left of it. -/
theorem play_backoff (hn : n < maxFloatExponent + 2) :
    (backoff policy sleepFor draw (n + 1)).play (retryScript outcomes rands)
        (tapeAfter policy rands n) =
      (.ok (), { tapeAfter policy rands n with
        draws := if policy.jitter then n else 0
        events := attemptEvents policy rands n ++ pauseBefore policy rands n }) := by
  cases n with
  | zero => simp [backoff, pauseBefore, tapeAfter, Program.pure_def]
  | succ k =>
    have hdelay : policy.delayForAttempt (k + 2) =
        .ok (min (policy.baseDelaySeconds * 2 ^ k) policy.maxDelaySeconds) := by
      simp only [RetryPolicy.delayForAttempt]
      rw [if_neg (by omega), if_neg (by omega)]
      rfl
    have hcomputed : (Program.ofExcept (policy.delayForAttempt (k + 2)) :
          Program (Retrying T) Exc ℚ).play (retryScript outcomes rands)
          (tapeAfter policy rands (k + 1)) =
        (.ok (min (policy.baseDelaySeconds * 2 ^ k) policy.maxDelaySeconds),
          tapeAfter policy rands (k + 1)) := by
      rw [hdelay]
      rfl
    rw [backoff, if_pos (by omega), Program.play_bind_ok hcomputed,
      Program.play_bind_ok (play_jittered k), pauseBefore]
    split
    · rfl
    · simp [Program.pure_def, tapeAfter]

/-- One pass of the loop: the pause, the call, and what is made of its outcome. -/
theorem play_attempt (hn : n < maxFloatExponent + 2) :
    (attemptsFrom callFunc policy nonRetryableExceptions sleepFor draw (remaining + 1)
        (n + 1)).play (retryScript outcomes rands) (tapeAfter policy rands n) =
      match outcomes n with
      | .ok a => (.ok a, tapeAfter policy rands (n + 1))
      | .error e =>
        if Retryable nonRetryableExceptions e then
          if policy.maxAttempts ≤ n + 1 then
            (.error (.retryExhausted (n + 1) e), tapeAfter policy rands (n + 1))
          else (attemptsFrom callFunc policy nonRetryableExceptions sleepFor draw remaining
            (n + 2)).play (retryScript outcomes rands) (tapeAfter policy rands (n + 1))
        else (.error e, tapeAfter policy rands (n + 1)) := by
  rw [attemptsFrom, Program.play_bind_ok (play_backoff hn)]
  have hcalled : (callFunc : Program (Retrying T) Exc T).play (retryScript outcomes rands)
        { tapeAfter policy rands n with
          draws := if policy.jitter then n else 0
          events := attemptEvents policy rands n ++ pauseBefore policy rands n } =
      (outcomes n, tapeAfter policy rands (n + 1)) := by
    simp [callFunc, Program.play, retryScript, tapeAfter, attemptEvents_succ]
  cases houtcome : outcomes n with
  | ok a =>
    rw [houtcome] at hcalled
    exact Program.play_tryCatch_ok hcalled _
  | error e =>
    rw [houtcome] at hcalled
    rw [Program.play_tryCatch_error hcalled]
    by_cases hnon : e.isInstanceOfAny nonRetryableExceptions = true
    · have hnot : ¬ Retryable nonRetryableExceptions e := by simp [Retryable, hnon]
      simp only [if_pos hnon, if_neg hnot]
      rfl
    · by_cases hexc : e.isInstance .exception = true
      · have hretry : Retryable nonRetryableExceptions e := ⟨by simpa using hnon, hexc⟩
        simp only [if_neg hnon, if_pos hexc, if_pos hretry]
        split <;> rfl
      · have hnot : ¬ Retryable nonRetryableExceptions e := by simp [Retryable, hexc]
        simp only [if_neg hnon, if_neg hexc, if_neg hnot]
        rfl

/-- The loop runs on to the first outcome it ends on. -/
theorem play_settled (hlimit : i < maxFloatExponent + 2)
    (hsettles : Settles nonRetryableExceptions (outcomes i))
    (hbefore : ∀ j < i, ¬ Settles nonRetryableExceptions (outcomes j)) :
    ∀ remaining n, remaining + n = policy.maxAttempts → n ≤ i → i < policy.maxAttempts →
      (attemptsFrom callFunc policy nonRetryableExceptions sleepFor draw remaining
          (n + 1)).play (retryScript outcomes rands) (tapeAfter policy rands n) =
        (outcomes i, tapeAfter policy rands (i + 1)) := by
  intro remaining
  induction remaining with
  | zero => omega
  | succ remaining ih =>
    intro n hn hle hlt
    rw [play_attempt (by omega)]
    rcases Nat.eq_or_lt_of_le hle with rfl | hlt'
    · cases houtcome : outcomes n with
      | ok a => rfl
      | error e =>
        rw [houtcome] at hsettles
        have hnot : ¬ Retryable nonRetryableExceptions e := hsettles
        simp only [if_neg hnot]
    · have hgoes := hbefore n hlt'
      cases houtcome : outcomes n with
      | ok a => simp [houtcome, Settles] at hgoes
      | error e =>
        have hretry : Retryable nonRetryableExceptions e := by
          simpa [houtcome, Settles] using hgoes
        simp only [if_pos hretry, if_neg (show ¬ policy.maxAttempts ≤ n + 1 by omega)]
        exact ih (n + 1) (by omega) hlt' hlt

/-- Without such an outcome it runs through all its attempts, and reports the last failure. -/
theorem play_exhausted (hlimit : policy.maxAttempts ≤ maxFloatExponent + 2)
    (hnone : ∀ j < policy.maxAttempts, ¬ Settles nonRetryableExceptions (outcomes j)) :
    ∀ remaining n, remaining + n = policy.maxAttempts → n < policy.maxAttempts →
      ∃ e, outcomes (policy.maxAttempts - 1) = .error e ∧
        (attemptsFrom callFunc policy nonRetryableExceptions sleepFor draw remaining
            (n + 1)).play (retryScript outcomes rands) (tapeAfter policy rands n) =
          (.error (.retryExhausted policy.maxAttempts e),
            tapeAfter policy rands policy.maxAttempts) := by
  intro remaining
  induction remaining with
  | zero => omega
  | succ remaining ih =>
    intro n hn hlt
    have hgoes := hnone n hlt
    cases houtcome : outcomes n with
    | ok a => simp [houtcome, Settles] at hgoes
    | error e =>
      have hretry : Retryable nonRetryableExceptions e := by
        simpa [houtcome, Settles] using hgoes
      rw [play_attempt (by omega)]
      simp only [houtcome, if_pos hretry]
      rcases Nat.eq_or_lt_of_le (show n + 1 ≤ policy.maxAttempts from hlt) with hlast | hmore
      · refine ⟨e, by rw [← hlast]; exact houtcome, ?_⟩
        rw [if_pos hlast.ge, hlast]
      · rw [if_neg (by omega)]
        exact ih (n + 1) (by omega) hmore

/-- What the loop calls, what it sleeps and what it ends with, on every stream of outcomes and every
stream of draws, while the delays do not overflow. -/
theorem retry_spec (policy : RetryPolicy) (nonRetryableExceptions : List ExcClass)
    (outcomes : ℕ → Except Exc T) (rands : ℕ → ℚ) :
    (∀ i < policy.maxAttempts, i < maxFloatExponent + 2 →
      Settles nonRetryableExceptions (outcomes i) →
        (∀ j < i, ¬ Settles nonRetryableExceptions (outcomes j)) →
          retry policy nonRetryableExceptions outcomes rands =
            (outcomes i, tapeAfter policy rands (i + 1))) ∧
      (policy.maxAttempts ≤ maxFloatExponent + 2 →
        (∀ j < policy.maxAttempts, ¬ Settles nonRetryableExceptions (outcomes j)) →
        ∃ e, outcomes (policy.maxAttempts - 1) = .error e ∧
          retry policy nonRetryableExceptions outcomes rands =
            (.error (.retryExhausted policy.maxAttempts e),
              tapeAfter policy rands policy.maxAttempts)) := by
  have hstart : (tapeAfter policy rands 0) = {} := by
    simp [tapeAfter, attemptEvents]
  constructor
  · intro i hi hlimit hsettles hbefore
    have hplay := @play_settled T policy _ outcomes rands i hlimit hsettles hbefore
      policy.maxAttempts 0 rfl (Nat.zero_le i) hi
    rwa [hstart] at hplay
  · intro hlimit hnone
    obtain ⟨e, he, hplay⟩ := @play_exhausted T policy _ outcomes rands hlimit hnone
      policy.maxAttempts 0 rfl policy.one_le_maxAttempts
    rw [hstart] at hplay
    exact ⟨e, he, hplay⟩

end

/-- Three attempts, the last delay capped. -/
def RetryPolicy.threeAttempts : RetryPolicy where
  maxAttempts := 3
  baseDelaySeconds := 1
  maxDelaySeconds := 3 / 2
  one_le_maxAttempts := one_le_defaultMaxAttempts
  baseDelaySeconds_nonneg := by decide
  baseDelaySeconds_le := by decide +kernel

/-- Two failures, then a value. -/
def thirdTimeLucky (n : ℕ) : Except Exc ℕ :=
  if n < 2 then .error (.plain .osError "") else .ok n

theorem retry_spec_thirdTimeLucky :
    retry .threeAttempts defaultNonRetryableExceptions thirdTimeLucky (fun _ => 1 / 2) =
      (.ok 2, tapeAfter .threeAttempts (fun _ => 1 / 2) 3) := by
  have hspec := retry_spec .threeAttempts defaultNonRetryableExceptions thirdTimeLucky
    (fun _ => 1 / 2)
  refine hspec.1 2 (by decide) (by decide) trivial ?_
  intro j hj hsettles
  simp only [thirdTimeLucky, if_pos hj, Settles] at hsettles
  exact hsettles (by decide)

example : (tapeAfter .threeAttempts (fun _ => 1 / 2) 3).events =
    [.called, .slept (1 / 2), .called, .slept (3 / 4), .called] := by
  decide +kernel

end ReviewAgent
