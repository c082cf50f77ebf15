import Mathlib.Algebra.Order.Ring.Rat
import ReviewAgent.Effects.Triple
import ReviewAgent.Python

/-! The retry leg: bounded attempts with exponential backoff and jitter. -/
namespace ReviewAgent

open Effects

/-- `DEFAULT_NON_RETRYABLE_EXCEPTIONS`. -/
def defaultNonRetryableExceptions : List ExcClass :=
  [.typeError, .valueError, .keyError, .attributeError]

/-- A policy that `__post_init__` accepts. Seconds are exact rationals. -/
structure RetryPolicy where
  maxAttempts : ℕ
  baseDelaySeconds : ℚ
  maxDelaySeconds : ℚ
  jitter : Bool := true
  one_le_maxAttempts : 1 ≤ maxAttempts
  baseDelaySeconds_nonneg : 0 ≤ baseDelaySeconds
  baseDelaySeconds_le : baseDelaySeconds ≤ maxDelaySeconds

/-- The settings' default number of attempts. -/
theorem one_le_defaultMaxAttempts : 1 ≤ 3 := by decide

/-- The arguments `__post_init__` rejects, with its messages. -/
def RetryPolicy.postInit (maxAttempts : ℤ) (baseDelaySeconds maxDelaySeconds : ℚ)
    (jitter : Bool) : Except Exc RetryPolicy :=
  if h₁ : maxAttempts < 1 then
    .error (.plain .valueError s!"max_attempts must be >= 1, got {maxAttempts}")
  else if h₂ : baseDelaySeconds < 0 then
    .error (.plain .valueError s!"base_delay_seconds must be >= 0, got {baseDelaySeconds}")
  else if h₃ : maxDelaySeconds < baseDelaySeconds then
    .error (.plain .valueError "max_delay_seconds must be >= base_delay_seconds")
  else
    .ok ⟨maxAttempts.toNat, baseDelaySeconds, maxDelaySeconds, jitter, one_le_toNat h₁, not_lt.mp h₂,
      not_lt.mp h₃⟩

/-- The largest exponent `float(2 ** n)` accepts. -/
def maxFloatExponent : ℕ := 1023

/-- Pre-jitter delay before making `attempt` (2, 3, ...). -/
def RetryPolicy.delayForAttempt (policy : RetryPolicy) (attempt : ℕ) : Except Exc ℚ :=
  if attempt ≤ 1 then .ok 0
  else if maxFloatExponent < attempt - 2 then
    .error (.plain .overflowError "int too large to convert to float")
  else .ok (min (policy.baseDelaySeconds * 2 ^ (attempt - 2)) policy.maxDelaySeconds)

/-- The number of attempts the loop can really make: the delay before attempt 1026 overflows. -/
def RetryPolicy.attemptLimit (policy : RetryPolicy) : ℕ :=
  min policy.maxAttempts (maxFloatExponent + 2)

theorem RetryPolicy.delayForAttempt_error {policy : RetryPolicy} {attempt : ℕ} {e : Exc}
    (h : policy.delayForAttempt attempt = .error e) : maxFloatExponent + 2 < attempt := by
  unfold delayForAttempt at h
  split at h
  · cases h
  · split at h
    · omega
    · cases h

theorem RetryPolicy.delayForAttempt_ok {policy : RetryPolicy} {attempt : ℕ} {d : ℚ}
    (h : policy.delayForAttempt attempt = .ok d) : attempt ≤ maxFloatExponent + 2 := by
  unfold delayForAttempt at h
  split at h
  · omega
  · split at h
    · cases h
    · omega

theorem RetryPolicy.one_le_attemptLimit (policy : RetryPolicy) : 1 ≤ policy.attemptLimit := by
  have := policy.one_le_maxAttempts
  simp only [attemptLimit, maxFloatExponent]
  omega

section

variable {S : Signature} {T : Type}

def jittered (policy : RetryPolicy) (rand : Program S Exc ℚ) (delay : ℚ) : Program S Exc ℚ :=
  if policy.jitter then do
    let u ← rand
    pure (delay * u)
  else pure delay

/-- The sleep before an attempt: none before the first, none when it comes out as zero. -/
def backoff (policy : RetryPolicy) (sleep : ℚ → Program S Exc Unit) (rand : Program S Exc ℚ)
    (attempt : ℕ) : Program S Exc Unit :=
  if 1 < attempt then do
    let delay ← Program.ofExcept (policy.delayForAttempt attempt)
    let delay ← jittered policy rand delay
    if 0 < delay then sleep delay
  else pure ()

/-- The loop of `call_with_retry` from `attempt` on, with `remaining` passes left. -/
def attemptsFrom (func : Program S Exc T) (policy : RetryPolicy)
    (nonRetryableExceptions : List ExcClass) (sleep : ℚ → Program S Exc Unit)
    (rand : Program S Exc ℚ) : ℕ → ℕ → Program S Exc T
  | 0, _ => throw (.plain .assertionError "unreachable")
  | remaining + 1, attempt => do
    backoff policy sleep rand attempt
    tryCatch func fun e =>
      if e.isInstanceOfAny nonRetryableExceptions then throw e
      else if e.isInstance .exception then
        if policy.maxAttempts ≤ attempt then throw (.retryExhausted attempt e)
        else attemptsFrom func policy nonRetryableExceptions sleep rand remaining (attempt + 1)
      else throw e

def callWithRetry (func : Program S Exc T) (policy : RetryPolicy)
    (nonRetryableExceptions : List ExcClass) (sleep : ℚ → Program S Exc Unit)
    (rand : Program S Exc ℚ) : Program S Exc T :=
  attemptsFrom func policy nonRetryableExceptions sleep rand policy.maxAttempts 1

/-- An exception after which the loop goes on, attempts permitting. -/
def Retryable (nonRetryableExceptions : List ExcClass) (e : Exc) : Prop :=
  e.isInstanceOfAny nonRetryableExceptions = false ∧ e.isInstance .exception = true

instance (nonRetryableExceptions : List ExcClass) (e : Exc) :
    Decidable (Retryable nonRetryableExceptions e) :=
  inferInstanceAs (Decidable (_ ∧ _))

end

section

variable {S : Signature} {T σ χ μ : Type} {M : Machine S σ χ μ} {i : ℕ} {K : Contract σ}
  {func : Program S Exc T} {policy : RetryPolicy} {nonRetryableExceptions : List ExcClass}
  {sleep : ℚ → Program S Exc Unit} {rand : Program S Exc ℚ} {Q : Except Exc T → σ → Prop}

theorem jittered_triple {P : σ → Prop} (hs : Stable K.rely P)
    (hrand : Triple M i K P rand (Returns P)) (delay : ℚ) :
    Triple M i K P (jittered policy rand delay) (Returns P) := by
  unfold jittered
  split
  · exact hrand.bind (fun u => (Triple.pure hs (by simp)).pre (by simp)) (by simp)
  · exact Triple.pure hs (by simp)

/-- Backing off changes nothing that sleeping and drawing do not; it fails only by overflow. -/
theorem backoff_triple {P : σ → Prop} (hs : Stable K.rely P)
    (hsleep : ∀ s, 0 < s → Triple M i K P (sleep s) (Returns P))
    (hrand : Triple M i K P rand (Returns P)) (attempt : ℕ) :
    Triple M i K P (backoff policy sleep rand attempt) fun r w => P w ∧
      match r with
      | .ok _ => attempt ≤ maxFloatExponent + 2
      | .error e => policy.delayForAttempt attempt = .error e := by
  unfold backoff
  split
  · cases hd : policy.delayForAttempt attempt with
    | error e => exact Triple.done hs (by simp)
    | ok d =>
      have hlim := RetryPolicy.delayForAttempt_ok hd
      apply Triple.bind (R := Returns P) (Triple.done hs (by simp)) _ (by simp)
      intro d
      apply ((jittered_triple hs hrand d).pre (by simp)).bind _ (by simp)
      intro d'
      split
      · rename_i hpos
        apply (hsleep d' hpos).consequence (by simp)
        rintro (e | a) w h
        · simp at h
        · exact ⟨by simpa using h, hlim⟩
      · exact Triple.pure hs.returns fun w hw => ⟨by simpa using hw, hlim⟩
  · exact Triple.pure hs fun w hw => ⟨hw, by omega⟩

/-- The rule for a retry loop: `I n` before attempt `n`, `R n` after it. -/
theorem attemptsFrom_triple {I : ℕ → σ → Prop} {R : ℕ → Except Exc T → σ → Prop}
    (hs : ∀ n, Stable K.rely (I n)) (hr : ∀ n r, Stable K.rely (R n r))
    (hsleep : ∀ n s, 0 < s → Triple M i K (I n) (sleep s) (Returns (I n)))
    (hrand : ∀ n, Triple M i K (I n) rand (Returns (I n)))
    (hfunc : ∀ n, 1 ≤ n → n ≤ policy.attemptLimit → Triple M i K (I n) func (R n))
    (hok : ∀ n a w, R n (.ok a) w → Q (.ok a) w)
    (hraise : ∀ n e w, ¬ Retryable nonRetryableExceptions e → R n (.error e) w →
      Q (.error e) w)
    (hnext : ∀ n e w, n < policy.maxAttempts → Retryable nonRetryableExceptions e →
      R n (.error e) w → I (n + 1) w)
    (hlast : ∀ e w, Retryable nonRetryableExceptions e → R policy.maxAttempts (.error e) w →
      Q (.error (.retryExhausted policy.maxAttempts e)) w)
    (hover : ∀ n e w, policy.delayForAttempt n = .error e → I n w → Q (.error e) w) :
    ∀ remaining n, remaining + n = policy.maxAttempts + 1 → 1 ≤ n → 1 ≤ remaining →
      Triple M i K (I n)
        (attemptsFrom func policy nonRetryableExceptions sleep rand remaining n) Q := by
  intro remaining
  induction remaining with
  | zero => omega
  | succ remaining ih =>
    intro n hn h1 _
    apply (backoff_triple (hs n) (hsleep n) (hrand n) n).bind
    · intro _ w hw
      have hlim : n ≤ policy.attemptLimit := by
        have := hw.2
        simp only [RetryPolicy.attemptLimit]
        omega
      apply Triple.tryCatch (hfunc n h1 hlim) (hok n) _ w hw.1
      intro e
      split
      · rename_i hnon
        exact Triple.throw (hr n _) fun w hw => hraise n e w (by simp [Retryable, hnon]) hw
      · rename_i hnon
        split
        · rename_i hexc
          have hre : Retryable nonRetryableExceptions e := ⟨by simpa using hnon, hexc⟩
          split
          · rename_i hmax
            obtain rfl : n = policy.maxAttempts := by omega
            exact Triple.throw (hr _ _) fun w hw => hlast e w hre hw
          · rename_i hmax
            exact (ih (n + 1) (by omega) (by omega) (by omega)).pre fun w hw =>
              hnext n e w (by omega) hre hw
        · rename_i hexc
          exact Triple.throw (hr n _) fun w hw => hraise n e w (by simp [Retryable, hexc]) hw
    · exact fun e w hw => hover n e w hw.2 hw.1

theorem callWithRetry_triple {I : ℕ → σ → Prop} {R : ℕ → Except Exc T → σ → Prop}
    (hs : ∀ n, Stable K.rely (I n)) (hr : ∀ n r, Stable K.rely (R n r))
    (hsleep : ∀ n s, 0 < s → Triple M i K (I n) (sleep s) (Returns (I n)))
    (hrand : ∀ n, Triple M i K (I n) rand (Returns (I n)))
    (hfunc : ∀ n, 1 ≤ n → n ≤ policy.attemptLimit → Triple M i K (I n) func (R n))
    (hok : ∀ n a w, R n (.ok a) w → Q (.ok a) w)
    (hraise : ∀ n e w, ¬ Retryable nonRetryableExceptions e → R n (.error e) w →
      Q (.error e) w)
    (hnext : ∀ n e w, n < policy.maxAttempts → Retryable nonRetryableExceptions e →
      R n (.error e) w → I (n + 1) w)
    (hlast : ∀ e w, Retryable nonRetryableExceptions e → R policy.maxAttempts (.error e) w →
      Q (.error (.retryExhausted policy.maxAttempts e)) w)
    (hover : ∀ n e w, policy.delayForAttempt n = .error e → I n w → Q (.error e) w) :
    Triple M i K (I 1) (callWithRetry func policy nonRetryableExceptions sleep rand) Q :=
  attemptsFrom_triple hs hr hsleep hrand hfunc hok hraise hnext hlast hover
    policy.maxAttempts 1 rfl (Nat.le_refl 1) policy.one_le_maxAttempts

end

end ReviewAgent
