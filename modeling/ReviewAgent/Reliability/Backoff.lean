import Mathlib.Algebra.Order.Field.Basic
import Mathlib.Algebra.Order.Field.Rat
import Mathlib.Tactic.NormNum
import ReviewAgent.Floating
import ReviewAgent.Reliability.Retry

/-! The backoff under every policy, whatever floats its delays are. -/
namespace ReviewAgent

/-- The arguments of a `RetryPolicy`, with its delays as the floats they are. -/
structure FloatPolicy where
  maxAttempts : ℤ
  baseDelaySeconds : Floating
  maxDelaySeconds : Floating
  jitter : Bool := true

/-- How an f-string shows a float, up to the digits. -/
def floatStr : Floating → String
  | .finite q => toString q
  | .posInf => "inf"
  | .negInf => "-inf"
  | .nan => "nan"

/-- `float(n)`, exact as long as it does not overflow. -/
def floatOfInt (n : ℤ) : Except Exc Floating :=
  if 2 ^ (maxFloatExponent + 1) ≤ n.natAbs then
    .error (.plain .overflowError "int too large to convert to float")
  else .ok (.finite n)

namespace FloatPolicy

/-- `__post_init__`, the policy accepted when it returns. -/
def postInit (policy : FloatPolicy) : Except Exc Unit :=
  if policy.maxAttempts < 1 then
    .error (.plain .valueError s!"max_attempts must be >= 1, got {policy.maxAttempts}")
  else if policy.baseDelaySeconds.lt 0 then
    .error (.plain .valueError
      s!"base_delay_seconds must be >= 0, got {floatStr policy.baseDelaySeconds}")
  else if policy.maxDelaySeconds.lt policy.baseDelaySeconds then
    .error (.plain .valueError "max_delay_seconds must be >= base_delay_seconds")
  else .ok ()

def delayForAttempt (policy : FloatPolicy) (attempt : ℤ) : Except Exc Floating :=
  if attempt ≤ 1 then .ok 0
  else do
    let factor ← floatOfInt (2 ^ (attempt - 2).toNat)
    let exponential := policy.baseDelaySeconds.mul factor
    pure (exponential.min policy.maxDelaySeconds)

/-- Every delay of the loop is returned, within its bounds, and none is below an earlier one. -/
structure PacesUp (policy : FloatPolicy) : Prop where
  bounded : ∀ attempt, 1 ≤ attempt → attempt ≤ policy.maxAttempts →
    ∃ delay, policy.delayForAttempt attempt = .ok delay ∧ (0 : Floating).le delay = true ∧
      delay.le policy.maxDelaySeconds = true
  monotone : ∀ attempt later delay delay', 1 ≤ attempt → attempt ≤ later →
    later ≤ policy.maxAttempts → policy.delayForAttempt attempt = .ok delay →
    policy.delayForAttempt later = .ok delay' → delay.le delay' = true

variable {policy : FloatPolicy}

/-- What passes `__post_init__`: its comparisons let NaN through. -/
theorem postInit_ok_iff : policy.postInit = .ok () ↔ 1 ≤ policy.maxAttempts ∧
    policy.baseDelaySeconds.lt 0 = false ∧
    policy.maxDelaySeconds.lt policy.baseDelaySeconds = false := by
  unfold postInit
  split
  · simp
    omega
  · split
    · simp_all
    · split
      · simp_all
      · simp_all

theorem floatOfInt_two_pow {k : ℕ} (h : k ≤ maxFloatExponent) :
    floatOfInt (2 ^ k) = .ok (.finite (2 ^ k)) := by
  have hlt : 2 ^ k < 2 ^ (maxFloatExponent + 1) := Nat.pow_lt_pow_right (by norm_num) (by omega)
  have habs : ((2 : ℤ) ^ k).natAbs = 2 ^ k := by
    rw [Int.natAbs_pow]
    rfl
  rw [floatOfInt, habs, if_neg (not_le.mpr hlt), Int.cast_pow, Int.cast_ofNat]

theorem floatOfInt_two_pow_error {k : ℕ} (h : maxFloatExponent < k) :
    floatOfInt (2 ^ k) = .error (.plain .overflowError "int too large to convert to float") := by
  have hle : 2 ^ (maxFloatExponent + 1) ≤ 2 ^ k := Nat.pow_le_pow_right (by norm_num) h
  have habs : ((2 : ℤ) ^ k).natAbs = 2 ^ k := by
    rw [Int.natAbs_pow]
    rfl
  rw [floatOfInt, habs, if_pos hle]

theorem delayForAttempt_first {attempt : ℤ} (h : attempt ≤ 1) :
    policy.delayForAttempt attempt = .ok 0 := if_pos h

theorem delayForAttempt_later {attempt : ℤ} (h : 1 < attempt)
    (hlimit : attempt ≤ maxFloatExponent + 2) :
    policy.delayForAttempt attempt = .ok
      ((policy.baseDelaySeconds.mul (.finite (2 ^ (attempt - 2).toNat))).min
        policy.maxDelaySeconds) := by
  rw [delayForAttempt, if_neg (by omega), floatOfInt_two_pow (by omega)]
  rfl

theorem delayForAttempt_overflow {attempt : ℤ} (h : maxFloatExponent + 2 < attempt) :
    policy.delayForAttempt attempt =
      .error (.plain .overflowError "int too large to convert to float") := by
  rw [delayForAttempt, if_neg (by omega), floatOfInt_two_pow_error (by omega)]
  rfl

/-- The policy with the same numbers for its delays. -/
def ofPolicy (policy : RetryPolicy) : FloatPolicy where
  maxAttempts := policy.maxAttempts
  baseDelaySeconds := .finite policy.baseDelaySeconds
  maxDelaySeconds := .finite policy.maxDelaySeconds
  jitter := policy.jitter

theorem postInit_ofPolicy (policy : RetryPolicy) : (ofPolicy policy).postInit = .ok () := by
  have hattempts := policy.one_le_maxAttempts
  rw [postInit_ok_iff]
  refine ⟨?_, ?_, ?_⟩
  · simp only [ofPolicy]
    omega
  · simpa [ofPolicy, Floating.zero_eq, Floating.lt] using policy.baseDelaySeconds_nonneg
  · simpa [ofPolicy, Floating.lt] using policy.baseDelaySeconds_le

/-- On finite delays the loop's own delays are these. -/
theorem delayForAttempt_ofPolicy (policy : RetryPolicy) (attempt : ℕ) :
    (ofPolicy policy).delayForAttempt attempt =
      (policy.delayForAttempt attempt).map Floating.finite := by
  unfold RetryPolicy.delayForAttempt
  split
  · exact delayForAttempt_first (by omega)
  · split
    · exact delayForAttempt_overflow (by omega)
    · rw [delayForAttempt_later (by omega) (by omega)]
      have hexponent : ((attempt : ℤ) - 2).toNat = attempt - 2 := by omega
      simp only [ofPolicy, hexponent, Floating.mul, Floating.min_finite, Except.map]

/-- The base delay is a number of at least zero when it is not NaN. -/
theorem base_nonneg (h : policy.postInit = .ok ()) (hnan : policy.baseDelaySeconds ≠ .nan) :
    (0 : Floating).le policy.baseDelaySeconds = true :=
  Floating.le_of_not_lt (by simp [Floating.zero_eq]) hnan (postInit_ok_iff.mp h).2.1

/-- The backoff keeps its promise just while `2 ** (attempt - 2)` fits a float and no delay that
counts is NaN, which `__post_init__` lets through. -/
theorem pacesUp_iff {policy : FloatPolicy} (h : policy.postInit = .ok ()) :
    policy.PacesUp ↔ policy.maxAttempts ≤ 1025 ∧
      (0 : Floating).le policy.maxDelaySeconds = true ∧
      (policy.baseDelaySeconds = .nan → policy.maxAttempts = 1) := by
  have hone := (postInit_ok_iff.mp h).1
  constructor
  · rintro ⟨hbounded, -⟩
    refine ⟨?_, ?_, ?_⟩
    · by_contra hlong
      obtain ⟨delay, hdelay, -⟩ := hbounded 1026 (by norm_num) (by omega)
      rw [delayForAttempt_overflow (by decide)] at hdelay
      cases hdelay
    · obtain ⟨delay, hdelay, -, hle⟩ := hbounded 1 le_rfl hone
      rw [delayForAttempt_first le_rfl] at hdelay
      cases hdelay
      exact hle
    · intro hnan
      by_contra hmore
      obtain ⟨delay, hdelay, hle, -⟩ := hbounded 2 (by norm_num) (by omega)
      rw [delayForAttempt_later (by norm_num) (by decide), hnan] at hdelay
      cases hdelay
      simp [Floating.mul, Floating.min] at hle
  · rintro ⟨hlimit, hmax, hnan⟩
    have hmaxnan : policy.maxDelaySeconds ≠ .nan := by
      intro he
      simp [he] at hmax
    have hbase : ∀ attempt, 1 < attempt → attempt ≤ policy.maxAttempts →
        (0 : Floating).le policy.baseDelaySeconds = true := by
      intro attempt hlow hhigh
      apply base_nonneg h
      intro he
      have := hnan he
      omega
    have hfits : ∀ attempt, attempt ≤ policy.maxAttempts → attempt ≤ maxFloatExponent + 2 := by
      intro attempt hle
      simp only [maxFloatExponent]
      omega
    have hbounded : ∀ attempt, 1 ≤ attempt → attempt ≤ policy.maxAttempts →
        ∃ delay, policy.delayForAttempt attempt = .ok delay ∧ (0 : Floating).le delay = true ∧
          delay.le policy.maxDelaySeconds = true := by
      intro attempt hlow hhigh
      rcases hlow.eq_or_lt with rfl | hlow
      · exact ⟨0, delayForAttempt_first le_rfl, Floating.le_refl (by simp [Floating.zero_eq]), hmax⟩
      · have hmul := Floating.mul_finite_nonneg (p := 2 ^ (attempt - 2).toNat)
          (hbase attempt hlow hhigh) (by positivity)
        exact ⟨_, delayForAttempt_later hlow (hfits attempt hhigh), Floating.le_min hmul hmax,
          Floating.min_le_right (Floating.ne_nan_of_le hmul) hmaxnan⟩
    refine ⟨hbounded, fun attempt later delay delay' hlow hle hhigh hd hd' => ?_⟩
    rcases hlow.eq_or_lt with rfl | hlow
    · obtain ⟨d, hd'', hnonneg, -⟩ := hbounded later hle hhigh
      rw [delayForAttempt_first le_rfl] at hd
      rw [hd''] at hd'
      cases hd
      cases hd'
      exact hnonneg
    · rw [delayForAttempt_later hlow (hfits attempt (hle.trans hhigh))] at hd
      rw [delayForAttempt_later (hlow.trans_le hle) (hfits later hhigh)] at hd'
      cases hd
      cases hd'
      apply Floating.min_le_min hmaxnan
      apply Floating.mul_finite_le_mul (hbase later (hlow.trans_le hle) hhigh) (by positivity)
      exact pow_le_pow_right₀ (by norm_num) (by omega)

/-- Three attempts from half a second up to eight. -/
def sample : FloatPolicy where
  maxAttempts := 3
  baseDelaySeconds := .finite (1 / 2)
  maxDelaySeconds := .finite 8

theorem pacesUp_sample : sample.PacesUp := by
  refine (pacesUp_iff (postInit_ok_iff.mpr ?_)).mpr ⟨by decide, by decide, by simp [sample]⟩
  norm_num [sample, Floating.lt, Floating.zero_eq]

/-- A policy of so many attempts that the growth of the delay no longer fits a float, although
every delay from the sixth attempt on is the same. -/
def patient : FloatPolicy where
  maxAttempts := 1026
  baseDelaySeconds := .finite 1
  maxDelaySeconds := .finite 10

theorem patient_overflows : patient.postInit = .ok () ∧
    patient.delayForAttempt 1026 =
      .error (.plain .overflowError "int too large to convert to float") ∧ ¬ patient.PacesUp := by
  have hoverflow : patient.delayForAttempt 1026 =
      .error (.plain .overflowError "int too large to convert to float") :=
    delayForAttempt_overflow (by decide)
  refine ⟨postInit_ok_iff.mpr (by decide), hoverflow, fun hpaces => ?_⟩
  obtain ⟨delay, hdelay, -⟩ := hpaces.bounded 1026 (by decide) (by decide)
  rw [hoverflow] at hdelay
  cases hdelay

end FloatPolicy

end ReviewAgent
