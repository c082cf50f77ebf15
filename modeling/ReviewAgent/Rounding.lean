import Mathlib.Algebra.Order.Round
import Mathlib.Data.Int.Log
import Mathlib.Data.Rat.Floor
import Mathlib.Tactic.FieldSimp
import Mathlib.Tactic.GCongr
import Mathlib.Tactic.Linarith
import Mathlib.Tactic.Positivity
import Mathlib.Tactic.Ring

/-! Decimal rounding of rationals: to significant digits with ties to even, and to places with
ties up. -/
namespace Rounding

/-- Nearest integer, ties to the even one. -/
def halfEven (x : ℚ) : ℤ :=
  if x - ⌊x⌋ < 1 / 2 then ⌊x⌋
  else if 1 / 2 < x - ⌊x⌋ then ⌊x⌋ + 1
  else if ⌊x⌋ % 2 = 0 then ⌊x⌋ else ⌊x⌋ + 1

/-- The weight of the last of `p` significant digits of `x`. -/
def lastDigit (p : ℕ) (x : ℚ) : ℚ := 10 ^ (Int.log 10 x - p + 1)

/-- `x` to `p` significant digits. -/
def toDigits (p : ℕ) (x : ℚ) : ℚ := halfEven (x / lastDigit p x) * lastDigit p x

/-- `x` in units of the `d`-th decimal place, ties up. -/
def toPlaces (d : ℕ) (x : ℚ) : ℤ := ⌊10 ^ d * x + 1 / 2⌋

theorem halfEven_intCast (n : ℤ) : halfEven n = n := by
  simp [halfEven]

theorem abs_halfEven_sub_le (x : ℚ) : |halfEven x - x| ≤ 1 / 2 := by
  have h1 := Int.floor_le x
  have h2 := Int.lt_floor_add_one x
  unfold halfEven
  rw [abs_le]
  split
  · constructor <;> linarith
  · split
    · push_cast
      constructor <;> linarith
    · split
      · constructor <;> linarith
      · push_cast
        constructor <;> linarith

theorem lastDigit_pos (p : ℕ) (x : ℚ) : 0 < lastDigit p x := zpow_pos (by norm_num) _

theorem abs_toDigits_sub_le (p : ℕ) (x : ℚ) : |toDigits p x - x| ≤ lastDigit p x / 2 := by
  have hpos := lastDigit_pos p x
  have h := abs_halfEven_sub_le (x / lastDigit p x)
  have hx : toDigits p x - x =
      (halfEven (x / lastDigit p x) - x / lastDigit p x) * lastDigit p x := by
    unfold toDigits
    field_simp
  rw [hx, abs_mul, abs_of_pos hpos]
  calc |halfEven (x / lastDigit p x) - x / lastDigit p x| * lastDigit p x
      ≤ 1 / 2 * lastDigit p x := by gcongr
    _ = lastDigit p x / 2 := by ring

/-- A number whose digits end at or above the last kept one is kept as it is. -/
theorem toDigits_eq_self {p : ℕ} {x : ℚ} {m : ℤ} {e : ℤ} (hx : x = m * 10 ^ e)
    (he : Int.log 10 x - p + 1 ≤ e) : toDigits p x = x := by
  have hpos := lastDigit_pos p x
  obtain ⟨k, hk⟩ : ∃ k : ℕ, e = Int.log 10 x - p + 1 + k :=
    ⟨(e - (Int.log 10 x - p + 1)).toNat, by omega⟩
  have hdiv : x / lastDigit p x = ((m * 10 ^ k : ℤ) : ℚ) := by
    rw [div_eq_iff hpos.ne']
    conv_lhs => rw [hx, hk]
    rw [zpow_add₀ (by norm_num), zpow_natCast]
    unfold lastDigit
    push_cast
    ring
  rw [toDigits, hdiv, halfEven_intCast, ← hdiv, div_mul_cancel₀ x hpos.ne']

theorem toDigits_zero (p : ℕ) : toDigits p 0 = 0 := by
  simp [toDigits, halfEven]

theorem halfEven_le {x : ℚ} {k : ℤ} (h : x ≤ k) : halfEven x ≤ k := by
  rcases h.eq_or_lt with rfl | hlt
  · exact (halfEven_intCast k).le
  · have hfloor : ⌊x⌋ + 1 ≤ k := Int.floor_lt.mpr hlt
    unfold halfEven
    split
    · omega
    · split
      · omega
      · split <;> omega

theorem floor_le_halfEven (x : ℚ) : ⌊x⌋ ≤ halfEven x := by
  unfold halfEven
  split
  · exact le_rfl
  · split
    · omega
    · split <;> omega

theorem halfEven_le_floor (x : ℚ) : halfEven x ≤ ⌊x⌋ + 1 := by
  unfold halfEven
  split
  · omega
  · split
    · exact le_rfl
    · split <;> omega

theorem le_halfEven {x : ℚ} {k : ℤ} (h : k ≤ x) : k ≤ halfEven x :=
  (Int.le_floor.mpr h).trans (floor_le_halfEven x)

theorem halfEven_mono {x y : ℚ} (h : x ≤ y) : halfEven x ≤ halfEven y := by
  rcases (Int.floor_mono h).lt_or_eq with hlt | heq
  · have hx := halfEven_le_floor x
    have hy := floor_le_halfEven y
    omega
  · have hfrac : x - ⌊x⌋ ≤ y - ⌊x⌋ := by linarith
    unfold halfEven
    rw [← heq]
    split
    · split
      · exact le_rfl
      · split
        · omega
        · split <;> omega
    · split
      · rw [if_neg (by linarith), if_pos (by linarith)]
      · split
        · split
          · linarith
          · split <;> omega
        · split
          · linarith
          · split <;> omega

theorem halfEven_eq_of_close {x : ℚ} {k : ℤ} (h : |x - k| < 1 / 2) : halfEven x = k := by
  have hround := abs_halfEven_sub_le x
  have hclose : |(halfEven x : ℚ) - k| < 1 := by
    calc |(halfEven x : ℚ) - k| = |(halfEven x - x) + (x - k)| := by ring_nf
      _ ≤ |halfEven x - x| + |x - k| := abs_add_le _ _
      _ < 1 := by linarith
  have hint : |halfEven x - k| < 1 := by exact_mod_cast hclose
  exact sub_eq_zero.mp (Int.abs_lt_one_iff.mp hint)

/-- Rounding to digits does not pass a number whose digits end at or above the last kept one. -/
theorem toDigits_le {p : ℕ} {x : ℚ} {m e : ℤ} (h : x ≤ m * 10 ^ e)
    (he : Int.log 10 x - p + 1 ≤ e) : toDigits p x ≤ m * 10 ^ e := by
  have hpos := lastDigit_pos p x
  obtain ⟨k, hk⟩ : ∃ k : ℕ, e = Int.log 10 x - p + 1 + k :=
    ⟨(e - (Int.log 10 x - p + 1)).toNat, by omega⟩
  have hsplit : (m : ℚ) * 10 ^ e = ((m * 10 ^ k : ℤ) : ℚ) * lastDigit p x := by
    rw [hk, zpow_add₀ (by norm_num), zpow_natCast]
    unfold lastDigit
    push_cast
    ring
  rw [hsplit] at h ⊢
  have hround : halfEven (x / lastDigit p x) ≤ m * 10 ^ k :=
    halfEven_le ((div_le_iff₀ hpos).mpr h)
  unfold toDigits
  gcongr

theorem halfEven_nonneg {x : ℚ} (h : 0 ≤ x) : 0 ≤ halfEven x :=
  (Int.floor_nonneg.mpr h).trans (floor_le_halfEven x)

theorem toDigits_nonneg {p : ℕ} {x : ℚ} (h : 0 ≤ x) : 0 ≤ toDigits p x := by
  have hpos := lastDigit_pos p x
  have := halfEven_nonneg (div_nonneg h hpos.le)
  unfold toDigits
  have : (0 : ℚ) ≤ halfEven (x / lastDigit p x) := by exact_mod_cast this
  positivity

theorem halfEven_eq_of_lt {x : ℚ} {k : ℤ} (hk : k ≤ x) (h : x - k < 1 / 2) : halfEven x = k := by
  have hfloor : ⌊x⌋ = k := Int.floor_eq_iff.mpr ⟨hk, by linarith⟩
  rw [halfEven, hfloor, if_pos h]

/-- One more than the first number without a unit digit is rounded back to it. -/
theorem toDigits_le_pow {p : ℕ} {x : ℚ} (hp : 1 ≤ p) (hx : x ≤ 10 ^ p + 1) :
    toDigits p x ≤ 10 ^ p := by
  have hten : (10 : ℚ) ^ p = ((1 : ℤ) : ℚ) * 10 ^ (p : ℤ) := by
    rw [zpow_natCast]
    norm_num
  rcases lt_or_ge x (10 ^ p) with hlt | hge
  · rw [hten]
    apply toDigits_le
    · rw [← hten]
      exact hlt.le
    · rcases le_or_gt x 0 with h0 | hpos
      · rw [Int.log_of_right_le_zero _ h0]
        omega
      · have : Int.log 10 x < p := by
          rw [← Int.lt_zpow_iff_log_lt (by norm_num) hpos]
          exact_mod_cast hlt
        omega
  · have hpos : 0 < x := lt_of_lt_of_le (by positivity) hge
    have hlog : Int.log 10 x = p := by
      apply le_antisymm
      · have : Int.log 10 x < p + 1 := by
          rw [← Int.lt_zpow_iff_log_lt (by norm_num) hpos, zpow_add₀ (by norm_num), zpow_natCast]
          have : (1 : ℚ) ≤ 10 ^ p := one_le_pow₀ (by norm_num)
          push_cast
          linarith
        omega
      · rw [← Int.zpow_le_iff_le_log (by norm_num) hpos, zpow_natCast]
        exact_mod_cast hge
    have hlast : lastDigit p x = 10 := by simp [lastDigit, hlog]
    obtain ⟨q, rfl⟩ : ∃ q, p = q + 1 := ⟨p - 1, by omega⟩
    have hround : halfEven (x / 10) = 10 ^ q := by
      apply halfEven_eq_of_lt
      · rw [le_div_iff₀ (by norm_num)]
        push_cast
        rw [pow_succ] at hge
        exact hge
      · rw [sub_lt_iff_lt_add, div_lt_iff₀ (by norm_num)]
        push_cast
        rw [pow_succ] at hx
        linarith
    rw [toDigits, hlast, hround]
    push_cast
    rw [pow_succ]

/-- A number whose multiple by `n` is whole, and which is not whole itself, keeps its floor under
a perturbation below `1 / n`. -/
theorem floor_eq_of_close {x y : ℚ} {n : ℕ} {z : ℤ} (hn : 0 < n) (hz : n * x = z)
    (hx : x ≠ ⌊x⌋) (hy : n * |y - x| < 1) : ⌊y⌋ = ⌊x⌋ := by
  have hn' : (0 : ℚ) < n := by exact_mod_cast hn
  have hlow : (n : ℚ) * ⌊x⌋ + 1 ≤ n * x := by
    have : (n : ℚ) * ⌊x⌋ < n * x := by
      gcongr
      exact lt_of_le_of_ne (Int.floor_le x) (Ne.symm hx)
    rw [hz] at this ⊢
    exact_mod_cast this
  have hhigh : (n : ℚ) * x + 1 ≤ n * (⌊x⌋ + 1) := by
    have : (n : ℚ) * x < n * (⌊x⌋ + 1) := by
      gcongr
      exact Int.lt_floor_add_one x
    rw [hz] at this ⊢
    exact_mod_cast this
  have hclose : |(n : ℚ) * y - n * x| < 1 := by
    rw [← mul_sub, abs_mul, abs_of_pos hn']
    exact hy
  obtain ⟨h1, h2⟩ := abs_lt.mp hclose
  rw [Int.floor_eq_iff]
  constructor
  · have : (n : ℚ) * ⌊x⌋ ≤ n * y := by linarith
    exact le_of_mul_le_mul_left this hn'
  · have : (n : ℚ) * y < n * (⌊x⌋ + 1) := by linarith
    exact lt_of_mul_lt_mul_left this hn'.le

/-- The last digit of a number of at most one. -/
theorem lastDigit_le {p : ℕ} {x : ℚ} (hx : 0 ≤ x) (h1 : x ≤ 1) :
    Int.log 10 x ≤ 0 ∧ lastDigit p x ≤ 10 ^ (1 - p : ℤ) := by
  have hlog : Int.log 10 x ≤ 0 := by
    rcases hx.eq_or_lt with rfl | hpos
    · simp
    · calc Int.log 10 x ≤ Int.log 10 (1 : ℚ) := Int.log_mono_right hpos h1
        _ = 0 := by simp
  refine ⟨hlog, ?_⟩
  unfold lastDigit
  exact zpow_le_zpow_right₀ (by norm_num) (by omega)

/-- A fraction of at most one, with a denominator small for the number of digits kept, is rounded
to places alike before and after rounding to digits. -/
theorem toPlaces_toDigits {d p a n : ℕ} (hn : 0 < n) (ha : a ≤ 10 ^ d * n)
    (hp : 10 ^ (d + 1) * n < 10 ^ p) :
    toPlaces d (toDigits p (a / (10 ^ d * n))) = toPlaces d (a / (10 ^ d * n)) := by
  set x : ℚ := a / (10 ^ d * n) with hx
  have hn' : (0 : ℚ) < n := by exact_mod_cast hn
  have hd : (0 : ℚ) < 10 ^ d := by positivity
  have hx0 : 0 ≤ x := by positivity
  have hx1 : x ≤ 1 := by
    rw [hx, div_le_one (by positivity)]
    exact_mod_cast ha
  obtain ⟨hlog, hlast⟩ := lastDigit_le (p := p) hx0 hx1
  have hscaled : 10 ^ d * x = a / n := by
    rw [hx]
    field_simp
  unfold toPlaces
  by_cases hwhole : 10 ^ d * x + 1 / 2 = (⌊10 ^ d * x + 1 / 2⌋ : ℤ)
  · -- a tie: the fraction has few digits, so rounding to digits keeps it
    have hdp : d + 1 < p := by
      apply (Nat.pow_lt_pow_iff_right (a := 10) (by norm_num)).mp
      exact lt_of_le_of_lt (Nat.le_mul_of_pos_right _ hn) hp
    have hself : toDigits p x = x := by
      apply toDigits_eq_self (m := 10 * ⌊10 ^ d * x + 1 / 2⌋ - 5) (e := -(d + 1 : ℕ))
      · rw [zpow_neg, zpow_natCast, pow_succ]
        push_cast
        rw [← hwhole]
        field_simp
        ring
      · push_cast
        omega
    rw [hself]
  · -- no tie: the distance to the nearest one exceeds the error of rounding to digits
    apply floor_eq_of_close (n := 2 * n) (z := 2 * a + n) (by omega) _ hwhole
    · have herr := abs_toDigits_sub_le p x
      have hbound : |toDigits p x - x| ≤ 10 ^ (1 - p : ℤ) / 2 := by linarith
      have hsplit : (10 : ℚ) ^ (1 - p : ℤ) = 10 / 10 ^ p := by
        rw [zpow_sub₀ (by norm_num), zpow_natCast, zpow_one]
      have hp' : (10 : ℚ) ^ (d + 1) * n < 10 ^ p := by exact_mod_cast hp
      rw [hsplit] at hbound
      push_cast
      calc 2 * n * |10 ^ d * toDigits p x + 1 / 2 - (10 ^ d * x + 1 / 2)|
          = 2 * n * 10 ^ d * |toDigits p x - x| := by
            rw [add_sub_add_right_eq_sub, ← mul_sub, abs_mul, abs_of_pos hd]
            ring
        _ ≤ 2 * n * 10 ^ d * (10 / 10 ^ p / 2) := by gcongr
        _ = 10 ^ (d + 1) * n / 10 ^ p := by ring
        _ < 1 := by rwa [div_lt_one (by positivity)]
    · rw [hscaled]
      push_cast
      field_simp

end Rounding
