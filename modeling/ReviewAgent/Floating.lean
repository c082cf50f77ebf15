import Mathlib.Algebra.Order.Ring.Rat
import Mathlib.Tactic.GCongr
import Mathlib.Tactic.Positivity

/-! Floats as exact numbers, with the infinities and NaN beside them. -/

inductive Floating where
  | finite (q : ℚ)
  | posInf
  | negInf
  | nan
  deriving DecidableEq

namespace Floating

variable {x y z : Floating} {p q : ℚ}

instance : Zero Floating := ⟨finite 0⟩

/-- `x < y`. NaN is neither below nor above anything. -/
def lt : Floating → Floating → Bool
  | finite p, finite q => decide (p < q)
  | finite _, posInf | negInf, finite _ | negInf, posInf => true
  | _, _ => false

/-- `x <= y`. -/
def le : Floating → Floating → Bool
  | finite p, finite q => decide (p ≤ q)
  | finite _, posInf | negInf, finite _ | negInf, posInf => true
  | posInf, posInf | negInf, negInf => true
  | _, _ => false

/-- `min(x, y)`: the first one stays unless the second is below it. -/
def min (x y : Floating) : Floating := if y.lt x then y else x

/-- `max(x, y)`: the first one stays unless the second is above it. -/
def max (x y : Floating) : Floating := if x.lt y then y else x

/-- An infinity with the sign of a number, NaN for zero. -/
def infinityOf (q : ℚ) : Floating := if 0 < q then posInf else if q < 0 then negInf else nan

/-- `x * y`. -/
def mul : Floating → Floating → Floating
  | finite p, finite q => finite (p * q)
  | finite p, posInf | posInf, finite p => infinityOf p
  | finite p, negInf | negInf, finite p => infinityOf (-p)
  | posInf, posInf | negInf, negInf => posInf
  | posInf, negInf | negInf, posInf => negInf
  | nan, _ | _, nan => nan

theorem zero_eq : (0 : Floating) = finite 0 := rfl

@[simp] theorem lt_finite : (finite p).lt (finite q) = true ↔ p < q := by simp [lt]

@[simp] theorem le_finite : (finite p).le (finite q) = true ↔ p ≤ q := by simp [le]

@[simp] theorem min_finite : (finite p).min (finite q) = finite (p ⊓ q) := by
  rcases lt_or_ge q p with h | h
  · rw [min, if_pos (lt_finite.mpr h), inf_eq_right.mpr h.le]
  · rw [min, if_neg (by simpa using h), inf_eq_left.mpr h]

@[simp] theorem max_finite : (finite p).max (finite q) = finite (p ⊔ q) := by
  rcases lt_or_ge p q with h | h
  · rw [max, if_pos (lt_finite.mpr h), sup_eq_right.mpr h.le]
  · rw [max, if_neg (by simpa using h), sup_eq_left.mpr h]

@[simp] theorem le_nan (x : Floating) : x.le nan = false := by cases x <;> rfl

@[simp] theorem nan_le (x : Floating) : nan.le x = false := by cases x <;> rfl

@[simp] theorem lt_nan (x : Floating) : x.lt nan = false := by cases x <;> rfl

@[simp] theorem nan_lt (x : Floating) : nan.lt x = false := by cases x <;> rfl

theorem le_trans (hxy : x.le y = true) (hyz : y.le z = true) : x.le z = true := by
  cases x <;> cases y <;> cases z <;> simp_all [le]
  exact hxy.trans hyz

/-- Numbers are ordered; only NaN escapes comparison. -/
theorem le_of_not_lt (hx : x ≠ nan) (hy : y ≠ nan) (h : y.lt x = false) : x.le y = true := by
  cases x <;> cases y <;> simp_all [lt, le]

theorem le_refl (hx : x ≠ nan) : x.le x = true := by
  cases x <;> simp_all [le]

theorem le_of_lt (h : x.lt y = true) : x.le y = true := by
  cases x <;> cases y <;> simp_all [lt, le]
  exact h.le

theorem ne_nan_of_le (h : x.le y = true) : y ≠ nan := by
  rintro rfl
  simp at h

theorem min_le_right (hx : x ≠ nan) (hy : y ≠ nan) : (min x y).le y = true := by
  unfold min
  split
  · exact le_refl hy
  · rename_i h
    exact le_of_not_lt hx hy (by simpa using h)

theorem le_min (hx : z.le x = true) (hy : z.le y = true) : z.le (min x y) = true := by
  unfold min
  split
  · exact hy
  · exact hx

theorem min_le_min (hz : z ≠ nan) (hxy : x.le y = true) : (min x z).le (min y z) = true := by
  have hx : x ≠ nan := by rintro rfl; simp at hxy
  apply le_min
  · unfold min
    split
    · exact le_trans (le_of_lt ‹_›) hxy
    · exact hxy
  · exact min_le_right hx hz

/-- Of two numbers at least zero the greater multiple is the greater one. -/
theorem mul_finite_le_mul (hx : (0 : Floating).le x = true) (hp : 0 < p) (hpq : p ≤ q) :
    (x.mul (finite p)).le (x.mul (finite q)) = true := by
  cases x with
  | finite r =>
    rw [zero_eq, le_finite] at hx
    simp only [mul, le_finite]
    gcongr
  | posInf => simp [mul, infinityOf, hp, hp.trans_le hpq, le]
  | negInf => simp [le] at hx
  | nan => simp at hx

theorem mul_finite_nonneg (hx : (0 : Floating).le x = true) (hp : 0 < p) :
    (0 : Floating).le (x.mul (finite p)) = true := by
  cases x with
  | finite r =>
    rw [zero_eq, le_finite] at hx
    simp only [zero_eq, mul, le_finite]
    positivity
  | posInf => simp [zero_eq, mul, infinityOf, hp, le]
  | negInf => simp [le] at hx
  | nan => simp at hx

end Floating
