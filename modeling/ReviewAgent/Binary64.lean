import ReviewAgent.Floating
import ReviewAgent.Rounding

/-! Binary64: rounding to nearest with ties to even, and the shortest digits that read back. -/
namespace Binary64

open Rounding (halfEven toDigits lastDigit)

/-- The exponent of the last bit of a number: the 53rd one, or that of the least subnormal. -/
def exponent (x : ℚ) : ℤ := max (Int.log 2 |x| - 52) (-1074)

/-- The nearest float, ties to even, as if there were no greatest one. -/
def nearest (x : ℚ) : ℚ := halfEven (x / 2 ^ exponent x) * 2 ^ exponent x

/-- The float that a number is read as. -/
def ofRat (x : ℚ) : Floating :=
  if 2 ^ 1024 ≤ |nearest x| then if 0 < x then .posInf else .negInf else .finite (nearest x)

/-- The numbers of `n` significant digits around a number, the nearest one first. -/
def candidates (x : ℚ) (n : ℕ) : List ℚ :=
  [toDigits n x, ⌊x / lastDigit n x⌋ * lastDigit n x, (⌊x / lastDigit n x⌋ + 1) * lastDigit n x]

/-- What `repr` shows of a float of at least zero: the fewest digits that read back as it. -/
def shortest (x : ℚ) : ℚ :=
  (((List.range 17).flatMap fun n => candidates x (n + 1)).find? fun c => nearest c = x).getD x

section

variable {x y : ℚ} {m e : ℤ}

theorem two_zpow_pos (e : ℤ) : (0 : ℚ) < 2 ^ e := zpow_pos (by norm_num) e

/-- A multiple of a power of two at or above the last bit is a multiple of the last bit. -/
theorem mul_zpow_eq (he : exponent x ≤ e) :
    (m : ℚ) * 2 ^ e = ((m * 2 ^ (e - exponent x).toNat : ℤ) : ℚ) * 2 ^ exponent x := by
  have hsplit : (2 : ℚ) ^ e = 2 ^ (e - exponent x).toNat * 2 ^ exponent x := by
    rw [← zpow_natCast, ← zpow_add₀ (by norm_num)]
    congr 1
    omega
  rw [hsplit]
  push_cast
  ring

/-- Rounding does not pass a multiple of a power of two at or above the last bit. -/
theorem nearest_le (h : x ≤ m * 2 ^ e) (he : exponent x ≤ e) : nearest x ≤ m * 2 ^ e := by
  have hpos := two_zpow_pos (exponent x)
  rw [mul_zpow_eq he] at h ⊢
  have hround := Rounding.halfEven_le ((div_le_iff₀ hpos).mpr h)
  unfold nearest
  gcongr

theorem le_nearest (h : m * 2 ^ e ≤ x) (he : exponent x ≤ e) : m * 2 ^ e ≤ nearest x := by
  have hpos := two_zpow_pos (exponent x)
  rw [mul_zpow_eq he] at h ⊢
  have hround := Rounding.le_halfEven ((le_div_iff₀ hpos).mpr h)
  unfold nearest
  gcongr

/-- A multiple of a power of two at or above its last bit is a float. -/
theorem nearest_of_grid (hx : x = m * 2 ^ e) (he : exponent x ≤ e) : nearest x = x :=
  le_antisymm ((nearest_le hx.le he).trans hx.ge) (hx.le.trans (le_nearest hx.ge he))

@[simp] theorem nearest_zero : nearest 0 = 0 := by
  simp [nearest, Rounding.halfEven]

theorem nearest_nonneg (h : 0 ≤ x) : 0 ≤ nearest x := by
  simpa using @le_nearest x 0 (exponent x) (by simpa using h) le_rfl

theorem nearest_nonpos (h : x ≤ 0) : nearest x ≤ 0 := by
  simpa using @nearest_le x 0 (exponent x) (by simpa using h) le_rfl

theorem exponent_mono (hx : 0 < x) (h : x ≤ y) : exponent x ≤ exponent y := by
  have hlog : Int.log 2 |x| ≤ Int.log 2 |y| := by
    rw [abs_of_pos hx, abs_of_pos (hx.trans_le h)]
    exact Int.log_mono_right hx h
  unfold exponent
  omega

theorem nearest_mono (hx : 0 ≤ x) (h : x ≤ y) : nearest x ≤ nearest y := by
  rcases hx.eq_or_lt with rfl | hx
  · rw [nearest_zero]
    exact nearest_nonneg h
  · rcases (exponent_mono hx h).eq_or_lt with heq | hlt
    · have hpos := two_zpow_pos (exponent y)
      have hround := Rounding.halfEven_mono (div_le_div_of_nonneg_right h hpos.le)
      unfold nearest
      rw [heq]
      gcongr
    · -- a power of two stands between
      have hy := hx.trans_le h
      have hlog : exponent y = Int.log 2 y - 52 ∧ Int.log 2 x < Int.log 2 y := by
        unfold exponent at hlt ⊢
        rw [abs_of_pos hx] at hlt
        rw [abs_of_pos hy] at hlt ⊢
        omega
      have hbelow : x ≤ 2 ^ Int.log 2 y :=
        ((Int.lt_zpow_iff_log_lt (by norm_num) hx).mpr hlog.2).le
      have habove : (2 : ℚ) ^ Int.log 2 y ≤ y := Int.zpow_log_le_self (by norm_num) hy
      calc nearest x ≤ 2 ^ Int.log 2 y := by
            simpa using @nearest_le x 1 (Int.log 2 y) (by simpa using hbelow) (by omega)
        _ ≤ nearest y := by
            simpa using @le_nearest y 1 (Int.log 2 y) (by simpa using habove) (by omega)

@[simp] theorem nearest_one : nearest 1 = 1 := by
  apply @nearest_of_grid 1 1 0 (by norm_num)
  simp [exponent]

theorem lt_zpow_exponent (hx : 0 < x) : x < 2 ^ (exponent x + 53) := by
  have hlog : Int.log 2 x < exponent x + 53 := by
    unfold exponent
    rw [abs_of_pos hx]
    omega
  exact (Int.lt_zpow_iff_log_lt (by norm_num) hx).mpr hlog

/-- A float is its own nearest float. -/
theorem nearest_nearest (hx : 0 ≤ x) : nearest (nearest x) = nearest x := by
  rcases hx.eq_or_lt with rfl | hx
  · simp
  · rcases (nearest_nonneg hx.le).eq_or_lt with hzero | hpos
    · rw [← hzero, nearest_zero]
    · have htop : nearest x ≤ 2 ^ (exponent x + 53) := by
        simpa using @nearest_le x 1 (exponent x + 53) (by simpa using (lt_zpow_exponent hx).le)
          (by omega)
      rcases htop.eq_or_lt with heq | hlt
      · apply @nearest_of_grid _ 1 (exponent x + 53) (by simpa using heq)
        have hlog : Int.log 2 |nearest x| = exponent x + 53 := by
          rw [abs_of_pos hpos, heq]
          exact Int.log_zpow (by norm_num) _
        have hmin : -1074 ≤ exponent x := le_max_right _ _
        rw [exponent, hlog]
        omega
      · apply @nearest_of_grid (nearest x) (halfEven (x / 2 ^ exponent x)) (exponent x) rfl
        have hlog : Int.log 2 |nearest x| < exponent x + 53 := by
          rw [abs_of_pos hpos]
          exact (Int.lt_zpow_iff_log_lt (by norm_num) hpos).mp hlt
        have hmin : -1074 ≤ exponent x := le_max_right _ _
        rw [exponent]
        omega

theorem abs_nearest_sub_le (x : ℚ) : |nearest x - x| ≤ 2 ^ exponent x / 2 := by
  have hpos := two_zpow_pos (exponent x)
  have h := Rounding.abs_halfEven_sub_le (x / 2 ^ exponent x)
  have hx : nearest x - x =
      (halfEven (x / 2 ^ exponent x) - x / 2 ^ exponent x) * 2 ^ exponent x := by
    unfold nearest
    field_simp
  rw [hx, abs_mul, abs_of_pos hpos]
  calc |halfEven (x / 2 ^ exponent x) - x / 2 ^ exponent x| * 2 ^ exponent x
      ≤ 1 / 2 * 2 ^ exponent x := by gcongr
    _ = 2 ^ exponent x / 2 := by ring

/-- The last bit of a number of at most two. -/
theorem abs_nearest_sub_le_of_le_two (hx : 0 ≤ x) (h : x ≤ 2) : |nearest x - x| ≤ 2 ^ (-52 : ℤ) := by
  rcases hx.eq_or_lt with rfl | hx
  · simp
  · have hlog : Int.log 2 x ≤ 1 := by
      calc Int.log 2 x ≤ Int.log 2 (2 : ℚ) := Int.log_mono_right hx h
        _ = 1 := by simpa using Int.log_zpow (R := ℚ) (b := 2) (by norm_num) 1
    have hexponent : exponent x ≤ -51 := by
      rw [exponent, abs_of_pos hx]
      omega
    calc |nearest x - x| ≤ 2 ^ exponent x / 2 := abs_nearest_sub_le x
      _ ≤ 2 ^ (-51 : ℤ) / 2 := by
          gcongr
          norm_num
      _ = 2 ^ (-52 : ℤ) := by norm_num

/-- What is shown of a float is read back as it. -/
theorem nearest_shortest (h : nearest x = x) : nearest (shortest x) = x := by
  unfold shortest
  cases hfound : ((List.range 17).flatMap fun n => candidates x (n + 1)).find?
      fun c => nearest c = x with
  | none => exact h
  | some c => simpa using List.find?_some hfound

/-- Candidates of so few digits are whole ten-thousandths. -/
theorem candidate_eq {c : ℚ} {n : ℕ} (hn : n ≤ Int.log 10 x + 5) (hc : c ∈ candidates x n) :
    ∃ a : ℤ, c = a / 10000 := by
  obtain ⟨m, hm⟩ : ∃ m : ℤ, c = m * lastDigit n x := by
    simp only [candidates, List.mem_cons, List.not_mem_nil, or_false] at hc
    rcases hc with rfl | rfl | rfl
    · exact ⟨_, rfl⟩
    · exact ⟨_, rfl⟩
    · exact ⟨⌊x / lastDigit n x⌋ + 1, by push_cast; ring⟩
  obtain ⟨k, hk⟩ : ∃ k : ℕ, Int.log 10 x - n + 1 = k - 4 :=
    ⟨(Int.log 10 x - n + 5).toNat, by omega⟩
  refine ⟨m * 10 ^ k, ?_⟩
  rw [hm, lastDigit, hk, zpow_sub₀ (by norm_num), zpow_natCast]
  push_cast
  ring

/-- A candidate is at most one place of its last digit away. -/
theorem candidate_bounds {c : ℚ} {n : ℕ} (hx : 0 ≤ x) (hc : c ∈ candidates x n) :
    0 ≤ c ∧ c ≤ x + lastDigit n x := by
  have hpos := Rounding.lastDigit_pos n x
  have hquot : 0 ≤ x / lastDigit n x := by positivity
  have hfloor : (0 : ℚ) ≤ ⌊x / lastDigit n x⌋ := by exact_mod_cast Int.floor_nonneg.mpr hquot
  have hlow : ⌊x / lastDigit n x⌋ * lastDigit n x ≤ x :=
    (le_div_iff₀ hpos).mp (Int.floor_le _)
  have hround := Rounding.halfEven_le_floor (x / lastDigit n x)
  simp only [candidates, List.mem_cons, List.not_mem_nil, or_false] at hc
  rcases hc with rfl | rfl | rfl
  · refine ⟨Rounding.toDigits_nonneg hx, ?_⟩
    have hcast : (halfEven (x / lastDigit n x) : ℚ) ≤ ⌊x / lastDigit n x⌋ + 1 := by
      exact_mod_cast hround
    calc toDigits n x ≤ (⌊x / lastDigit n x⌋ + 1) * lastDigit n x := by
          unfold toDigits
          gcongr
      _ ≤ x + lastDigit n x := by linarith
  · exact ⟨by positivity, by linarith⟩
  · exact ⟨by positivity, by linarith⟩

/-- A two-thousandth between zero and one is shown as it is. -/
theorem shortest_nearest {j : ℕ} (hj : 1 ≤ j) (hj' : j ≤ 2000) :
    shortest (nearest (j / 2000)) = j / 2000 := by
  have hj1 : (1 : ℚ) ≤ j := by exact_mod_cast hj
  have hj2 : (j : ℚ) ≤ 2000 := by exact_mod_cast hj'
  set t : ℚ := j / 2000 with ht
  set x := nearest t with hx
  have ht0 : 1 / 2000 ≤ t := by rw [ht]; linarith
  have ht1 : t ≤ 1 := by rw [ht]; linarith
  have hsmall : (2 : ℚ) ^ (-52 : ℤ) ≤ 1 / 100000 := by norm_num
  have hclose := abs_le.mp ((abs_nearest_sub_le_of_le_two (by linarith) (by linarith : t ≤ 2)).trans
    hsmall)
  have hx0 : 1 / 10000 ≤ x := by linarith
  have hx1 : x ≤ 1 := by
    rw [hx, ← nearest_one]
    exact nearest_mono (by linarith) ht1
  have hlow : -4 ≤ Int.log 10 x := by
    rw [← Int.zpow_le_iff_le_log (by norm_num) (by linarith)]
    norm_num
    linarith
  have hhigh : Int.log 10 x ≤ 0 := by
    calc Int.log 10 x ≤ Int.log 10 (1 : ℚ) := Int.log_mono_right (by linarith) hx1
      _ = 0 := by simp
  -- among the candidates of so few digits, no other one reads back as the float
  have honly : ∀ (n : ℕ) (c : ℚ), 1 ≤ n → n ≤ Int.log 10 x + 5 → c ∈ candidates x n →
      nearest c = x → c = t := by
    intro n c hn hn' hc hback
    obtain ⟨a, rfl⟩ := candidate_eq hn' hc
    have hbounds := candidate_bounds (by linarith) hc
    have hdigit : lastDigit n x ≤ 1 := by
      unfold lastDigit
      exact zpow_le_one_of_nonpos₀ (by norm_num) (by omega)
    have hnear := abs_le.mp ((abs_nearest_sub_le_of_le_two hbounds.1 (by linarith)).trans hsmall)
    rw [hback] at hnear
    have hlt : |(a : ℚ) - 5 * j| < 1 := by
      rw [abs_lt]
      constructor <;> linarith
    have hint : |a - 5 * (j : ℤ)| < 1 := by exact_mod_cast hlt
    have ha : a = 5 * (j : ℤ) := sub_eq_zero.mp (Int.abs_lt_one_iff.mp hint)
    rw [ht, ha]
    push_cast
    ring
  -- with all of those digits the two-thousandth itself is the first candidate
  obtain ⟨n, hn⟩ : ∃ n : ℕ, (n : ℤ) = Int.log 10 x + 4 := ⟨_, Int.toNat_of_nonneg (by omega)⟩
  have hdigit : lastDigit (n + 1) x = 1 / 10000 := by
    have hlast : Int.log 10 x - (n + 1 : ℕ) + 1 = -4 := by
      push_cast
      omega
    rw [lastDigit, hlast]
    norm_num
  have hdigits : toDigits (n + 1) x = t := by
    have hround : halfEven (x / (1 / 10000)) = 5 * (j : ℤ) := by
      apply Rounding.halfEven_eq_of_close
      push_cast
      rw [abs_lt]
      constructor <;> linarith
    rw [toDigits, hdigit, hround, ht]
    push_cast
    ring
  let first := (List.range (n + 1)).flatMap fun n => candidates x (n + 1)
  have hfound : (first.find? fun c => nearest c = x).isSome := by
    rw [List.find?_isSome]
    refine ⟨t, List.mem_flatMap.mpr ⟨n, List.self_mem_range_succ, ?_⟩, by simp [hx]⟩
    rw [← hdigits]
    exact List.mem_cons_self
  obtain ⟨c, hc⟩ := Option.isSome_iff_exists.mp hfound
  obtain ⟨k, hk, hmem⟩ := List.mem_flatMap.mp (List.mem_of_find?_eq_some hc)
  have hct : c = t := by
    apply honly (k + 1) c (by omega) _ hmem (by simpa using List.find?_some hc)
    have := List.mem_range.mp hk
    omega
  obtain ⟨b, hb⟩ : ∃ b, 17 = n + 1 + b := ⟨16 - n, by omega⟩
  rw [shortest, hb, List.range_add, List.flatMap_append, List.find?_append]
  change ((first.find? fun c => nearest c = x).or _).getD x = t
  rw [hc, Option.some_or, Option.getD_some, hct]

theorem shortest_nonneg (hx : 0 ≤ x) : 0 ≤ shortest x := by
  unfold shortest
  cases hfound : ((List.range 17).flatMap fun n => candidates x (n + 1)).find?
      fun c => nearest c = x with
  | none => exact hx
  | some c =>
    obtain ⟨n, -, hc⟩ := List.mem_flatMap.mp (List.mem_of_find?_eq_some hfound)
    exact (candidate_bounds hx hc).1

/-- What is shown of a number reaches a two-thousandth if its float does. -/
theorem le_shortest_iff (hx : 0 ≤ x) {j : ℕ} (hj : 1 ≤ j) (hj' : j ≤ 2000) :
    j / 2000 ≤ shortest (nearest x) ↔ nearest (j / 2000) ≤ nearest x := by
  have hback := nearest_shortest (nearest_nearest hx)
  have hshown := shortest_nonneg (nearest_nonneg hx)
  constructor
  · intro h
    calc nearest (j / 2000) ≤ nearest (shortest (nearest x)) := nearest_mono (by positivity) h
      _ = nearest x := hback
  · intro h
    by_contra hbelow
    have hle : nearest x ≤ nearest (j / 2000) := by
      calc nearest x = nearest (shortest (nearest x)) := hback.symm
        _ ≤ nearest (j / 2000) := nearest_mono hshown (not_le.mp hbelow).le
    rw [le_antisymm hle h, shortest_nearest hj hj'] at hbelow
    exact hbelow le_rfl

theorem shortest_one : shortest 1 = 1 := by
  have hone := @shortest_nearest 2000 (by norm_num) le_rfl
  norm_num at hone
  exact hone

/-- A float of at most one is shown as a number of at most one. -/
theorem shortest_le_one (hx : 0 ≤ x) (h : x ≤ 1) : shortest x ≤ 1 := by
  rcases h.eq_or_lt with rfl | hlt
  · exact shortest_one.le
  · by_contra habove
    have hbound := not_le.mp habove
    unfold shortest at hbound
    cases hfound : ((List.range 17).flatMap fun n => candidates x (n + 1)).find?
        fun c => nearest c = x with
    | none =>
      rw [hfound, Option.getD_none] at hbound
      linarith
    | some c =>
      rw [hfound, Option.getD_some] at hbound
      have hback : nearest c = x := by simpa using List.find?_some hfound
      have hle := nearest_mono zero_le_one hbound.le
      rw [nearest_one, hback] at hle
      linarith

theorem nearest_pos {j : ℕ} (hj : 1 ≤ j) (hj' : j ≤ 2000) : 0 < nearest (j / 2000) := by
  have hj1 : (1 : ℚ) ≤ j := by exact_mod_cast hj
  have hj2 : (j : ℚ) ≤ 2000 := by exact_mod_cast hj'
  have hsmall : (2 : ℚ) ^ (-52 : ℤ) ≤ 1 / 100000 := by norm_num
  have hclose := abs_nearest_sub_le_of_le_two (by positivity : (0 : ℚ) ≤ j / 2000) (by linarith)
  have hlow := (abs_le.mp (hclose.trans hsmall)).1
  linarith

end

end Binary64
