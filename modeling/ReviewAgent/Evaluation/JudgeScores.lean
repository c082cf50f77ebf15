import ReviewAgent.Evaluation.Judge

/-! Which answers of the judge are scored by a number they give. -/
namespace ReviewAgent

open Binary64 (nearest shortest)
open Json (Text Value points)
open Rounding (toPlaces)

/-- A number below a tie of thousandths whose float is that of the tie. -/
def RoundsUp (q : ℚ) : Prop :=
  ∃ k < 1000, q < (2 * k + 1 : ℕ) / 2000 ∧ nearest q = nearest ((2 * k + 1 : ℕ) / 2000)

/-- The finite number that a score is given as. -/
inductive IsNumber : Value → ℚ → Prop where
  | int {n : ℤ} (h : |nearest n| < 2 ^ 1024) : IsNumber (.int n) n
  | float {literal : Text} {q : ℚ} (h : numeral? literal = some (.number q)) :
    IsNumber (.float literal) q
  | str {text : Text} {q : ℚ} (h : numeral? text = some (.number q))
    (hfinite : |nearest q| < 2 ^ 1024) : IsNumber (.str text) q

theorem isNumber_float {literal : Text} {q : ℚ} :
    IsNumber (.float literal) q ↔ numeral? literal = some (.number q) := by
  constructor
  · intro h
    cases h with
    | float h => exact h
  · exact .float

theorem isNumber_str {text : Text} {q : ℚ} :
    IsNumber (.str text) q ↔ numeral? text = some (.number q) ∧ |nearest q| < 2 ^ 1024 := by
  constructor
  · intro h
    cases h with
    | str h hfinite => exact ⟨h, hfinite⟩
  · rintro ⟨h, hfinite⟩
    exact .str h hfinite

/-- A verdict that explains itself, and whose score is the rounding of a number in the answer. -/
structure Warranted (py : Interpreter) (rawText : Text) (verdict : JudgeVerdict) : Prop where
  explained : verdict.rationale ≠ []
  score_nonneg : 0 ≤ verdict.score
  score_le : verdict.score ≤ 1000
  given : ∃ members q, Json.loads py.limits (stripCodeFence rawText) = .ok (.object members) ∧
    IsNumber (getMember "score" members) q ∧ verdict.score = toPlaces 3 (max 0 (min 1 q))

/-- The answer gets a warranted verdict, or is refused with a `JudgeParseError`. -/
def FairlyJudged (py : Interpreter) (rawText : Text) : Prop :=
  match parseJudgeResponse py rawText with
  | .ok verdict => Warranted py rawText verdict
  | .error e => e.cls = judgeParseError

/-- A score that is no boolean and no word, and a number within the floats and not too close to a
tie above it. -/
def Scorable : Value → Prop
  | .bool _ => False
  | .int n => |nearest n| < 2 ^ 1024
  | .float literal => ∀ numeral, numeral? literal = some numeral →
      ∃ q, numeral = .number q ∧ ¬RoundsUp q
  | .str text => ∀ numeral, numeral? text = some numeral →
      ∃ q, numeral = .number q ∧ |nearest q| < 2 ^ 1024 ∧ ¬RoundsUp q
  | _ => True

/-- The decoder refuses the answer by its syntax alone, and an explained score is scorable. -/
def Judgeable (py : Interpreter) (rawText : Text) : Prop :=
  match Json.loads py.limits (stripCodeFence rawText) with
  | .error failure => failure = .syntaxError
  | .ok (.object members) => ∀ rationale, getMember "rationale" members = .str rationale →
      strip rationale ≠ [] → Scorable (getMember "score" members)
  | .ok _ => True

section

variable {q c x : ℚ} {k : ℕ}

theorem lt_toPlaces_iff : (k : ℤ) < toPlaces 3 x ↔ (2 * k + 1 : ℕ) / 2000 ≤ x := by
  have hcast : (k : ℤ) < toPlaces 3 x ↔ ((k + 1 : ℤ) : ℚ) ≤ 10 ^ 3 * x + 1 / 2 := by
    rw [← Int.le_floor]
    exact Int.add_one_le_iff.symm
  rw [hcast]
  push_cast
  constructor <;> intro h <;> linarith

theorem toPlaces_bounds (hx : 0 ≤ x) (h : x ≤ 1) : 0 ≤ toPlaces 3 x ∧ toPlaces 3 x ≤ 1000 := by
  constructor
  · exact Int.floor_nonneg.mpr (by positivity)
  · have hlt : toPlaces 3 x < 1001 := Int.floor_lt.mpr (by push_cast; linarith)
    omega

theorem one_le_nearest (h : 1 ≤ q) : 1 ≤ nearest q := by
  rw [← Binary64.nearest_one]
  exact Binary64.nearest_mono zero_le_one h

theorem nearest_le_one (h : q ≤ 1) : nearest q ≤ 1 := by
  rcases le_total q 0 with hneg | hq
  · exact (Binary64.nearest_nonpos hneg).trans zero_le_one
  · rw [← Binary64.nearest_one]
    exact Binary64.nearest_mono hq h

/-- A number is rounded as it is written, unless its float is a tie above it. -/
theorem toPlaces_shortest_iff (hc : 0 ≤ c) (h : c ≤ 1) :
    toPlaces 3 (shortest (nearest c)) = toPlaces 3 c ↔ ¬RoundsUp c := by
  have hfloat : 0 ≤ nearest c := Binary64.nearest_nonneg hc
  have hfloat' : nearest c ≤ 1 := nearest_le_one h
  have hcs := toPlaces_bounds hc h
  have hss := toPlaces_bounds (Binary64.shortest_nonneg hfloat)
    (Binary64.shortest_le_one hfloat hfloat')
  constructor
  · rintro heq ⟨k, hk, hlt, hnear⟩
    have hreach := (Binary64.le_shortest_iff hc (by omega) (by omega)).mpr hnear.ge
    have hshown := lt_toPlaces_iff.mpr hreach
    rw [heq] at hshown
    exact absurd (lt_toPlaces_iff.mp hshown) (not_le.mpr hlt)
  · intro hnot
    rcases lt_trichotomy (toPlaces 3 (shortest (nearest c))) (toPlaces 3 c) with hlt | heq | hgt
    · obtain ⟨k, hk⟩ := Int.eq_ofNat_of_zero_le hss.1
      rw [hk] at hlt
      have hnear := Binary64.nearest_mono (by positivity) (lt_toPlaces_iff.mp hlt)
      have hreach := (Binary64.le_shortest_iff hc (by omega) (by omega)).mpr hnear
      have := lt_toPlaces_iff.mpr hreach
      omega
    · exact heq
    · obtain ⟨k, hk⟩ := Int.eq_ofNat_of_zero_le hcs.1
      have hbelow : c < (2 * k + 1 : ℕ) / 2000 := by
        rw [← not_le, ← lt_toPlaces_iff]
        omega
      rw [hk] at hgt
      have hnear := (Binary64.le_shortest_iff hc (by omega) (by omega)).mp (lt_toPlaces_iff.mp hgt)
      exact absurd ⟨k, by omega, hbelow,
        le_antisymm (Binary64.nearest_mono hc hbelow.le) hnear⟩ hnot

/-- The numbers outside the bounds are not near a tie. -/
theorem roundsUp_clamp : RoundsUp (max 0 (min 1 q)) ↔ RoundsUp q := by
  unfold RoundsUp
  refine exists_congr fun k => and_congr_right fun hk => ?_
  have htie : ((2 * k + 1 : ℕ) : ℚ) / 2000 ≤ 1 := by
    rw [div_le_one (by norm_num)]
    exact_mod_cast (by omega : 2 * k + 1 ≤ 2000)
  have hpos := Binary64.nearest_pos (j := 2 * k + 1) (by omega) (by omega)
  rcases le_total q 0 with hneg | hq
  · rw [min_eq_right (hneg.trans zero_le_one), max_eq_left hneg, Binary64.nearest_zero]
    have hround := Binary64.nearest_nonpos hneg
    constructor
    · rintro ⟨-, h⟩
      exact absurd h hpos.ne
    · rintro ⟨-, h⟩
      exact absurd h (hround.trans_lt hpos).ne
  · rcases le_total q 1 with hone | hlarge
    · rw [min_eq_right hone, max_eq_right hq]
    · rw [min_eq_left hlarge, max_eq_right zero_le_one]
      constructor
      · rintro ⟨h, -⟩
        exact absurd htie (not_le.mpr h)
      · rintro ⟨h, -⟩
        exact absurd (htie.trans hlarge) (not_le.mpr h)

/-- Clamping leaves a number of any float. -/
theorem clamp_finite (value : Floating) : ∃ b, 0 ≤ b ∧ b ≤ 1 ∧
    Floating.max 0 (Floating.min (.finite 1) value) = .finite b := by
  rw [Floating.zero_eq]
  cases value with
  | finite v =>
    refine ⟨max 0 (min 1 v), le_max_left _ _, max_le zero_le_one (min_le_left _ _), ?_⟩
    rw [Floating.min_finite, Floating.max_finite]
  | posInf => exact ⟨1, zero_le_one, le_rfl, by decide⟩
  | negInf => exact ⟨0, le_rfl, zero_le_one, by decide⟩
  | nan => exact ⟨1, zero_le_one, le_rfl, by decide⟩

theorem nearest_clamp (q : ℚ) : max 0 (min 1 (nearest q)) = nearest (max 0 (min 1 q)) := by
  rcases le_total q 0 with hneg | hq
  · have hround := Binary64.nearest_nonpos hneg
    rw [min_eq_right (hneg.trans zero_le_one), max_eq_left hneg, Binary64.nearest_zero,
      min_eq_right (hround.trans zero_le_one), max_eq_left hround]
  · rcases le_total q 1 with hone | hlarge
    · rw [min_eq_right hone, max_eq_right hq, min_eq_right (nearest_le_one hone),
        max_eq_right (Binary64.nearest_nonneg hq)]
    · rw [min_eq_left hlarge, min_eq_left (one_le_nearest hlarge), max_eq_right zero_le_one,
        Binary64.nearest_one]

/-- The float of a number is clamped to the float of the clamped number. -/
theorem clamp_ofRat (q : ℚ) : Floating.max 0 (Floating.min (.finite 1) (Binary64.ofRat q)) =
    .finite (nearest (max 0 (min 1 q))) := by
  unfold Binary64.ofRat
  split
  · rename_i hover
    split
    · rename_i hpos
      have hlarge : 1 ≤ q := by
        by_contra hsmall
        have hle := nearest_le_one (not_le.mp hsmall).le
        rw [abs_of_nonneg (Binary64.nearest_nonneg hpos.le)] at hover
        exact absurd (hover.trans hle) (not_le.mpr (one_lt_pow₀ (by norm_num) (by norm_num)))
      rw [min_eq_left hlarge, max_eq_right zero_le_one, Binary64.nearest_one]
      decide
    · rename_i hneg
      have hneg := not_lt.mp hneg
      rw [min_eq_right (hneg.trans zero_le_one), max_eq_left hneg, Binary64.nearest_zero]
      decide
  · rw [Floating.zero_eq, Floating.min_finite, Floating.max_finite, nearest_clamp]

/-- No quantized score is too long for the context. -/
theorem clampScore_eq {value : Floating} {b : ℚ}
    (h : Floating.max 0 (Floating.min (.finite 1) value) = .finite b) (hb : 0 ≤ b) (hb' : b ≤ 1) :
    clampScore value = .ok (toPlaces 3 (shortest b)) := by
  have hbounds := toPlaces_bounds (Binary64.shortest_nonneg hb) (Binary64.shortest_le_one hb hb')
  have hsmall : |toPlaces 3 (shortest b)| < 10 ^ contextPrecision := by
    rw [abs_of_nonneg hbounds.1]
    calc toPlaces 3 (shortest b) ≤ 1000 := hbounds.2
      _ < 10 ^ contextPrecision := by norm_num [contextPrecision]
  rw [clampScore, h]
  simp only
  rw [if_neg (not_le.mpr hsmall)]

theorem clampScore_ok (value : Floating) :
    ∃ score, clampScore value = .ok score ∧ 0 ≤ score ∧ score ≤ 1000 := by
  obtain ⟨b, hb, hb', h⟩ := clamp_finite value
  exact ⟨_, clampScore_eq h hb hb',
    toPlaces_bounds (Binary64.shortest_nonneg hb) (Binary64.shortest_le_one hb hb')⟩

theorem clampScore_ofRat (q : ℚ) :
    clampScore (Binary64.ofRat q) = .ok (toPlaces 3 (shortest (nearest (max 0 (min 1 q))))) := by
  have hclamp := clamp_ofRat q
  obtain ⟨b, hb, hb', h⟩ := clamp_finite (Binary64.ofRat q)
  have heq : b = nearest (max 0 (min 1 q)) := by
    rw [h] at hclamp
    exact Floating.finite.inj hclamp
  rw [clampScore_eq h hb hb', heq]

/-- A number gets the score it is written as unless it rounds up to a tie. -/
theorem score_eq_iff (q : ℚ) : toPlaces 3 (shortest (nearest (max 0 (min 1 q)))) =
    toPlaces 3 (max 0 (min 1 q)) ↔ ¬RoundsUp q := by
  rw [toPlaces_shortest_iff (le_max_left _ _) (max_le zero_le_one (min_le_left _ _)),
    roundsUp_clamp]

/-- A whole number is not below a tie unless it is below zero. -/
theorem not_roundsUp_int (n : ℤ) : ¬RoundsUp n := by
  rintro ⟨k, hk, hlt, hnear⟩
  have hpos := Binary64.nearest_pos (j := 2 * k + 1) (by omega) (by omega)
  have htie : ((2 * k + 1 : ℕ) : ℚ) / 2000 < 1 := by
    rw [div_lt_one (by norm_num)]
    exact_mod_cast (by omega : 2 * k + 1 < 2000)
  have hsmall : n < 1 := by exact_mod_cast hlt.trans htie
  have hneg : (n : ℚ) ≤ 0 := by exact_mod_cast (by omega : n ≤ 0)
  have := Binary64.nearest_nonpos hneg
  linarith

/-- Fifteen decimal places are too few to come that close to a tie. -/
theorem not_roundsUp_of_places (m : ℤ) : ¬RoundsUp (m / 10 ^ 15) := by
  rintro ⟨k, hk, hlt, hnear⟩
  have hpos := Binary64.nearest_pos (j := 2 * k + 1) (by omega) (by omega)
  have hq : (0 : ℚ) ≤ m / 10 ^ 15 := by
    by_contra hneg
    have hround := Binary64.nearest_nonpos (not_le.mp hneg).le
    rw [hnear] at hround
    linarith
  have htie : ((2 * k + 1 : ℕ) : ℚ) / 2000 ≤ 1 := by
    rw [div_le_one (by norm_num)]
    exact_mod_cast (by omega : 2 * k + 1 ≤ 2000)
  have hsmall : (2 : ℚ) ^ (-52 : ℤ) < 1 / (2 * 10 ^ 15) := by norm_num
  have hbelow := abs_le.mp (Binary64.abs_nearest_sub_le_of_le_two hq (by linarith))
  have habove := abs_le.mp (Binary64.abs_nearest_sub_le_of_le_two
    (by positivity : (0 : ℚ) ≤ (2 * k + 1 : ℕ) / 2000) (by linarith))
  rw [hnear] at hbelow
  -- the two are less than one unit of the fifteenth place apart
  have hclose : ((2 * k + 1 : ℕ) : ℚ) / 2000 - m / 10 ^ 15 < 1 / 10 ^ 15 := by
    calc ((2 * k + 1 : ℕ) : ℚ) / 2000 - m / 10 ^ 15 ≤ 2 * 2 ^ (-52 : ℤ) := by linarith
      _ < 2 * (1 / (2 * 10 ^ 15)) := by linarith
      _ = 1 / 10 ^ 15 := by norm_num
  have hunits : ((5 * 10 ^ 11 * (2 * k + 1 : ℕ) : ℤ) : ℚ) = 10 ^ 15 * ((2 * k + 1 : ℕ) / 2000) := by
    push_cast
    ring
  have hlow : m < 5 * 10 ^ 11 * (2 * k + 1 : ℕ) := by
    rw [← Int.cast_lt (R := ℚ), hunits]
    linarith
  have hhigh : 5 * 10 ^ 11 * (2 * k + 1 : ℕ) < m + 1 := by
    rw [← Int.cast_lt (R := ℚ), hunits]
    push_cast at hclose ⊢
    linarith
  omega

end

section

variable {py : Interpreter} {rawText : Text}

/-- The score of a value is the rounding of its number, or its error is caught. -/
def ScoredAsGiven (py : Interpreter) (value : Value) : Prop :=
  match floatOf py value >>= clampScore with
  | .ok score => ∃ q, IsNumber value q ∧ score = toPlaces 3 (max 0 (min 1 q))
  | .error e => e.isInstanceOfAny scoreErrors = true

theorem scoredAsGiven_of_number {value : Value} {q : ℚ}
    (hfloat : floatOf py value = .ok (Binary64.ofRat q))
    (hnumber : ∀ r, IsNumber value r ↔ r = q) : ScoredAsGiven py value ↔ ¬RoundsUp q := by
  have hscore : floatOf py value >>= clampScore =
      .ok (toPlaces 3 (shortest (nearest (max 0 (min 1 q))))) := by
    rw [hfloat]
    exact clampScore_ofRat q
  rw [ScoredAsGiven, hscore, ← score_eq_iff]
  simp [hnumber]

theorem not_scoredAsGiven {value : Value} {x : Floating} (hfloat : floatOf py value = .ok x)
    (hnumber : ∀ q, ¬IsNumber value q) : ¬ScoredAsGiven py value := by
  obtain ⟨score, hscore, -⟩ := clampScore_ok x
  have hbind : floatOf py value >>= clampScore = .ok score := by
    rw [hfloat]
    exact hscore
  rw [ScoredAsGiven, hbind]
  rintro ⟨q, hq, -⟩
  exact hnumber q hq

theorem scoredAsGiven_of_error {value : Value} {e : Exc} (hfloat : floatOf py value = .error e) :
    ScoredAsGiven py value ↔ e.isInstanceOfAny scoreErrors = true := by
  have hbind : floatOf py value >>= clampScore = .error e := by
    rw [hfloat]
    rfl
  rw [ScoredAsGiven, hbind]

theorem ofRat_of_lt {q : ℚ} (h : |nearest q| < 2 ^ 1024) :
    Binary64.ofRat q = .finite (nearest q) := if_neg (not_le.mpr h)

theorem floatOfText_some {text : Text} {numeral : Numeral} (h : numeral? text = some numeral) :
    floatOfText py text = .ok numeral.toFloat := by
  rw [floatOfText, h]

theorem floatOfText_none (py : Interpreter) {text : Text} (h : numeral? text = none) :
    ∃ e, floatOfText py text = .error e ∧ e.isInstanceOfAny scoreErrors = true := by
  rw [floatOfText, h]
  exact ⟨_, rfl, rfl⟩

theorem scoredAsGiven_iff (value : Value) : ScoredAsGiven py value ↔ Scorable value := by
  cases value with
  | null => exact (scoredAsGiven_of_error rfl).trans (iff_of_true rfl trivial)
  | array items => exact (scoredAsGiven_of_error rfl).trans (iff_of_true rfl trivial)
  | object members => exact (scoredAsGiven_of_error rfl).trans (iff_of_true rfl trivial)
  | bool b => exact iff_of_false (not_scoredAsGiven rfl fun q h => by cases h) id
  | int n =>
    by_cases h : |nearest n| < 2 ^ 1024
    · have hfloat : floatOf py (.int n) = .ok (Binary64.ofRat n) := by
        rw [floatOf, if_neg (not_le.mpr h), ofRat_of_lt h]
      have hnumber : ∀ r, IsNumber (.int n) r ↔ r = n := by
        intro r
        constructor
        · rintro ⟨-⟩
          rfl
        · rintro rfl
          exact .int h
      exact (scoredAsGiven_of_number hfloat hnumber).trans (iff_of_true (not_roundsUp_int n) h)
    · have hfloat : floatOf py (.int n) =
          .error (.plain .overflowError "int too large to convert to float") :=
        if_pos (not_lt.mp h)
      exact (scoredAsGiven_of_error hfloat).trans (iff_of_false (by decide) h)
  | float literal =>
    cases hn : numeral? literal with
    | none =>
      obtain ⟨e, herror, he⟩ := floatOfText_none py hn
      have hfloat : floatOf py (.float literal) = .error e := herror
      exact (scoredAsGiven_of_error hfloat).trans (iff_of_true he (by simp [Scorable, hn]))
    | some numeral =>
      have hfloat : floatOf py (.float literal) = .ok numeral.toFloat := floatOfText_some hn
      cases numeral with
      | word x =>
        apply iff_of_false
        · exact not_scoredAsGiven hfloat (by simp [isNumber_float, hn])
        · simp [Scorable, hn]
      | number q =>
        rw [scoredAsGiven_of_number hfloat (by simp [isNumber_float, hn, eq_comm])]
        simp [Scorable, hn]
  | str text =>
    cases hn : numeral? text with
    | none =>
      obtain ⟨e, herror, he⟩ := floatOfText_none py hn
      have hfloat : floatOf py (.str text) = .error e := herror
      exact (scoredAsGiven_of_error hfloat).trans (iff_of_true he (by simp [Scorable, hn]))
    | some numeral =>
      have hfloat : floatOf py (.str text) = .ok numeral.toFloat := floatOfText_some hn
      cases numeral with
      | word x =>
        apply iff_of_false
        · exact not_scoredAsGiven hfloat (by simp [isNumber_str, hn])
        · simp [Scorable, hn]
      | number q =>
        by_cases hfinite : |nearest q| < 2 ^ 1024
        · have hnumber : ∀ r, IsNumber (.str text) r ↔ r = q := by
            intro r
            rw [isNumber_str, hn]
            constructor
            · rintro ⟨h, -⟩
              simpa [eq_comm] using h
            · rintro rfl
              exact ⟨rfl, hfinite⟩
          rw [scoredAsGiven_of_number hfloat hnumber]
          simp [Scorable, hn, hfinite]
        · apply iff_of_false
          · apply not_scoredAsGiven hfloat
            intro r hr
            rw [isNumber_str, hn] at hr
            obtain rfl : q = r := by simpa using hr.1
            exact hfinite hr.2
          · simp [Scorable, hn, hfinite]

/-- Without a score or an explanation there is no verdict. -/
theorem verdictOf_missing {members : List (Text × Value)}
    (h : getMember "score" members = .null ∨
      ∀ rationale, getMember "rationale" members = .str rationale → strip rationale = []) :
    verdictOf py rawText members = .error (verdictOf.missing py rawText) := by
  unfold verdictOf
  split
  · rfl
  · rename_i rationale hrationale hscore
    rcases h with h | h
    · exact absurd h hscore
    · rw [h rationale hrationale]
      rfl
  · rfl

/-- A value with a rationale is judged by what it is converted to. -/
theorem verdictOf_explained {members : List (Text × Value)} {rationale : Text}
    (hscore : getMember "score" members ≠ .null)
    (hrationale : getMember "rationale" members = .str rationale) (hne : strip rationale ≠ []) :
    verdictOf py rawText members =
      match floatOf py (getMember "score" members) >>= clampScore with
      | .ok score => .ok ⟨score, strip rationale⟩
      | .error e =>
        if e.isInstanceOfAny scoreErrors then
          .error (.plain judgeParseError
            s!"judge response 'score' is not a number: {py.repr (.str rawText)}")
        else .error e := by
  unfold verdictOf
  split
  · contradiction
  · rename_i hstr _
    obtain rfl := Value.str.inj (hrationale.symm.trans hstr)
    exact if_neg (by simpa using hne)
  · rename_i hother
    exact (hother rationale hrationale).elim

theorem parseJudgeResponse_object {members : List (Text × Value)}
    (h : Json.loads py.limits (stripCodeFence rawText) = .ok (.object members)) :
    parseJudgeResponse py rawText = verdictOf py rawText members := by
  simp only [parseJudgeResponse, h]

theorem parseJudgeResponse_error {failure : Json.Failure}
    (h : Json.loads py.limits (stripCodeFence rawText) = .error failure) :
    ∃ e, parseJudgeResponse py rawText = .error e ∧
      (e.cls = judgeParseError ↔ failure = .syntaxError) := by
  simp only [parseJudgeResponse, h]
  cases failure with
  | syntaxError => exact ⟨_, rfl, iff_of_true rfl rfl⟩
  | integerTooLong digits =>
    exact ⟨_, rfl, iff_of_false (by simp [decoderError, judgeParseError]) (by simp)⟩
  | nestedTooDeep =>
    refine ⟨_, rfl, iff_of_false ?_ (by simp)⟩
    simp [decoderError, recursionError, judgeParseError]

/-- A conversion is bounded, or it fails as `float` does. -/
theorem converted_cases (py : Interpreter) (value : Value) :
    (∃ score, floatOf py value >>= clampScore = .ok score ∧ 0 ≤ score ∧ score ≤ 1000) ∨
      ∃ e, floatOf py value >>= clampScore = .error e ∧
        (e.isInstanceOfAny scoreErrors = true ∨ e.cls = .overflowError) := by
  cases hfloat : floatOf py value with
  | ok x => exact .inl (clampScore_ok x)
  | error e =>
    refine .inr ⟨e, rfl, ?_⟩
    unfold floatOf floatOfText at hfloat
    split at hfloat
    · cases hfloat
    · split at hfloat
      · cases hfloat
        exact .inr rfl
      · cases hfloat
    · split at hfloat
      · cases hfloat
      · cases hfloat
        exact .inl rfl
    · split at hfloat
      · cases hfloat
      · cases hfloat
        exact .inl rfl
    all_goals
      cases hfloat
      exact .inl rfl

/-- The verdict of an explained score is fair if the score is that of a number in the answer. -/
theorem fairVerdict_iff {members : List (Text × Value)} {rationale : Text}
    (hload : Json.loads py.limits (stripCodeFence rawText) = .ok (.object members))
    (hscore : getMember "score" members ≠ .null)
    (hrationale : getMember "rationale" members = .str rationale) (hne : strip rationale ≠ []) :
    FairlyJudged py rawText ↔ ScoredAsGiven py (getMember "score" members) := by
  rw [FairlyJudged, parseJudgeResponse_object hload, verdictOf_explained hscore hrationale hne,
    ScoredAsGiven]
  rcases converted_cases py (getMember "score" members) with
    ⟨score, hconverted, hnonneg, hle⟩ | ⟨e, hconverted, he⟩
  · rw [hconverted]
    constructor
    · rintro ⟨-, -, -, members', q, hload', hnumber, hq⟩
      cases hload.symm.trans hload'
      exact ⟨q, hnumber, hq⟩
    · rintro ⟨q, hnumber, hq⟩
      exact ⟨hne, hnonneg, hle, members, q, hload, hnumber, hq⟩
  · rw [hconverted]
    by_cases hcaught : e.isInstanceOfAny scoreErrors = true
    · simp only [hcaught, if_true]
      exact iff_of_true rfl trivial
    · simp only [hcaught]
      refine iff_of_false ?_ (by simp)
      change e.cls ≠ judgeParseError
      rw [he.resolve_left hcaught]
      simp [judgeParseError]

/-- Every answer that can be judged gets a fair verdict or a refusal, and no other answer does. -/
theorem fairlyJudged_iff (py : Interpreter) (rawText : Text) :
    FairlyJudged py rawText ↔ Judgeable py rawText := by
  unfold Judgeable
  cases hload : Json.loads py.limits (stripCodeFence rawText) with
  | error failure =>
    obtain ⟨e, he, hcls⟩ := parseJudgeResponse_error hload
    rw [FairlyJudged, he]
    exact hcls
  | ok payload =>
    cases payload with
    | object members =>
      simp only
      by_cases hscore : getMember "score" members = .null
      · rw [FairlyJudged, parseJudgeResponse_object hload, verdictOf_missing (.inl hscore), hscore]
        exact iff_of_true rfl fun _ _ _ => trivial
      · by_cases hexplained : ∃ rationale, getMember "rationale" members = .str rationale ∧
            strip rationale ≠ []
        · obtain ⟨rationale, hrationale, hne⟩ := hexplained
          rw [fairVerdict_iff hload hscore hrationale hne, scoredAsGiven_iff]
          exact ⟨fun h _ _ _ => h, fun h => h rationale hrationale hne⟩
        · have hmissing : ∀ rationale, getMember "rationale" members = .str rationale →
              strip rationale = [] := by
            intro rationale hrationale
            by_contra hne
            exact hexplained ⟨rationale, hrationale, hne⟩
          rw [FairlyJudged, parseJudgeResponse_object hload, verdictOf_missing (.inr hmissing)]
          exact iff_of_true rfl fun rationale hrationale hne =>
            absurd (hmissing rationale hrationale) hne
    | _ =>
      simp only [FairlyJudged, parseJudgeResponse, hload]
      exact iff_of_true rfl trivial

/-- The bounds let NaN through as the upper one. -/
theorem clampScore_nan : clampScore .nan = .ok 1000 := by
  rw [clampScore_eq (b := 1) (by decide) zero_le_one le_rfl, Binary64.shortest_one]
  norm_num [toPlaces]

/-- An explained answer that scores by no number gets the best score there is. -/
theorem parseJudgeResponse_nan {members : List (Text × Value)} {rationale : Text}
    (hload : Json.loads py.limits (stripCodeFence rawText) = .ok (.object members))
    (hscore : getMember "score" members = .float (points "NaN"))
    (hrationale : getMember "rationale" members = .str rationale) (hne : strip rationale ≠ []) :
    parseJudgeResponse py rawText = .ok ⟨1000, strip rationale⟩ := by
  have hnan : numeral? (points "NaN") = some (.word .nan) := rfl
  have hfloat : floatOfText py (points "NaN") = .ok .nan := floatOfText_some hnan
  have hconverted : floatOf py (.float (points "NaN")) >>= clampScore = .ok 1000 := by
    rw [floatOf, hfloat]
    exact clampScore_nan
  rw [parseJudgeResponse_object hload,
    verdictOf_explained (by rw [hscore]; simp) hrationale hne, hscore, hconverted]

/-- An answer that gives NaN for a score. -/
def unscored : Text := points "\x7b\"score\": NaN, \"rationale\": \"unsure\"\x7d"

theorem loads_unscored : Json.loads Interpreter.sample.limits (stripCodeFence unscored) =
    .ok (.object [(points "score", .float (points "NaN")),
      (points "rationale", .str (points "unsure"))]) := rfl

theorem unscored_unfair : parseJudgeResponse Interpreter.sample unscored =
    .ok ⟨1000, points "unsure"⟩ ∧ ¬FairlyJudged Interpreter.sample unscored := by
  have hverdict : parseJudgeResponse Interpreter.sample unscored = .ok ⟨1000, points "unsure"⟩ :=
    parseJudgeResponse_nan loads_unscored rfl rfl (by decide)
  refine ⟨hverdict, ?_⟩
  rw [FairlyJudged, hverdict]
  rintro ⟨-, -, -, members, q, hload, hnumber, -⟩
  cases loads_unscored.symm.trans hload
  have hword : numeral? (points "NaN") = some (.number q) := isNumber_float.mp hnumber
  cases hword

end

end ReviewAgent
