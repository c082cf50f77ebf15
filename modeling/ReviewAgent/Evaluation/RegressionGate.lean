import ReviewAgent.Economics.DailyCap
import ReviewAgent.Evaluation.JudgePrompt
import ReviewAgent.Evaluation.JudgeScores

/-! The regression gate: a judge scores the review of every golden case, and the mean decides. -/
namespace ReviewAgent

open Effects
open Json (Text points)

/-- A text without surrogates as a string. -/
def stringOf (text : Text) : String := String.ofList (text.map Char.ofNat)

/-- `_JUDGE_SYSTEM_PROMPT`. -/
def judgeSystemPrompt : String :=
  "You are an impartial code-review quality judge for an automated PR-review system. " ++
    "You will be given ONE golden test case (a diff, a description, and a list of " ++
    "expected findings a correct review should surface) and the findings a candidate " ++
    "review actually produced for that same diff. Score how well the candidate review " ++
    "matches the expectations.\n" ++
    "\n" ++
    "Scoring rubric (produce a single float in [0.0, 1.0]):\n" ++
    "- Every expected finding marked \"must_detect: true\" that the candidate " ++
    "substantively caught (same class of issue, correct file, severity at least as high " ++
    "as expected) contributes strongly to the score. Missing even one must-detect " ++
    "finding is a serious defect -- score no higher than 0.4 if any must-detect finding " ++
    "was missed entirely.\n" ++
    "- Expected findings marked \"must_detect: false\" are nice-to-catch: reward " ++
    "catching them, but do not penalize heavily for missing them.\n" ++
    "- If \"expected_clean\" is true, the diff has no real issues. A candidate with no " ++
    "CRITICAL/HIGH findings scores near 1.0; a candidate that fabricates a CRITICAL/HIGH " ++
    "finding not grounded in the diff scores low (hallucination is exactly what this " ++
    "case exists to catch).\n" ++
    "- A candidate that reports a finding on the wrong file, or with a wildly inflated " ++
    "severity, should score lower than one that reports it correctly.\n" ++
    "- Extra, well-grounded findings beyond what was expected are neutral to mildly " ++
    "positive -- do not penalize thoroughness.\n" ++
    "\n" ++
    "Respond with STRICTLY ONE JSON object and nothing else, on a single line or " ++
    "pretty-printed, in exactly this shape:\n" ++
    "\x7b\"score\": <float 0.0-1.0>, \"rationale\": \"<one or two sentences explaining " ++
    "the score>\"\x7d\n"

/-- `JudgeProtocol`: how a judge scores the review of a case, as a program over some signature. -/
abbrev JudgeProtocol (S : Signature) : Type := GoldenCase → Review → Program S Exc JudgeVerdict

/-- The call that `AnthropicJudge.score_review` makes of its client. -/
def scoringCall (base : Settings) (case : GoldenCase) (review : Review) : LlmCall :=
  judgeCall base judgeSystemPrompt (stringOf (buildJudgePrompt case review))

/-- `AnthropicJudge.score_review`, with the client of `judge_settings`. -/
def anthropicJudge (py : Interpreter) (base : Settings) : JudgeProtocol OrchestratorSignature :=
  fun case review => do
    let response ← (scoringCall base case review).complete
    Program.ofExcept (parseJudgeResponse py (points response.text))

/-- `REGRESSION_GATE_THRESHOLD`. -/
def regressionGateThreshold : ℚ := 7 / 10

structure CaseVerdict where
  case : GoldenCase
  verdict : JudgeVerdict

/-- The mean score is in thousandths. -/
structure RegressionGateResult where
  caseVerdicts : List CaseVerdict
  meanScore : ℤ
  threshold : ℚ
  passed : Bool

/-- `sum(..., start=Decimal("0"))`, each addition rounded to the context's precision. -/
def totalScore (caseVerdicts : List CaseVerdict) : ℚ :=
  caseVerdicts.foldl
    (fun total cv => Rounding.toDigits contextPrecision (total + cv.verdict.score / 1000)) 0

/-- What the division of zero by the number of no cases raises. -/
def divisionUndefined : Exc := .plain invalidOperation.cls "[<class 'decimal.DivisionUndefined'>]"

/-- The mean, quantized to three places. -/
def meanScore (caseVerdicts : List CaseVerdict) : Except Exc ℤ :=
  if caseVerdicts.isEmpty then .error divisionUndefined
  else
    let mean := Rounding.toDigits contextPrecision (totalScore caseVerdicts / caseVerdicts.length)
    let quantized := Rounding.toPlaces 3 mean
    if 10 ^ contextPrecision ≤ |quantized| then .error invalidOperation else .ok quantized

/-- The result of a gate whose cases are judged. -/
def gateResult (threshold : ℚ) (caseVerdicts : List CaseVerdict) :
    Except Exc RegressionGateResult := do
  let meanScore ← meanScore caseVerdicts
  pure { caseVerdicts, meanScore, threshold, passed := decide (threshold ≤ meanScore / 1000) }

section

variable {S : Signature} (py : Interpreter) (judge : JudgeProtocol S)
  (reviewsByCaseId : String → Option Review)

/-- `MissingReviewForCaseError`. -/
def missingReviewForCase (case : GoldenCase) : Exc :=
  .plain (.other "MissingReviewForCaseError" .exception)
    s!"no produced review supplied for golden case {py.repr (.str (points case.caseId))}"

/-- The loop over the cases. -/
def judgeCases : List GoldenCase → Program S Exc (List CaseVerdict)
  | [] => pure []
  | case :: cases =>
    match reviewsByCaseId case.caseId with
    | none => throw (missingReviewForCase py case)
    | some review => do
      let verdict ← judge case review
      let rest ← judgeCases cases
      pure (⟨case, verdict⟩ :: rest)

/-- `run_regression_gate`. -/
def runRegressionGate (cases : List GoldenCase) (threshold : ℚ) :
    Program S Exc RegressionGateResult := do
  let caseVerdicts ← judgeCases py judge reviewsByCaseId cases
  Program.ofExcept (gateResult threshold caseVerdicts)

end

/-! The mean of scores between zero and one. -/

/-- The exact sum of the scores, in thousandths. -/
def sumScores (caseVerdicts : List CaseVerdict) : ℤ :=
  (caseVerdicts.map fun cv => cv.verdict.score).sum

/-- Every score is between zero and one. -/
def Scored (caseVerdicts : List CaseVerdict) : Prop :=
  ∀ cv ∈ caseVerdicts, 0 ≤ cv.verdict.score ∧ cv.verdict.score ≤ 1000

variable {caseVerdicts : List CaseVerdict} {threshold : ℚ} {result : RegressionGateResult}

theorem sumScores_bounds (h : Scored caseVerdicts) :
    0 ≤ sumScores caseVerdicts ∧ sumScores caseVerdicts ≤ 1000 * caseVerdicts.length := by
  induction caseVerdicts with
  | nil => simp [sumScores]
  | cons cv cvs ih =>
    have hhead := h cv List.mem_cons_self
    have hrest := ih fun cv' hmem => h cv' (List.mem_cons_of_mem _ hmem)
    simp only [sumScores, List.map_cons, List.sum_cons, List.length_cons] at hrest ⊢
    push_cast
    constructor <;> linarith

/-- No sum of scores needs rounding. -/
theorem totalScore_eq (h : Scored caseVerdicts) (hlen : caseVerdicts.length ≤ sysMaxsize) :
    totalScore caseVerdicts = sumScores caseVerdicts / 1000 := by
  induction caseVerdicts using List.reverseRecOn with
  | nil => simp [totalScore, sumScores]
  | append_singleton cvs cv ih =>
    obtain ⟨hnonneg, hle⟩ := sumScores_bounds h
    have hsum : sumScores (cvs ++ [cv]) = sumScores cvs + cv.verdict.score := by
      simp [sumScores]
    have hfold : totalScore (cvs ++ [cv]) =
        Rounding.toDigits contextPrecision (totalScore cvs + cv.verdict.score / 1000) := by
      simp [totalScore, List.foldl_append]
    have hlen' : cvs.length ≤ sysMaxsize := by
      rw [List.length_append] at hlen
      omega
    have hcvs : Scored cvs := fun cv' hmem => h cv' (List.mem_append_left _ hmem)
    obtain ⟨n, hn⟩ := Int.eq_ofNat_of_zero_le hnonneg
    have hsmall : n < 10 ^ 27 := by
      simp only [sysMaxsize] at hlen
      omega
    rw [hfold, ih hcvs hlen', ← add_div, ← Int.cast_add, ← hsum, hn, Int.cast_natCast]
    exact toDigits_thousandths hsmall

/-- The mean is the exact one, rounded half up to a thousandth. -/
theorem meanScore_eq (h : Scored caseVerdicts) (hne : caseVerdicts ≠ [])
    (hlen : caseVerdicts.length ≤ sysMaxsize) : meanScore caseVerdicts =
      .ok ((2 * sumScores caseVerdicts + caseVerdicts.length) / (2 * caseVerdicts.length)) := by
  have hpos : 0 < caseVerdicts.length := List.length_pos_iff.mpr hne
  obtain ⟨hnonneg, hle⟩ := sumScores_bounds h
  obtain ⟨n, hn⟩ := Int.eq_ofNat_of_zero_le hnonneg
  have hbound : n ≤ 1000 * caseVerdicts.length := by
    rw [hn] at hle
    exact_mod_cast hle
  have hmean := toPlaces_mean hpos hbound hlen
  have hquantized : Rounding.toPlaces 3 (Rounding.toDigits contextPrecision
      (totalScore caseVerdicts / caseVerdicts.length)) =
        (2 * sumScores caseVerdicts + caseVerdicts.length) / (2 * caseVerdicts.length) := by
    rw [totalScore_eq h hlen, hn, Int.cast_natCast, hmean]
    push_cast
    rfl
  have hsmall : (2 * n + caseVerdicts.length) / (2 * caseVerdicts.length) ≤ 1001 := by
    apply Nat.div_le_of_le_mul
    omega
  simp only [meanScore, hquantized]
  rw [if_neg (by simpa using hne), if_neg]
  rw [hn, not_le, abs_of_nonneg (by positivity)]
  calc (2 * (n : ℤ) + caseVerdicts.length) / (2 * caseVerdicts.length)
      = ((2 * n + caseVerdicts.length) / (2 * caseVerdicts.length) : ℕ) := by push_cast; rfl
    _ ≤ 1001 := by exact_mod_cast hsmall
    _ < 10 ^ contextPrecision := by norm_num [contextPrecision]

/-- The gate is passed exactly by a mean of at least the threshold, in whole thousandths, less half
a thousandth. -/
theorem passed_iff (h : Scored caseVerdicts) (hlen : caseVerdicts.length ≤ sysMaxsize)
    (hresult : gateResult threshold caseVerdicts = .ok result) : result.passed = true ↔
      ⌈1000 * threshold⌉ - 1 / 2 ≤ (sumScores caseVerdicts : ℚ) / caseVerdicts.length := by
  have hne : caseVerdicts ≠ [] := by
    rintro rfl
    cases hresult
  have hpos : 0 < (caseVerdicts.length : ℚ) := by
    exact_mod_cast List.length_pos_iff.mpr hne
  rw [gateResult, meanScore_eq h hne hlen] at hresult
  obtain rfl := Except.ok.inj hresult
  set mean : ℤ := (2 * sumScores caseVerdicts + caseVerdicts.length) / (2 * caseVerdicts.length)
  have hceil : threshold ≤ mean / 1000 ↔ ⌈1000 * threshold⌉ ≤ mean := by
    rw [le_div_iff₀ (by norm_num), mul_comm, Int.ceil_le]
  have hdiv : ⌈1000 * threshold⌉ ≤ mean ↔
      ⌈1000 * threshold⌉ * (2 * caseVerdicts.length) ≤
        2 * sumScores caseVerdicts + caseVerdicts.length :=
    Int.le_ediv_iff_mul_le (by exact_mod_cast Nat.mul_pos (by decide) (List.length_pos_iff.mpr hne))
  have hcast : ⌈1000 * threshold⌉ * (2 * caseVerdicts.length) ≤
        2 * sumScores caseVerdicts + caseVerdicts.length ↔
      (⌈1000 * threshold⌉ : ℚ) * (2 * caseVerdicts.length) ≤
        2 * sumScores caseVerdicts + caseVerdicts.length := by
    exact_mod_cast Iff.rfl
  rw [decide_eq_true_iff, hceil, hdiv, hcast, le_div_iff₀ hpos]
  constructor <;> intro hle <;> linarith

end ReviewAgent
