import Mathlib.Data.List.Induction
import ReviewAgent.Models.Findings
import ReviewAgent.Python
import ReviewAgent.Rounding

/-! The review contract and its confidence formula. -/
namespace ReviewAgent

/-- The precision of the default `decimal` context. -/
def contextPrecision : ℕ := 28

def invalidOperation : Exc :=
  .plain (.other "InvalidOperation" (.other "DecimalException" .arithmeticError))
    "[<class 'decimal.InvalidOperation'>]"

/-- The sum of the confidences, each addition rounded to the context's precision. -/
def totalConfidence (findings : List Finding) : ℚ :=
  findings.foldl (fun total f => Rounding.toDigits contextPrecision (total + f.confidence.value)) 0

/-- `compute_overall_confidence`: the thousandths of the `Decimal` that `quantize` returns. -/
def computeOverallConfidence (findings : List Finding) : Except Exc ℕ :=
  if findings.isEmpty then .ok 0
  else
    let mean := Rounding.toDigits contextPrecision (totalConfidence findings / findings.length)
    let quantized := (Rounding.toPlaces 3 mean).toNat
    if 10 ^ contextPrecision ≤ quantized then .error invalidOperation else .ok quantized

/-- The exact sum of the confidences, in thousandths. -/
def sumThousandths (findings : List Finding) : ℕ :=
  (findings.map fun f => f.confidence.thousandths).sum

theorem sumThousandths_le (findings : List Finding) :
    sumThousandths findings ≤ 1000 * findings.length := by
  induction findings with
  | nil => simp [sumThousandths]
  | cons f fs ih =>
    have := f.confidence.thousandths_le
    simp only [sumThousandths, List.map_cons, List.sum_cons, List.length_cons] at ih ⊢
    omega

/-- A sum of thousandths within the context's precision is exact. -/
theorem toDigits_thousandths {n : ℕ} (hn : n < 10 ^ 27) :
    Rounding.toDigits contextPrecision (n / 1000) = n / 1000 := by
  rcases Nat.eq_zero_or_pos n with rfl | hpos
  · simp [Rounding.toDigits_zero]
  · have hq : (0 : ℚ) < n / 1000 := by positivity
    have hlt : Int.log 10 ((n : ℚ) / 1000) < 24 := by
      rw [← Int.lt_zpow_iff_log_lt (by norm_num) hq]
      rw [div_lt_iff₀ (by norm_num)]
      have : (n : ℚ) < 10 ^ 27 := by exact_mod_cast hn
      norm_num at this ⊢
      linarith
    apply Rounding.toDigits_eq_self (m := n) (e := -3)
    · norm_num
      ring
    · simp only [contextPrecision]
      omega

theorem totalConfidence_eq {findings : List Finding} (hlen : findings.length ≤ sysMaxsize) :
    totalConfidence findings = sumThousandths findings / 1000 := by
  induction findings using List.reverseRecOn with
  | nil => simp [totalConfidence, sumThousandths]
  | append_singleton fs f ih =>
    have hle := sumThousandths_le (fs ++ [f])
    have hlen' : fs.length ≤ sysMaxsize := by simp at hlen; omega
    have hsum : sumThousandths (fs ++ [f]) = sumThousandths fs + f.confidence.thousandths := by
      simp [sumThousandths]
    have hfold : totalConfidence (fs ++ [f]) =
        Rounding.toDigits contextPrecision (totalConfidence fs + f.confidence.value) := by
      simp [totalConfidence, List.foldl_append]
    rw [hfold, ih hlen', Confidence.value_eq, ← add_div, ← Nat.cast_add, ← hsum]
    apply toDigits_thousandths
    simp only [sysMaxsize] at hlen
    omega

/-- Dividing within the context's precision does not change the rounding of a mean. -/
theorem toPlaces_mean {total n : ℕ} (hpos : 0 < n) (hle : total ≤ 1000 * n)
    (hn : n ≤ sysMaxsize) :
    Rounding.toPlaces 3 (Rounding.toDigits contextPrecision ((total : ℚ) / 1000 / n)) =
      ((2 * total + n) / (2 * n) : ℕ) := by
  have hn' : (n : ℚ) ≠ 0 := by exact_mod_cast hpos.ne'
  have hmean : (total : ℚ) / 1000 / n = total / (10 ^ 3 * n) := by
    rw [div_div]
    norm_num
  have hfrac : (10 : ℚ) ^ 3 * (total / (10 ^ 3 * n)) + 1 / 2 =
      ((2 * total + n : ℕ) : ℚ) / (2 * n : ℕ) := by
    push_cast
    field_simp
  rw [hmean, Rounding.toPlaces_toDigits hpos (by omega)
    (by simp only [contextPrecision, sysMaxsize] at hn ⊢; omega),
    Rounding.toPlaces, hfrac, Rat.floor_natCast_div_natCast]
  push_cast
  rfl

/-- The formula: the half-up rounding of the exact mean, in whole thousandths. -/
theorem computeOverallConfidence_eq {findings : List Finding} (hne : findings ≠ [])
    (hlen : findings.length ≤ sysMaxsize) : computeOverallConfidence findings =
      .ok ((2 * sumThousandths findings + findings.length) / (2 * findings.length)) := by
  have hpos : 0 < findings.length := List.length_pos_iff.mpr hne
  have hle := sumThousandths_le findings
  have hsmall : (2 * sumThousandths findings + findings.length) / (2 * findings.length) <
      10 ^ contextPrecision := by
    apply lt_of_le_of_lt (b := 1001)
    · apply Nat.div_le_of_le_mul
      omega
    · norm_num [contextPrecision]
  simp only [computeOverallConfidence, totalConfidence_eq hlen, toPlaces_mean hpos hle hlen,
    Int.toNat_natCast]
  rw [if_neg (by simpa using hne), if_neg (by omega)]

theorem totalConfidence_nonneg (findings : List Finding) : 0 ≤ totalConfidence findings := by
  induction findings using List.reverseRecOn with
  | nil => simp [totalConfidence]
  | append_singleton fs f ih =>
    have hvalue : 0 ≤ f.confidence.value := by
      rw [Confidence.value_eq]
      positivity
    simp only [totalConfidence, List.foldl_append, List.foldl_cons, List.foldl_nil] at ih ⊢
    exact Rounding.toDigits_nonneg (add_nonneg ih hvalue)

/-- A sum of confidences stays below their number, however often it is rounded. -/
theorem totalConfidence_le (findings : List Finding) :
    totalConfidence findings ≤ findings.length ∧
      totalConfidence findings ≤ 10 ^ contextPrecision := by
  induction findings using List.reverseRecOn with
  | nil => simp [totalConfidence]
  | append_singleton fs f ih =>
    have hone := f.confidence.value_le_one
    have hfold : totalConfidence (fs ++ [f]) =
        Rounding.toDigits contextPrecision (totalConfidence fs + f.confidence.value) := by
      simp [totalConfidence, List.foldl_append]
    have hpow : totalConfidence (fs ++ [f]) ≤ 10 ^ contextPrecision := by
      rw [hfold]
      exact Rounding.toDigits_le_pow (by decide) (by linarith [ih.2])
    refine ⟨?_, hpow⟩
    rcases Nat.lt_or_ge (fs ++ [f]).length (10 ^ contextPrecision) with hlt | hge
    · have hsum : totalConfidence fs + f.confidence.value ≤ ((fs ++ [f]).length : ℤ) * 10 ^ (0 : ℤ) := by
        simp only [List.length_append, List.length_singleton, zpow_zero, mul_one]
        push_cast
        linarith [ih.1]
      have hlog : Int.log 10 (totalConfidence fs + f.confidence.value) < contextPrecision := by
        rcases le_or_gt (totalConfidence fs + f.confidence.value) 0 with h0 | hpos
        · rw [Int.log_of_right_le_zero _ h0]
          decide
        · rw [← Int.lt_zpow_iff_log_lt (by norm_num) hpos, zpow_natCast]
          refine lt_of_le_of_lt hsum ?_
          simpa using (by exact_mod_cast hlt : ((fs ++ [f]).length : ℚ) < 10 ^ contextPrecision)
      rw [hfold]
      simpa using Rounding.toDigits_le hsum (by omega)
    · calc totalConfidence (fs ++ [f]) ≤ 10 ^ contextPrecision := hpow
        _ ≤ (fs ++ [f]).length := by exact_mod_cast hge

/-- The formula never raises, and gives a confidence. -/
theorem computeOverallConfidence_total (findings : List Finding) :
    ∃ n, computeOverallConfidence findings = .ok n ∧ n ≤ 1000 := by
  unfold computeOverallConfidence
  split
  · exact ⟨0, rfl, by decide⟩
  · rename_i hne
    have hpos : (0 : ℚ) < findings.length := by
      have : 0 < findings.length := List.length_pos_iff.mpr (by simpa using hne)
      exact_mod_cast this
    have hmean : totalConfidence findings / findings.length ≤ 1 := by
      rw [div_le_one hpos]
      exact (totalConfidence_le findings).1
    have hround : Rounding.toDigits contextPrecision
        (totalConfidence findings / findings.length) ≤ 1 := by
      have hlog := (Rounding.lastDigit_le (p := contextPrecision)
        (div_nonneg (totalConfidence_nonneg findings) hpos.le) hmean).1
      simpa using Rounding.toDigits_le (p := contextPrecision) (m := 1) (e := 0) (by simpa using hmean)
        (by simp only [contextPrecision]; omega)
    have hplaces : Rounding.toPlaces 3 (Rounding.toDigits contextPrecision
        (totalConfidence findings / findings.length)) ≤ 1000 := by
      apply Int.floor_le_iff.mpr
      push_cast
      linarith
    have hquant : (Rounding.toPlaces 3 (Rounding.toDigits contextPrecision
        (totalConfidence findings / findings.length))).toNat ≤ 1000 := by omega
    refine ⟨_, if_neg ?_, hquant⟩
    have : 1000 < 10 ^ contextPrecision := by norm_num [contextPrecision]
    omega

/-- The formula depends on the values of the confidences alone. -/
theorem computeOverallConfidence_congr {findings findings' : List Finding}
    (h : findings.map (fun f => f.confidence.value) =
      findings'.map fun f => f.confidence.value) :
    computeOverallConfidence findings = computeOverallConfidence findings' := by
  have hlen : findings.length = findings'.length := by simpa using congrArg List.length h
  have htotal : ∀ l : List Finding, totalConfidence l =
      (l.map fun f => f.confidence.value).foldl
        (fun total c => Rounding.toDigits contextPrecision (total + c)) 0 := by
    intro l
    simp [totalConfidence, List.foldl_map]
  have hempty : findings.isEmpty = findings'.isEmpty := by
    cases findings <;> cases findings' <;> simp_all
  simp only [computeOverallConfidence, hempty, hlen, htotal, h]

structure Review where
  reviewId : String
  prNumber : ℕ
  repositoryOwner : String
  repositoryName : String
  headSha : String
  findings : List Finding
  overallConfidence : Confidence
  status : ReviewStatus
  createdAt : ℚ
  reviewId_length : 1 ≤ reviewId.length ∧ reviewId.length ≤ 100
  prNumber_pos : 0 < prNumber
  repositoryOwner_length : 1 ≤ repositoryOwner.length ∧ repositoryOwner.length ≤ 255
  repositoryName_length : 1 ≤ repositoryName.length ∧ repositoryName.length ≤ 255
  headSha_length : headSha.length = 40
  overallConfidence_matches :
    computeOverallConfidence findings = .ok overallConfidence.thousandths
  postedAt : Option ℚ := none

namespace Review

theorem firstId_length : 1 ≤ "webhook-1".length ∧ "webhook-1".length ≤ 100 := by decide

theorem pullSeven_pos : 0 < 7 := by decide

theorem octo_length : 1 ≤ "octo".length ∧ "octo".length ≤ 255 := by decide

theorem app_length : 1 ≤ "app".length ∧ "app".length ≤ 255 := by decide

theorem noFindings_confidence : computeOverallConfidence [] =
    .ok (Confidence.ofThousandths 0 Confidence.zeroThousandths_le).thousandths := rfl

theorem firstSha_length : "0123456789abcdef0123456789abcdef01234567".length = 40 := by decide

end Review

/-- `Review(...)`: the field bounds in their order, then the model validator. -/
def Review.validate (reviewId : String) (prNumber : ℕ)
    (repositoryOwner repositoryName headSha : String) (findings : List Finding)
    (overallConfidence : ℕ) (status : ReviewStatus) (createdAt : ℚ) : Except Exc Review :=
  if h₁ : 1 ≤ reviewId.length ∧ reviewId.length ≤ 100 then
    if h₂ : 0 < prNumber then
      if h₃ : 1 ≤ repositoryOwner.length ∧ repositoryOwner.length ≤ 255 then
        if h₄ : 1 ≤ repositoryName.length ∧ repositoryName.length ≤ 255 then
          if h₅ : headSha.length = 40 then
            if h₆ : overallConfidence ≤ 1000 then
              match h₇ : computeOverallConfidence findings with
              | .error e => .error e
              | .ok expected =>
                if h₈ : overallConfidence = expected then
                  .ok
                    { reviewId, prNumber, repositoryOwner, repositoryName, headSha, findings,
                      overallConfidence := .ofThousandths overallConfidence h₆, status, createdAt,
                      reviewId_length := h₁, prNumber_pos := h₂, repositoryOwner_length := h₃,
                      repositoryName_length := h₄, headSha_length := h₅,
                      overallConfidence_matches := by simp [h₇, h₈] }
                else
                  .error (.plain .validationError
                    (s!"1 validation error for Review\n  Value error, overall_confidence " ++
                      s!"({decimalStr overallConfidence 3}) does not match " ++
                      s!"compute_overall_confidence(findings) ({decimalStr expected 3}); " ++
                      "construct Review with overall_confidence=" ++
                      "compute_overall_confidence(findings) rather than an " ++
                      "independently-chosen value"))
            else .error (validationError "Review" "overall_confidence")
          else .error (validationError "Review" "head_sha")
        else .error (validationError "Review" "repository_name")
      else .error (validationError "Review" "repository_owner")
    else .error (validationError "Review" "pr_number")
  else .error (validationError "Review" "review_id")

/-- A review that validates has the values it is validated from. -/
theorem Review.fields_of_validate {reviewId repositoryOwner repositoryName headSha : String}
    {prNumber confidence : ℕ} {findings : List Finding} {status : ReviewStatus} {createdAt : ℚ}
    {review : Review}
    (h : Review.validate reviewId prNumber repositoryOwner repositoryName headSha findings
      confidence status createdAt = .ok review) :
    (review.reviewId = reviewId ∧ review.prNumber = prNumber ∧
        review.repositoryOwner = repositoryOwner ∧ review.repositoryName = repositoryName ∧
        review.headSha = headSha) ∧
      review.findings = findings ∧ review.overallConfidence.thousandths = confidence ∧
        review.status = status := by
  unfold Review.validate at h
  split at h
  · split at h
    · split at h
      · split at h
        · split at h
          · split at h
            · split at h
              · cases h
              · split at h
                · cases h
                  exact ⟨⟨rfl, rfl, rfl, rfl, rfl⟩, rfl, Confidence.thousandths_ofThousandths _, rfl⟩
                · cases h
            · cases h
          · cases h
        · cases h
      · cases h
    · cases h
  · cases h

end ReviewAgent
