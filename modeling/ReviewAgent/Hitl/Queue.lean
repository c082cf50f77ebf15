import ReviewAgent.Models.Review

/-! The gate between auto-posting and human review. -/
namespace ReviewAgent

def hasCriticalFinding (findings : List Finding) : Bool :=
  findings.any fun f => f.severity = .critical

/-- `route_review`, for a confidence in thousandths. -/
def routeReview (overallConfidence : ℕ) (findings : List Finding) (threshold : Confidence) :
    ReviewStatus × String :=
  let confidence := decimalStr overallConfidence 3
  if hasCriticalFinding findings then
    (.queuedForHitl,
      "queued for human review: at least one CRITICAL finding is present " ++
      "(a CRITICAL finding always requires human review, regardless of " ++
      s!"overall_confidence {confidence} or the configured " ++
      s!"HITL_CONFIDENCE_THRESHOLD of {threshold.str})")
  else if (overallConfidence : ℚ) / 1000 < threshold.value then
    (.queuedForHitl,
      s!"queued for human review: overall_confidence {confidence} is " ++
      s!"below the configured HITL_CONFIDENCE_THRESHOLD of {threshold.str}")
  else
    (.posted,
      s!"auto-posted: overall_confidence {confidence} meets or exceeds " ++
      s!"the configured HITL_CONFIDENCE_THRESHOLD of {threshold.str}, and no " ++
      "CRITICAL finding is present")

theorem hasCriticalFinding_iff {findings : List Finding} :
    hasCriticalFinding findings = true ↔ ∃ f ∈ findings, f.severity = .critical := by
  simp [hasCriticalFinding]

theorem routeReview_posted_iff {overallConfidence : ℕ} {findings : List Finding}
    {threshold : Confidence} : (routeReview overallConfidence findings threshold).1 = .posted ↔
      hasCriticalFinding findings = false ∧ threshold.thousandths ≤ overallConfidence := by
  have hlt : (overallConfidence : ℚ) / 1000 < threshold.value ↔
      overallConfidence < threshold.thousandths := by
    rw [Confidence.value_eq, div_lt_div_iff_of_pos_right (by norm_num)]
    exact_mod_cast Iff.rfl
  unfold routeReview
  by_cases hc : hasCriticalFinding findings = true
  · simp [hc]
  · by_cases ht : overallConfidence < threshold.thousandths
    · simp [hc, hlt, ht]
    · simp [hc, hlt, ht]
      omega

theorem routeReview_status (overallConfidence : ℕ) (findings : List Finding)
    (threshold : Confidence) :
    (routeReview overallConfidence findings threshold).1 = .posted ∨
      (routeReview overallConfidence findings threshold).1 = .queuedForHitl := by
  unfold routeReview
  split
  · exact Or.inr rfl
  · split
    · exact Or.inr rfl
    · exact Or.inl rfl

/-- The status depends on the findings only through the presence of a critical one. -/
theorem routeReview_congr {overallConfidence : ℕ} {findings findings' : List Finding}
    {threshold : Confidence} (h : hasCriticalFinding findings = hasCriticalFinding findings') :
    (routeReview overallConfidence findings threshold).1 =
      (routeReview overallConfidence findings' threshold).1 := by
  unfold routeReview
  rw [h]

end ReviewAgent
