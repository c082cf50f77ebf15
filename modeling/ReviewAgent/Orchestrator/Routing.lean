import ReviewAgent.Agents.Contracts
import ReviewAgent.Hitl.Queue

/-! What the aggregator makes of the merged findings: survivors, confidence, status. -/
namespace ReviewAgent

structure Routed where
  findings : List Finding
  overallConfidence : ℕ
  status : ReviewStatus
  reason : String

/-- The first steps of `aggregate_node`: dedupe, score, route. -/
def routeFindings (threshold : Confidence) (findings : List Finding) : Except Exc Routed := do
  let deduped := dedupeFindings findings
  let overallConfidence ← computeOverallConfidence deduped
  let (status, reason) := routeReview overallConfidence deduped threshold
  pure { findings := deduped, overallConfidence, status, reason }

/-- The confidence that the gate compares, in thousandths. -/
def roundedMean (findings : List Finding) : ℕ :=
  if findings.isEmpty then 0
  else (2 * sumThousandths findings + findings.length) / (2 * findings.length)

theorem roundedMean_ge_iff {findings : List Finding} {t : ℕ} : t ≤ roundedMean findings ↔
    (0 < findings.length ∧
        2 * findings.length * t ≤ 2 * sumThousandths findings + findings.length) ∨
      (findings.length = 0 ∧ t = 0) := by
  cases findings with
  | nil => simp [roundedMean]
  | cons f fs =>
    have hpos : 0 < 2 * (f :: fs).length := by simp
    rw [roundedMean, if_neg (by simp), Nat.le_div_iff_mul_le hpos, Nat.mul_comm t]
    simp

theorem computeOverallConfidence_roundedMean {findings : List Finding}
    (hlen : findings.length ≤ sysMaxsize) :
    computeOverallConfidence findings = .ok (roundedMean findings) := by
  by_cases hne : findings = []
  · simp [hne, computeOverallConfidence, roundedMean]
  · rw [computeOverallConfidence_eq hne hlen, roundedMean, if_neg (by simpa using hne)]

/-- The survivors of a Python list make a Python list. -/
theorem dedupeFindings_length (raw : PyList Finding) :
    (dedupeFindings raw.toList).length ≤ sysMaxsize :=
  (length_dedupeFindings_le raw.toList).trans raw.length_le

theorem routeFindings_eq (threshold : Confidence) (raw : PyList Finding) :
    routeFindings threshold raw.toList =
      .ok ⟨dedupeFindings raw.toList, roundedMean (dedupeFindings raw.toList),
        (routeReview (roundedMean (dedupeFindings raw.toList)) (dedupeFindings raw.toList)
          threshold).1,
        (routeReview (roundedMean (dedupeFindings raw.toList)) (dedupeFindings raw.toList)
          threshold).2⟩ := by
  simp only [routeFindings, computeOverallConfidence_roundedMean (dedupeFindings_length raw)]
  rfl

theorem roundedMean_perm {raw raw' : PyList Finding} (hp : raw.toList.Perm raw'.toList) :
    roundedMean (dedupeFindings raw.toList) = roundedMean (dedupeFindings raw'.toList) := by
  have h := computeOverallConfidence_congr (dedupeFindings_confidences_perm hp)
  rw [computeOverallConfidence_roundedMean (dedupeFindings_length raw),
    computeOverallConfidence_roundedMean (dedupeFindings_length raw')] at h
  exact Except.ok.inj h

theorem hasCriticalFinding_dedupeFindings {findings : List Finding} :
    hasCriticalFinding (dedupeFindings findings) = true ↔
      ∃ f ∈ findings, f.severity = .critical := by
  rw [hasCriticalFinding_iff, dedupeFindings_critical]

/-- A review is posted exactly when no raw finding is critical and the rounded mean of the
surviving confidences reaches the threshold, whatever the order of the raw findings. -/
theorem routeFindings_posted_iff (threshold : Confidence) (raw : PyList Finding) :
    ∃ routed, routeFindings threshold raw.toList = .ok routed ∧
      (routed.status = .posted ↔ (∀ f ∈ raw.toList, f.severity ≠ .critical) ∧
        ((0 < routed.findings.length ∧ 2 * routed.findings.length * threshold.thousandths ≤
            2 * sumThousandths routed.findings + routed.findings.length) ∨
          (routed.findings.length = 0 ∧ threshold.thousandths = 0))) ∧
      (routed.status ≠ .posted → routed.status = .queuedForHitl) ∧
      ∀ raw' : PyList Finding, raw.toList.Perm raw'.toList → ∃ routed',
        routeFindings threshold raw'.toList = .ok routed' ∧ routed'.status = routed.status ∧
          routed'.overallConfidence = routed.overallConfidence := by
  refine ⟨_, routeFindings_eq threshold raw, ?_, ?_, ?_⟩
  · have hcrit : hasCriticalFinding (dedupeFindings raw.toList) = false ↔
        ∀ f ∈ raw.toList, f.severity ≠ .critical := by
      rw [← Bool.not_eq_true, hasCriticalFinding_dedupeFindings]
      simp
    rw [routeReview_posted_iff, hcrit, roundedMean_ge_iff]
  · exact (routeReview_status _ _ _).resolve_left
  · intro raw' hp
    have hcrit : hasCriticalFinding (dedupeFindings raw.toList) =
        hasCriticalFinding (dedupeFindings raw'.toList) := by
      rw [Bool.eq_iff_iff, hasCriticalFinding_dedupeFindings, hasCriticalFinding_dedupeFindings]
      simp only [hp.mem_iff]
    refine ⟨_, routeFindings_eq threshold raw', ?_, (roundedMean_perm hp).symm⟩
    simp only [roundedMean_perm hp]
    exact routeReview_congr hcrit.symm

end ReviewAgent
