import ReviewAgent.JobQueue.ArqWorker

/-! The review of a webhook: that the aggregator can always build it, and what its confidence is. -/
namespace ReviewAgent

open Effects

/-- The sum of the confidences is their number of thousandths. -/
theorem sum_confidence (findings : List Finding) :
    (findings.map fun f => f.confidence.value).sum = (sumThousandths findings : ℚ) / 1000 := by
  induction findings with
  | nil => simp [sumThousandths]
  | cons f fs ih =>
    simp only [sumThousandths, List.map_cons, List.sum_cons, Nat.cast_add] at ih ⊢
    rw [ih, Confidence.value_eq, add_div]

/-- The arithmetic mean of the confidences, exactly. -/
def meanConfidence (findings : List Finding) : ℚ :=
  (findings.map fun f => f.confidence.value).sum / findings.length

/-- The gate's confidence is the mean to three places, ties up. -/
theorem roundedMean_eq {findings : List Finding} (hne : findings ≠ []) :
    (roundedMean findings : ℤ) = Rounding.toPlaces 3 (meanConfidence findings) := by
  have hpos : (findings.length : ℚ) ≠ 0 := by simpa using hne
  have hfrac : 10 ^ 3 * meanConfidence findings + 1 / 2 =
      ((2 * sumThousandths findings + findings.length : ℕ) : ℚ) / (2 * findings.length : ℕ) := by
    rw [meanConfidence, sum_confidence]
    push_cast
    field_simp
    ring
  rw [roundedMean, if_neg (by simpa using hne), Rounding.toPlaces, hfrac,
    Rat.floor_natCast_div_natCast]
  push_cast
  rfl

theorem sumThousandths_ge {findings : List Finding} {t : ℕ}
    (h : ∀ f ∈ findings, t ≤ f.confidence.thousandths) :
    findings.length * t ≤ sumThousandths findings := by
  simpa [sumThousandths] using List.card_nsmul_le_sum (findings.map fun f => f.confidence.thousandths) t
    (by simpa using h)

theorem sumThousandths_le_of_forall {findings : List Finding} {t : ℕ}
    (h : ∀ f ∈ findings, f.confidence.thousandths ≤ t) :
    sumThousandths findings ≤ findings.length * t := by
  simpa [sumThousandths] using List.sum_le_card_nsmul (findings.map fun f => f.confidence.thousandths) t
    (by simpa using h)

/-- Rounding the mean does not leave the range of what is averaged. -/
theorem roundedMean_between {findings : List Finding} (hne : findings ≠ []) :
    (∃ f ∈ findings, f.confidence.thousandths ≤ roundedMean findings) ∧
      ∃ f ∈ findings, roundedMean findings ≤ f.confidence.thousandths := by
  have hpos : 0 < findings.length := List.length_pos_iff.mpr hne
  constructor
  · by_contra hall
    push Not at hall
    have hsum := sumThousandths_ge (t := roundedMean findings + 1) hall
    have hle : roundedMean findings + 1 ≤ roundedMean findings := by
      rw [roundedMean_ge_iff]
      left
      refine ⟨hpos, ?_⟩
      rw [mul_assoc]
      omega
    omega
  · by_contra hall
    push Not at hall
    have hmean : 0 < roundedMean findings := by
      obtain ⟨f, hf⟩ := List.exists_mem_of_ne_nil _ hne
      have := hall f hf
      omega
    have hsum := sumThousandths_le_of_forall (t := roundedMean findings - 1)
      fun f hf => by have := hall f hf; omega
    obtain ⟨-, hge⟩ | ⟨hzero, -⟩ := roundedMean_ge_iff.mp (le_refl (roundedMean findings))
    · obtain ⟨t, ht⟩ : ∃ t, roundedMean findings = t + 1 := ⟨roundedMean findings - 1, by omega⟩
      rw [ht, Nat.add_sub_cancel] at hsum
      rw [ht, mul_assoc, mul_add] at hge
      omega
    · omega

namespace WebhookEvent

/-- The state in which the aggregator finds the run of an event. -/
def aggregated (event : WebhookEvent) (diff : String) (findings : PyList Finding)
    (nodeErrors : NodeErrors) (persisted : Option Review) : GraphState :=
  { event.initialState diff with
    findings := findings.toList, nodeErrors := nodeErrors, review := persisted }

variable {event : WebhookEvent} {diff : String} {findings : PyList Finding}
  {nodeErrors : NodeErrors} {persisted : Option Review}

/-- What the event admits, the review admits. -/
theorem aggregated_reviewable :
    (event.aggregated diff findings nodeErrors persisted).Reviewable where
  reviewId := by
    have hlength := isDeliveryId_length event.deliveryId_shape
    have hprefix : ("webhook-" : String).length = 8 := rfl
    show 1 ≤ ("webhook-" ++ event.deliveryId).length ∧
      ("webhook-" ++ event.deliveryId).length ≤ 100
    rw [String.length_append]
    omega
  prNumber := event.prNumber_pos
  repositoryOwner := event.repositoryOwner_length
  repositoryName := event.repositoryName_length
  headSha := isHeadSha_length event.headSha_shape

end WebhookEvent

/-- The review says what the surviving findings make of it. -/
structure Review.Sums (review : Review) (state : GraphState) (survivors : List Finding) :
    Prop where
  subject : review.subject = state.subject
  findings : review.findings = survivors
  empty : survivors = [] → review.overallConfidence.value = 0
  rounded : survivors ≠ [] → review.overallConfidence.value =
    Rounding.toPlaces 3 (meanConfidence survivors) / 1000
  least : survivors ≠ [] → ∃ f ∈ survivors,
    f.confidence.value ≤ review.overallConfidence.value
  greatest : survivors ≠ [] → ∃ f ∈ survivors,
    review.overallConfidence.value ≤ f.confidence.value

/-- A review holds the confidence of its findings. -/
theorem Review.sums {review : Review} {state : GraphState} {survivors : List Finding}
    (hlen : survivors.length ≤ sysMaxsize) (hsubject : review.subject = state.subject)
    (hfindings : review.findings = survivors) : review.Sums state survivors := by
  have hmatches := review.overallConfidence_matches
  rw [hfindings, computeOverallConfidence_roundedMean hlen] at hmatches
  have hthousandths : review.overallConfidence.thousandths = roundedMean survivors :=
    (Except.ok.inj hmatches).symm
  refine ⟨hsubject, hfindings, ?_, ?_, ?_, ?_⟩
  · rintro rfl
    rw [Confidence.value_eq, hthousandths]
    simp [roundedMean]
  · intro hne
    rw [Confidence.value_eq, hthousandths, ← roundedMean_eq hne, Int.cast_natCast]
  · intro hne
    obtain ⟨f, hf, hle⟩ := (roundedMean_between hne).1
    rw [← hthousandths] at hle
    exact ⟨f, hf, not_lt.mp fun hlt => by rw [Confidence.value_lt_iff] at hlt; omega⟩
  · intro hne
    obtain ⟨f, hf, hle⟩ := (roundedMean_between hne).2
    rw [← hthousandths] at hle
    exact ⟨f, hf, not_lt.mp fun hlt => by rw [Confidence.value_lt_iff] at hlt; omega⟩

/-- Whatever the specialists find in whatever pull request, the aggregator builds its review, then
tries to record it, and ends with it. -/
theorem aggregateNode_builds_review (settings : Settings) (event : WebhookEvent) (diff : String)
    (findings : PyList Finding) (nodeErrors : NodeErrors) (persisted : Option Review)
    (answers : Answers) :
    ∃ review reason, reviewOf settings (event.aggregated diff findings nodeErrors persisted)
        (answers (.now .createdAt)) = .ok (review, reason) ∧
      review.Sums (event.aggregated diff findings nodeErrors persisted)
        (dedupeFindings findings.toList) ∧
      (aggregateNode settings (event.aggregated diff findings nodeErrors persisted)).outcome
          answers = Program.outcome answers (do
        emitDecision review.reviewId (some "aggregator") review.status.value
          (some review.overallConfidence.thousandths)
        persistReview review reason
        pure (review, reason)) ∧
      (WritesSwallowed answers → UpsertsSwallowed answers →
        (aggregateNode settings (event.aggregated diff findings nodeErrors persisted)).outcome
          answers = .ok (review, reason)) := by
  set state := event.aggregated diff findings nodeErrors persisted with hstate
  have hfits : state.Reviewable := WebhookEvent.aggregated_reviewable
  obtain ⟨routed, hrouted, hfindings, hle, hconfidence, -⟩ :=
    routeFindings_total settings.hitlConfidenceThreshold state.findings
  obtain ⟨review, hvalid, -⟩ := Review.validate_ok hfits routed.status
    (answers (.now .createdAt)) hconfidence hle
  obtain ⟨-, hkept, hthousandths, hstatus⟩ := Review.fields_of_validate hvalid
  have hsubject := Review.subject_of_validate hvalid
  have hid : review.reviewId = state.reviewId := congrArg Prod.fst hsubject
  have hreview : reviewOf settings state (answers (.now .createdAt)) =
      .ok (review, routed.reason) := by
    simp only [reviewOf, hrouted, bind, Except.bind, hvalid]
    rfl
  refine ⟨review, routed.reason, hreview, ?_, ?_, fun hwrites hupserts => ?_⟩
  · exact Review.sums (dedupeFindings_length findings) hsubject (hkept.trans hfindings)
  · rw [aggregateNode, Program.outcome_bind, Program.outcome_ofExcept, hrouted]
    show Program.outcome answers (ask (.now .createdAt) >>= _) = _
    rw [outcome_ask_bind, Program.outcome_bind, Program.outcome_ofExcept, hvalid, hid,
      hthousandths, hstatus]
    rfl
  · rw [aggregateNode_outcome hwrites hupserts, hreview]

end ReviewAgent
