import ReviewAgent.Database.Metrics

/-! The dashboard's account: every LLM call is in the metrics or among the exclusions. -/
namespace ReviewAgent

open Regroup

/-- `total_cost_usd` of `get_agent_metrics`. -/
def AgentMetricsAggregate.totalCostUsd (aggregate : AgentMetricsAggregate) : ℕ :=
  (aggregate.metrics.map (·.totalCostUsd)).sum

/-- The rows that `excluded_count` counts, among the LLM calls. -/
def excludes (now : ℚ) (row : AgentEvent) : Bool :=
  decide (now < row.ts) || likeAny testFixtureReviewIdPrefixes row.reviewId

variable {rows : List AgentEvent} {now : ℚ} {collation : Collation}

/-- The two statements filter the LLM calls in opposite ways. -/
theorem localRows_eq_filter_not :
    localRows rows now = (rows.filter isLlmCall).filter fun row => !excludes now row := by
  rw [localRows, List.filter_filter]
  refine List.filter_congr fun row _ => ?_
  have hts : decide (row.ts ≤ now) = !decide (now < row.ts) := by
    rw [← decide_not]
    exact decide_eq_decide.mpr not_lt.symm
  rw [excludes, hts, Bool.not_or, Bool.and_assoc, Bool.and_comm]

theorem total_localRows_add (f : AgentEvent → ℕ) :
    total f (localRows rows now) + total f ((rows.filter isLlmCall).filter (excludes now)) =
      total f (rows.filter isLlmCall) := by
  rw [localRows_eq_filter_not, Nat.add_comm, total_filter_add_not]

/-- `FILTER (WHERE ...)` of a condition and of each of two conditions. -/
theorem length_filter_or (P Q : AgentEvent → Bool) (rows : List AgentEvent) :
    (rows.filter fun row => P row || Q row).length +
        (rows.filter fun row => P row && Q row).length =
      (rows.filter P).length + (rows.filter Q).length := by
  induction rows with
  | nil => rfl
  | cons row rows ih => cases hp : P row <;> cases hq : Q row <;> simp [hp, hq] <;> omega

/-- The exclusions come from the excluded rows alone. -/
theorem excludedSummary_filter :
    excludedSummary (rows.filter (excludes now)) now = excludedSummary rows now := by
  have hfilter : ∀ P : AgentEvent → Bool, (∀ row, P row = true → excludes now row = true) →
      ((rows.filter (excludes now)).filter isLlmCall).filter P =
        (rows.filter isLlmCall).filter P := by
    intro P hP
    rw [List.filter_filter, List.filter_filter, List.filter_filter]
    refine List.filter_congr fun row _ => ?_
    cases hrow : P row with
    | false => rfl
    | true => simp [hP row hrow]
  have hexcluded := hfilter (excludes now) fun row h => h
  have hfuture := hfilter (fun row => decide (now < row.ts)) fun row h => by simp [excludes, h]
  have hfixture := hfilter (fun row => likeAny testFixtureReviewIdPrefixes row.reviewId)
    fun row h => by simp [excludes, h]
  have hboth := hfilter (fun row => decide (now < row.ts) &&
    likeAny testFixtureReviewIdPrefixes row.reviewId) fun row h => by
      rw [excludes, (Bool.and_eq_true_iff.mp h).1, Bool.true_or]
  unfold excludes at *
  simp only [excludedSummary]
  rw [hexcluded, hfuture, hfixture, hboth]

theorem filter_eraseIdx {P : AgentEvent → Bool} {i : ℕ}
    (h : ∀ row, rows[i]? = some row → P row = false) :
    (rows.eraseIdx i).filter P = rows.filter P := by
  induction rows generalizing i with
  | nil => rfl
  | cons row rows ih =>
    cases i with
    | zero =>
      have hrow : P row = false := h row rfl
      simp [hrow]
    | succ i =>
      rw [List.eraseIdx_cons_succ, List.filter_cons, List.filter_cons, ih h]

/-- Without one of the rows, the metrics stay or the exclusions do. -/
theorem counted_in_one (i : ℕ) :
    localMetrics collation (rows.eraseIdx i) now = localMetrics collation rows now ∨
      excludedSummary (rows.eraseIdx i) now = excludedSummary rows now := by
  by_cases hexcluded : ∀ row, rows[i]? = some row → excludes now row = true
  · refine Or.inl ?_
    rw [localMetrics, localMetrics, localRows_eq_filter_not, localRows_eq_filter_not,
      List.filter_filter, List.filter_filter, filter_eraseIdx]
    intro row hrow
    rw [hexcluded row hrow]
    rfl
  · refine Or.inr ?_
    rw [← excludedSummary_filter, filter_eraseIdx, excludedSummary_filter]
    intro row hrow
    refine Bool.eq_false_iff.mpr fun hrow' => hexcluded fun other hother => ?_
    have hsame : other = row := Option.some.inj (hother.symm.trans hrow)
    rw [hsame]
    exact hrow'

/-- Metrics and exclusions of the local backend add up to all LLM calls, the excluded rows are
those of the two mechanisms with the overlap counted once, and no row is in both. -/
theorem dashboard_counts_every_call_once (collation : Collation) (rows : List AgentEvent)
    (now : ℚ) :
    let aggregate := aggregateLlmCallsByAgent .local collation rows now
    let calls := rows.filter isLlmCall
    aggregate.totalCostUsd + aggregate.exclusions.excludedCostUsd = sumOf (·.costUsd) calls ∧
    (aggregate.metrics.map (·.callCount)).sum + aggregate.exclusions.excludedRowCount =
      calls.length ∧
    (aggregate.exclusions.excludedRowCount : ℤ) = aggregate.exclusions.futureDatedCount +
      aggregate.exclusions.testFixtureCount - aggregate.exclusions.overlapCount ∧
    ∀ i, (aggregateLlmCallsByAgent .local collation (rows.eraseIdx i) now).metrics =
        aggregate.metrics ∨
      (aggregateLlmCallsByAgent .local collation (rows.eraseIdx i) now).exclusions =
        aggregate.exclusions := by
  refine ⟨?_, ?_, ?_, fun i => counted_in_one i⟩
  · have hmetrics : ((localMetrics collation rows now).map (·.totalCostUsd)).sum =
        sumOf (·.costUsd) (localRows rows now) := sum_aggregate fun _ _ => rfl
    calc ((localMetrics collation rows now).map (·.totalCostUsd)).sum +
          sumOf (·.costUsd) ((rows.filter isLlmCall).filter (excludes now))
        = sumOf (·.costUsd) (localRows rows now) +
          sumOf (·.costUsd) ((rows.filter isLlmCall).filter (excludes now)) := by rw [hmetrics]
      _ = sumOf (·.costUsd) (rows.filter isLlmCall) := total_localRows_add _
  · have hmetrics : ((localMetrics collation rows now).map (·.callCount)).sum =
        total (fun _ => 1) (localRows rows now) := sum_aggregate fun _ _ => total_one.symm
    calc ((localMetrics collation rows now).map (·.callCount)).sum +
          ((rows.filter isLlmCall).filter (excludes now)).length
        = total (fun _ => 1) (localRows rows now) +
          total (fun _ => 1) ((rows.filter isLlmCall).filter (excludes now)) := by
            rw [hmetrics, ← total_one]
      _ = (rows.filter isLlmCall).length := (total_localRows_add _).trans total_one
  · have hcount := length_filter_or (fun row => decide (now < row.ts))
      (fun row => likeAny testFixtureReviewIdPrefixes row.reviewId) (rows.filter isLlmCall)
    simp only [aggregateLlmCallsByAgent, excludedSummary]
    omega

end ReviewAgent
