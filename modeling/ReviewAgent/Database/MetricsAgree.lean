import Mathlib.Data.Rat.Floor
import Mathlib.Data.String.Basic
import Mathlib.Tactic.Linarith
import ReviewAgent.Database.Metrics

/-! When the two backends report the same metrics. -/
namespace ReviewAgent

open Regroup

/-- A row of `emit_llm_call`: no column is null. -/
structure Emitted (row : AgentEvent) : Prop where
  agent : row.agent.isSome = true
  model : row.model.isSome = true
  tokensIn : row.tokensIn.isSome = true
  tokensOut : row.tokensOut.isSome = true
  costUsd : row.costUsd.isSome = true
  latencyMs : row.latencyMs.isSome = true

/-- The rows in the buckets that the Tiger query reads. -/
def selectedRows (rows : List AgentEvent) (now : ℚ) : List AgentEvent :=
  (healthRows rows).filter fun row => decide (minuteBucket row.ts ≤ now)

variable {rows : List AgentEvent} {now : ℚ} {collation : Collation}

theorem minuteBucket_le (ts : ℚ) : minuteBucket ts ≤ ts := by
  have h : (⌊ts / 60⌋ : ℚ) ≤ ts / 60 := Int.floor_le _
  unfold minuteBucket
  linarith

theorem localRows_eq_filter : localRows rows now =
    (selectedRows rows now).filter fun row => decide (row.ts ≤ now) := by
  rw [localRows, selectedRows, healthRows, List.filter_filter, List.filter_filter]
  refine List.filter_congr fun row _ => ?_
  have hsame : testFixtureReviewIdPrefixes = agentHealth1mExcludedPrefixes := rfl
  have hbucket : row.ts ≤ now → minuteBucket row.ts ≤ now := (minuteBucket_le row.ts).trans
  rw [hsame]
  by_cases hts : row.ts ≤ now
  · simp [hts, hbucket hts]
  · simp [hts]

/-- A sum over the buckets of a group is the sum over the rows in them. -/
theorem total_tigerBuckets {column : AgentHealth → ℕ} {f : AgentEvent → ℕ}
    (hcolumn : ∀ key rows, column (bucketRow key rows) = total f rows)
    (P : Option String × Option String → Bool) :
    total column ((tigerBuckets rows now).filter fun b => P (b.agent, b.model)) =
      total f ((selectedRows rows now).filter fun row => P (agentModel row)) := by
  rw [selectedRows, List.filter_filter]
  calc total column ((tigerBuckets rows now).filter fun b => P (b.agent, b.model))
      = ((((healthRows rows).map bucketKey).dedup.filter
          fun key => decide (key.1 ≤ now) && P key.2).map
            fun key => total f (group bucketKey key (healthRows rows))).sum := by
        rw [tigerBuckets, agentHealth1m, List.filter_filter, List.filter_map, total, List.map_map]
        congr 1
        simp only [Function.comp_def, hcolumn]
        congr 1
        refine List.filter_congr fun key _ => ?_
        exact Bool.and_comm _ _
    _ = total f ((healthRows rows).filter fun row =>
          decide (minuteBucket row.ts ≤ now) && P (agentModel row)) :=
        total_regroup bucketKey fun key => decide (key.1 ≤ now) && P key.2
    _ = _ := by
        congr 1
        refine List.filter_congr fun row _ => ?_
        rw [Bool.and_comm]

theorem sum_callCount_local : ((localMetrics collation rows now).map (·.callCount)).sum =
    (localRows rows now).length := by
  rw [localMetrics, sum_aggregate (f := fun _ => 1), total_one]
  intro k rows
  exact total_one.symm

theorem sum_callCount_tiger : ((tigerMetrics collation rows now).map (·.callCount)).sum =
    (selectedRows rows now).length := by
  have h : total (·.callCount) ((tigerBuckets rows now).filter fun _ => true) =
      total (fun _ => 1) ((selectedRows rows now).filter fun _ => true) :=
    total_tigerBuckets (fun _ _ => total_one.symm) fun _ => true
  simp only [List.filter_true, total_one] at h
  rw [tigerMetrics, sum_aggregate (f := (·.callCount)), h]
  intro k buckets
  rfl

/-- Rows without a null latency average over their number. -/
theorem avgOf_eq (hrows : ∀ row ∈ rows, Emitted row) :
    avgOf (·.latencyMs) rows = (sumOf (·.latencyMs) rows : ℚ) / rows.length := by
  have hlen : (rows.filterMap (·.latencyMs)).length = rows.length := by
    rw [List.length_filterMap_eq_countP, List.countP_eq_length]
    exact fun row hrow => (hrows row hrow).latencyMs
  rw [avgOf, hlen]

/-- A group of rows and the buckets that cover just these rows have the same metrics. -/
theorem localMetric_eq {k : Option String × Option String} {buckets : List AgentHealth}
    (hrows : ∀ row ∈ rows, Emitted row)
    (htotal : ∀ (column : AgentHealth → ℕ) (f : AgentEvent → ℕ),
      (∀ key rows, column (bucketRow key rows) = total f rows) →
        total column buckets = total f rows) : localMetric k rows = tigerMetric k buckets := by
  have hcount : total (·.callCount) buckets = rows.length :=
    (htotal _ _ fun _ _ => total_one.symm).trans total_one
  have hlatency : total (·.latencyMsSum) buckets = sumOf (·.latencyMs) rows :=
    htotal _ _ fun _ _ => rfl
  have hcost : total (·.costUsdSum) buckets = sumOf (·.costUsd) rows := htotal _ _ fun _ _ => rfl
  have hin : total (·.tokensInSum) buckets = sumOf (·.tokensIn) rows := htotal _ _ fun _ _ => rfl
  have hout : total (·.tokensOutSum) buckets = sumOf (·.tokensOut) rows :=
    htotal _ _ fun _ _ => rfl
  simp only [localMetric, tigerMetric, hcount, hlatency, hcost, hin, hout, avgOf_eq hrows,
    AgentMetrics.mk.injEq, true_and, and_true]
  split
  · rfl
  · rename_i hzero
    have hlen : rows.length = 0 := by omega
    rw [hlen, Nat.cast_zero, div_zero]
    simp [Rounding.halfEven]

theorem mem_tigerBuckets_keys {k : Option String × Option String} :
    k ∈ (tigerBuckets rows now).map (fun b => (b.agent, b.model)) ↔
      k ∈ (selectedRows rows now).map agentModel := by
  simp only [tigerBuckets, agentHealth1m, selectedRows, List.mem_map, List.mem_filter,
    List.mem_dedup, decide_eq_true_eq]
  constructor
  · rintro ⟨b, ⟨⟨key, ⟨row, hrow, rfl⟩, rfl⟩, hle⟩, rfl⟩
    exact ⟨row, ⟨hrow, hle⟩, rfl⟩
  · rintro ⟨row, ⟨hrow, hle⟩, rfl⟩
    exact ⟨_, ⟨⟨bucketKey row, ⟨row, hrow, rfl⟩, rfl⟩, hle⟩, rfl⟩

/-- The two backends report the same metrics exactly when no LLM call that counts is dated after
now in a minute that has begun by now. -/
theorem metrics_agree_iff (collation : Collation) (rows : List AgentEvent) (now : ℚ)
    (hrows : ∀ row ∈ rows, isLlmCall row = true → Emitted row) :
    (aggregateLlmCallsByAgent .tiger collation rows now).metrics =
        (aggregateLlmCallsByAgent .local collation rows now).metrics ↔
      ∀ row ∈ rows, isLlmCall row = true →
        likeAny testFixtureReviewIdPrefixes row.reviewId = false →
          minuteBucket row.ts ≤ now → row.ts ≤ now := by
  have hselected : localRows rows now = selectedRows rows now ↔ ∀ row ∈ rows,
      isLlmCall row = true → likeAny testFixtureReviewIdPrefixes row.reviewId = false →
        minuteBucket row.ts ≤ now → row.ts ≤ now := by
    have hsame : agentHealth1mExcludedPrefixes = testFixtureReviewIdPrefixes := rfl
    rw [localRows_eq_filter, List.filter_eq_self]
    simp only [selectedRows, healthRows, hsame, List.mem_filter, Bool.and_eq_true,
      Bool.not_eq_true', decide_eq_true_eq]
    exact ⟨fun h row h₁ h₂ h₃ h₄ => h row ⟨⟨h₁, h₂, h₃⟩, h₄⟩,
      fun h row h' => h row h'.1.1 h'.1.2.1 h'.1.2.2 h'.2⟩
  rw [← hselected]
  constructor
  · intro h
    have hcounts : (selectedRows rows now).length = (localRows rows now).length := by
      rw [← @sum_callCount_tiger rows now collation,
        ← @sum_callCount_local rows now collation]
      exact congrArg (fun metrics => (metrics.map (·.callCount)).sum) h
    rw [localRows_eq_filter] at hcounts ⊢
    exact List.filter_eq_self.mpr (List.length_filter_eq_length_iff.mp hcounts.symm)
  · intro h
    refine (aggregate_congr Collation.lePair_antisymm Collation.lePair_trans
      Collation.lePair_total ?_ ?_).symm
    · intro k
      rw [h, mem_tigerBuckets_keys]
    · intro k _
      rw [h]
      apply localMetric_eq
      · intro row hrow
        have hmem := List.mem_of_mem_filter (List.mem_of_mem_filter hrow)
        simp only [healthRows, List.mem_filter, Bool.and_eq_true] at hmem
        exact hrows row hmem.1 hmem.2.1
      · intro column f hcolumn
        exact total_tigerBuckets hcolumn fun key => decide (key = k)

/-- Text in the order of its code points. -/
def Collation.codePoints : Collation where
  le a b := decide (a ≤ b)
  antisymm a b hab hba := le_antisymm (of_decide_eq_true hab) (of_decide_eq_true hba)
  trans a b c hab hbc :=
    decide_eq_true ((of_decide_eq_true hab).trans (of_decide_eq_true hbc))
  total a b := by simpa using le_total a b

/-- A call at second `ts` of the epoch. -/
def callAt (ts : ℚ) : AgentEvent where
  reviewId := "webhook-1"
  eventType := .llmCall
  ts := ts
  agent := some "security"
  model := some "claude-haiku-4-5"
  tokensIn := some 100
  tokensOut := some 20
  costUsd := some 200
  latencyMs := some 900
  valid := by
    simp [EventFields.checks]
    decide

theorem callAt_emitted (ts : ℚ) : Emitted (callAt ts) := ⟨rfl, rfl, rfl, rfl, rfl, rfl⟩

/-- Calls of two minutes before now, one at now, and one of a minute to come. -/
def callsAround : List AgentEvent := [30, 59, 60, 130].map callAt

/-- The backends agree on them. -/
theorem metrics_agree_callsAround :
    (aggregateLlmCallsByAgent .tiger .codePoints callsAround 60).metrics =
      (aggregateLlmCallsByAgent .local .codePoints callsAround 60).metrics := by
  refine (metrics_agree_iff .codePoints callsAround 60 fun row hrow _ => ?_).mpr
    (by decide +kernel)
  obtain ⟨ts, -, rfl⟩ := List.mem_map.mp hrow
  exact callAt_emitted ts

/-- A call one second after now, in a minute that begins now, counts in one backend alone. -/
theorem later_call_counted_by_tiger : ¬ ∀ (collation : Collation) (rows : List AgentEvent)
    (now : ℚ), (∀ row ∈ rows, isLlmCall row = true → Emitted row) →
      (aggregateLlmCallsByAgent .tiger collation rows now).metrics =
        (aggregateLlmCallsByAgent .local collation rows now).metrics := by
  intro h
  have hsame := h .codePoints [callAt 61] 60 fun _ hrow _ =>
    List.mem_singleton.mp hrow ▸ callAt_emitted 61
  have hcounts := congrArg (fun metrics => (metrics.map AgentMetrics.callCount).sum) hsame
  simp only [aggregateLlmCallsByAgent, sum_callCount_tiger, sum_callCount_local] at hcounts
  revert hcounts
  decide +kernel

end ReviewAgent
