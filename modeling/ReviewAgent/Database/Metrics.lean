import ReviewAgent.Orchestrator.Operations
import ReviewAgent.Regroup

/-! The dashboard's metrics: over the rows themselves, and over the one-minute buckets of
`agent_health_1m`. -/
namespace ReviewAgent

open Regroup

/-- `_TEST_FIXTURE_REVIEW_ID_PREFIXES`. -/
def testFixtureReviewIdPrefixes : List String :=
  ["budget-guard-", "precision-", "trace-reconstruction-", "orchestrator-run-", "append-only-",
    "live-test-", "m11-live-", "m12-"]

/-- The prefixes in the `NOT LIKE` clauses of `agent_health_1m`. -/
def agentHealth1mExcludedPrefixes : List String :=
  ["budget-guard-", "precision-", "trace-reconstruction-", "orchestrator-run-", "append-only-",
    "live-test-", "m11-live-", "m12-"]

/-- `text LIKE ANY(patterns)`, for patterns that are a prefix and `%`. -/
def likeAny (prefixes : List String) (text : String) : Bool :=
  prefixes.any fun start => start.toList.isPrefixOf text.toList

/-- The order of text in `ORDER BY`. -/
structure Collation where
  le : String → String → Bool
  antisymm : ∀ a b, le a b = true → le b a = true → a = b
  trans : ∀ a b c, le a b = true → le b c = true → le a c = true
  total : ∀ a b, (le a b || le b a) = true

namespace Collation

variable (collation : Collation)

/-- Nulls come last. -/
def leNull : Option String → Option String → Bool
  | _, none => true
  | none, some _ => false
  | some a, some b => collation.le a b

/-- `ORDER BY agent, model`. -/
def lePair (a b : Option String × Option String) : Bool :=
  if a.1 = b.1 then collation.leNull a.2 b.2 else collation.leNull a.1 b.1

variable {collation}

theorem leNull_antisymm {a b : Option String} (hab : collation.leNull a b = true)
    (hba : collation.leNull b a = true) : a = b := by
  cases a <;> cases b <;> simp_all [leNull]
  exact collation.antisymm _ _ hab hba

theorem leNull_trans {a b c : Option String} (hab : collation.leNull a b = true)
    (hbc : collation.leNull b c = true) : collation.leNull a c = true := by
  cases a <;> cases b <;> cases c <;> simp_all [leNull]
  exact collation.trans _ _ _ hab hbc

theorem leNull_total (a b : Option String) :
    (collation.leNull a b || collation.leNull b a) = true := by
  cases a <;> cases b <;> simp [leNull]
  simpa using collation.total _ _

theorem lePair_antisymm (a b : Option String × Option String) (hab : collation.lePair a b = true)
    (hba : collation.lePair b a = true) : a = b := by
  unfold lePair at hab hba
  by_cases h : a.1 = b.1
  · rw [if_pos h] at hab
    rw [if_pos h.symm] at hba
    exact Prod.ext h (leNull_antisymm hab hba)
  · rw [if_neg h] at hab
    rw [if_neg (Ne.symm h)] at hba
    exact absurd (leNull_antisymm hab hba) h

theorem lePair_trans (a b c : Option String × Option String) (hab : collation.lePair a b = true)
    (hbc : collation.lePair b c = true) : collation.lePair a c = true := by
  unfold lePair at *
  by_cases h₁ : a.1 = b.1
  · by_cases h₂ : b.1 = c.1
    · rw [if_pos h₁] at hab
      rw [if_pos h₂] at hbc
      rw [if_pos (h₁.trans h₂)]
      exact leNull_trans hab hbc
    · rw [if_neg h₂] at hbc
      rw [if_neg (h₁ ▸ h₂), h₁]
      exact hbc
  · rw [if_neg h₁] at hab
    by_cases h₂ : b.1 = c.1
    · rw [if_neg (h₂ ▸ h₁), ← h₂]
      exact hab
    · rw [if_neg h₂] at hbc
      have hac := leNull_trans hab hbc
      split
      · rename_i h
        rw [h] at hab
        exact absurd (leNull_antisymm hbc hab) h₂
      · exact hac

theorem lePair_total (a b : Option String × Option String) :
    (collation.lePair a b || collation.lePair b a) = true := by
  unfold lePair
  by_cases h : a.1 = b.1
  · rw [if_pos h, if_pos h.symm]
    exact leNull_total _ _
  · rw [if_neg h, if_neg (Ne.symm h)]
    exact leNull_total _ _

end Collation

structure AgentMetrics where
  agent : String
  model : String
  callCount : ℕ
  -- millionths of a dollar
  totalCostUsd : ℕ
  avgLatencyMs : ℤ
  totalTokensIn : ℕ
  totalTokensOut : ℕ
  deriving DecidableEq, Repr

structure ExclusionSummary where
  excludedRowCount : ℕ
  excludedCostUsd : ℕ
  futureDatedCount : ℕ
  futureDatedCostUsd : ℕ
  testFixtureCount : ℕ
  testFixtureCostUsd : ℕ
  overlapCount : ℕ
  deriving DecidableEq, Repr

structure AgentMetricsAggregate where
  metrics : List AgentMetrics
  exclusions : ExclusionSummary

/-- `COALESCE(SUM(column), 0)`: nulls add nothing. -/
def sumOf (column : AgentEvent → Option ℕ) (rows : List AgentEvent) : ℕ :=
  total (fun row => (column row).getD 0) rows

/-- `COALESCE(AVG(column), 0)`: nulls do not count. -/
def avgOf (column : AgentEvent → Option ℕ) (rows : List AgentEvent) : ℚ :=
  (sumOf column rows : ℚ) / (rows.filterMap column).length

def isLlmCall (row : AgentEvent) : Bool := row.eventType = .llmCall

/-- `GROUP BY agent, model`. -/
def agentModel (row : AgentEvent) : Option String × Option String := (row.agent, row.model)

/-- The rows `_AGGREGATE_LLM_CALLS_BY_AGENT_SQL` reads. -/
def localRows (rows : List AgentEvent) (now : ℚ) : List AgentEvent :=
  rows.filter fun row => isLlmCall row && decide (row.ts ≤ now) &&
    !likeAny testFixtureReviewIdPrefixes row.reviewId

/-- The metrics of a group of rows. -/
def localMetric (key : Option String × Option String) (rows : List AgentEvent) : AgentMetrics where
  agent := key.1.getD "unknown"
  model := key.2.getD "unknown"
  callCount := rows.length
  totalCostUsd := sumOf (·.costUsd) rows
  avgLatencyMs := Rounding.halfEven (avgOf (·.latencyMs) rows)
  totalTokensIn := sumOf (·.tokensIn) rows
  totalTokensOut := sumOf (·.tokensOut) rows

def localMetrics (collation : Collation) (rows : List AgentEvent) (now : ℚ) :
    List AgentMetrics :=
  aggregate collation.lePair agentModel localMetric (localRows rows now)

/-- A row of `agent_health_1m`. -/
structure AgentHealth where
  bucket : ℚ
  agent : Option String
  model : Option String
  callCount : ℕ
  costUsdSum : ℕ
  latencyMsSum : ℕ
  tokensInSum : ℕ
  tokensOutSum : ℕ

/-- `time_bucket('1 minute', ts)`. -/
def minuteBucket (ts : ℚ) : ℚ := ⌊ts / 60⌋ * 60

/-- `GROUP BY bucket, agent, model`. -/
def bucketKey (row : AgentEvent) : ℚ × Option String × Option String :=
  (minuteBucket row.ts, agentModel row)

/-- The rows `agent_health_1m` reads. -/
def healthRows (rows : List AgentEvent) : List AgentEvent :=
  rows.filter fun row => isLlmCall row && !likeAny agentHealth1mExcludedPrefixes row.reviewId

def bucketRow (key : ℚ × Option String × Option String) (rows : List AgentEvent) :
    AgentHealth where
  bucket := key.1
  agent := key.2.1
  model := key.2.2
  callCount := rows.length
  costUsdSum := sumOf (·.costUsd) rows
  latencyMsSum := sumOf (·.latencyMs) rows
  tokensInSum := sumOf (·.tokensIn) rows
  tokensOutSum := sumOf (·.tokensOut) rows

/-- `agent_health_1m`, fully materialised. -/
def agentHealth1m (rows : List AgentEvent) : List AgentHealth :=
  (((healthRows rows).map bucketKey).dedup).map fun key =>
    bucketRow key (group bucketKey key (healthRows rows))

/-- The metrics of a group of buckets. -/
def tigerMetric (key : Option String × Option String) (buckets : List AgentHealth) :
    AgentMetrics where
  agent := key.1.getD "unknown"
  model := key.2.getD "unknown"
  callCount := total (·.callCount) buckets
  totalCostUsd := total (·.costUsdSum) buckets
  avgLatencyMs :=
    if 0 < total (·.callCount) buckets then
      Rounding.halfEven ((total (·.latencyMsSum) buckets : ℚ) / total (·.callCount) buckets)
    else 0
  totalTokensIn := total (·.tokensInSum) buckets
  totalTokensOut := total (·.tokensOutSum) buckets

/-- The buckets `_AGGREGATE_LLM_CALLS_BY_AGENT_TIGER_SQL` reads. -/
def tigerBuckets (rows : List AgentEvent) (now : ℚ) : List AgentHealth :=
  (agentHealth1m rows).filter fun b => decide (b.bucket ≤ now)

def tigerMetrics (collation : Collation) (rows : List AgentEvent) (now : ℚ) :
    List AgentMetrics :=
  aggregate collation.lePair (fun b => (b.agent, b.model)) tigerMetric (tigerBuckets rows now)

/-- `_EXCLUDED_LLM_CALLS_SUMMARY_SQL`. -/
def excludedSummary (rows : List AgentEvent) (now : ℚ) : ExclusionSummary :=
  let calls := rows.filter isLlmCall
  let future := fun row : AgentEvent => decide (now < row.ts)
  let fixture := fun row : AgentEvent => likeAny testFixtureReviewIdPrefixes row.reviewId
  let excluded := calls.filter fun row => future row || fixture row
  { excludedRowCount := excluded.length
    excludedCostUsd := sumOf (·.costUsd) excluded
    futureDatedCount := (calls.filter future).length
    futureDatedCostUsd := sumOf (·.costUsd) (calls.filter future)
    testFixtureCount := (calls.filter fixture).length
    testFixtureCostUsd := sumOf (·.costUsd) (calls.filter fixture)
    overlapCount := (calls.filter fun row => future row && fixture row).length }

/-- `Settings.events_backend`. -/
inductive EventsBackend where
  | tiger | local

def aggregateLlmCallsByAgent (backend : EventsBackend) (collation : Collation)
    (rows : List AgentEvent) (now : ℚ) : AgentMetricsAggregate where
  metrics :=
    match backend with
    | .tiger => tigerMetrics collation rows now
    | .local => localMetrics collation rows now
  exclusions := excludedSummary rows now

end ReviewAgent
