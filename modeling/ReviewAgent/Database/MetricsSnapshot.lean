import ReviewAgent.Database.MetricsAccount
import ReviewAgent.Database.MetricsAgree
import ReviewAgent.Effects.Stretches

/-! `aggregate_llm_calls_by_agent` while other processes insert LLM calls: its two statements see
the table each at its own time. -/
namespace ReviewAgent

open Effects Regroup

/-- The clock and the two statements of `aggregate_llm_calls_by_agent`. -/
inductive MetricsOp where
  | now
  | aggregate (now : ℚ)
  | excluded (now : ℚ)

abbrev MetricsSignature : Signature where
  Op := MetricsOp
  Answer
    | .now => ℚ
    | .aggregate _ => Except Exc (List AgentMetrics)
    | .excluded _ => Except Exc ExclusionSummary

/-- `aggregate_llm_calls_by_agent()`. -/
def readLlmCallsByAgent : Program MetricsSignature Exc AgentMetricsAggregate := do
  let resolvedNow ← Program.perform (S := MetricsSignature) .now
  let rows ← Program.perform (S := MetricsSignature) (.aggregate resolvedNow)
  let metrics ← Program.ofExcept rows
  let excludedRow ← Program.perform (S := MetricsSignature) (.excluded resolvedNow)
  let exclusions ← Program.ofExcept excludedRow
  pure { metrics, exclusions }

/-- The time and the committed rows. -/
structure MetricsWorld where
  clock : ℚ
  rows : List AgentEvent

inductive MetricsMove where
  | tick (now : ℚ)
  | insert (row : AgentEvent)

/-- Time does not go back. `emit_llm_call` stamps a row with the time before it is written. -/
def MetricsWorld.move (w : MetricsWorld) : MetricsMove → Option MetricsWorld
  | .tick now => if w.clock ≤ now then some { w with clock := now } else none
  | .insert row =>
    if isLlmCall row = true ∧ row.ts ≤ w.clock then some { w with rows := w.rows ++ [row] }
    else none

/-- The connection commits after every statement, so each statement reads the rows that stand there
when it runs; a statement that fails raises. -/
def metricsMachine (backend : EventsBackend) (collation : Collation) :
    Machine MetricsSignature MetricsWorld (Option Exc) MetricsMove where
  perform _ w op failure :=
    match op with
    | .now => some (w, w.clock)
    | .aggregate now => some (w, match failure with
      | some e => .error e
      | none => .ok (aggregateLlmCallsByAgent backend collation w.rows now).metrics)
    | .excluded now => some (w, match failure with
      | some e => .error e
      | none => .ok (excludedSummary w.rows now))
  move := MetricsWorld.move

def MetricsMove.row : MetricsMove → Option AgentEvent
  | .tick _ => none
  | .insert row => some row

/-- The rows that some moves insert. -/
def insertedRows (moves : List MetricsMove) : List AgentEvent := moves.filterMap MetricsMove.row

/-- The rows inserted between the `n`-th operation and the next. -/
def insertedAt (es : List (Machine.Event (Option Exc) MetricsMove)) (n : ℕ) : List AgentEvent :=
  insertedRows (Machine.between n es)

/-- The time after some moves. -/
def clockAfter (clock : ℚ) : List MetricsMove → ℚ
  | [] => clock
  | .tick now :: moves => clockAfter now moves
  | .insert _ :: moves => clockAfter clock moves

/-- What the call takes for now. -/
def resolvedNow (w : MetricsWorld) (es : List (Machine.Event (Option Exc) MetricsMove)) : ℚ :=
  clockAfter w.clock (Machine.between 0 es)

def isTestFixture (row : AgentEvent) : Bool := likeAny testFixtureReviewIdPrefixes row.reviewId

/-- The calls that `future_dated_count` counts. -/
def futureDated (rows : List AgentEvent) (now : ℚ) : List AgentEvent :=
  (rows.filter isLlmCall).filter fun row => decide (now < row.ts)

/-- The metrics and the exclusions are those of the table at one moment of the call, and only rows
from before the call are reported as dated after it. -/
structure ReportsOneSnapshot (backend : EventsBackend) (collation : Collation) (w : MetricsWorld)
    (es : List (Machine.Event (Option Exc) MetricsMove)) (report : AgentMetricsAggregate) :
    Prop where
  snapshot : ∃ early v p, early <+: es ∧
    (metricsMachine backend collation).run 0 w readLlmCallsByAgent early = some (v, p) ∧
    report = aggregateLlmCallsByAgent backend collation v.rows (resolvedNow w es)
  genuine : report.exclusions.futureDatedCount = (futureDated w.rows (resolvedNow w es)).length

/-- No test fixture's row comes after another row. -/
def FixturesFirst (rows : List AgentEvent) : Prop :=
  rows.Pairwise fun earlier later => isTestFixture later = true → isTestFixture earlier = true

variable {backend : EventsBackend} {collation : Collation} {w w' v : MetricsWorld}
  {moves : List MetricsMove} {es : List (Machine.Event (Option Exc) MetricsMove)}
  {rows later : List AgentEvent} {now : ℚ}

/-- What some moves do to the table and to the time. -/
theorem steps_move (h : steps MetricsWorld.move w moves = some v) :
    v.rows = w.rows ++ insertedRows moves ∧ v.clock = clockAfter w.clock moves ∧
      w.clock ≤ v.clock ∧ ∀ row ∈ insertedRows moves, isLlmCall row = true ∧ row.ts ≤ v.clock := by
  induction moves generalizing w with
  | nil =>
    obtain rfl := Option.some.inj h
    simp [insertedRows, clockAfter]
  | cons move moves ih =>
    obtain ⟨u, hu, hrest⟩ := Option.bind_eq_some_iff.mp h
    obtain ⟨hrows, hclock, hle, hinserted⟩ := ih hrest
    cases move with
    | tick time =>
      simp only [MetricsWorld.move, Option.ite_none_right_eq_some, Option.some.injEq] at hu
      obtain ⟨htime, rfl⟩ := hu
      exact ⟨hrows, hclock, htime.trans hle, hinserted⟩
    | insert row =>
      simp only [MetricsWorld.move, Option.ite_none_right_eq_some, Option.some.injEq] at hu
      obtain ⟨⟨hcall, hts⟩, rfl⟩ := hu
      refine ⟨?_, hclock, hle, ?_⟩
      · simpa [insertedRows, MetricsMove.row] using hrows
      · intro other hother
        rcases List.mem_cons.mp hother with rfl | hother
        · exact ⟨hcall, hts.trans hle⟩
        · exact hinserted other hother

/-- The table at a moment of the call: the statements only read it. -/
theorem run_rows {p p' : Program MetricsSignature Exc AgentMetricsAggregate}
    (h : (metricsMachine backend collation).run 0 w p es = some (w', p')) :
    w'.rows = w.rows ++ insertedRows (Machine.moves es) := by
  induction es generalizing w p with
  | nil =>
    have hsame : w = w' ∧ p = p' := by simpa [Machine.run] using h
    simp [hsame.1, Machine.moves, insertedRows]
  | cons e es ih =>
    cases e with
    | move m =>
      simp only [Machine.run] at h
      cases hm : (metricsMachine backend collation).move w m with
      | none => simp [hm] at h
      | some u =>
        rw [hm] at h
        have hstep : steps MetricsWorld.move w [m] = some u :=
          Option.bind_eq_some_iff.mpr ⟨u, hm, rfl⟩
        rw [ih h, (steps_move hstep).1, List.append_assoc]
        simp only [Machine.moves, insertedRows, ← List.filterMap_append]
        rfl
    | act failure =>
      cases p with
      | done r => simp [Machine.run] at h
      | step op next =>
        simp only [Machine.run] at h
        cases hc : (metricsMachine backend collation).perform 0 w op failure with
        | none => simp [hc] at h
        | some x =>
          rw [hc] at h
          have hsame : x.1 = w := by
            cases op <;> exact (congrArg Prod.fst (Option.some.inj hc)).symm
          rw [ih h, hsame]
          rfl

/-- The rows that each statement of a call has read. -/
structure StatementsRead (backend : EventsBackend) (collation : Collation) (w : MetricsWorld)
    (es : List (Machine.Event (Option Exc) MetricsMove)) (report : AgentMetricsAggregate) :
    Prop where
  metrics : report.metrics = (aggregateLlmCallsByAgent backend collation
    (w.rows ++ insertedAt es 0 ++ insertedAt es 1) (resolvedNow w es)).metrics
  exclusions : report.exclusions = excludedSummary
    (w.rows ++ insertedAt es 0 ++ insertedAt es 1 ++ insertedAt es 2) (resolvedNow w es)
  moves : ∃ after, insertedRows (Machine.moves es) =
    insertedAt es 0 ++ insertedAt es 1 ++ insertedAt es 2 ++ after
  dated : ∀ row ∈ insertedAt es 0, row.ts ≤ resolvedNow w es
  calls : ∀ n < 3, ∀ row ∈ insertedAt es n, isLlmCall row = true

theorem statementsRead {report : AgentMetricsAggregate}
    (h : (metricsMachine backend collation).run 0 w readLlmCallsByAgent es =
      some (w', .done (.ok report))) : StatementsRead backend collation w es report := by
  obtain ⟨v₀, _, u₀, now, es₁, hv₀, hnow, hrun, hbetween₀, hmoves₀⟩ := Machine.run_step_done h
  obtain ⟨rfl, rfl⟩ : v₀ = u₀ ∧ v₀.clock = now := by simpa [metricsMachine] using hnow
  obtain ⟨v₁, failure₁, u₁, metrics, es₂, hv₁, hmetrics, hrun, hbetween₁, hmoves₁⟩ :=
    Machine.run_step_done hrun
  cases failure₁ with
  | some e =>
    obtain ⟨rfl, rfl⟩ : v₁ = u₁ ∧ .error e = metrics := by simpa [metricsMachine] using hmetrics
    cases Machine.run_done_result hrun
  | none =>
    obtain ⟨rfl, rfl⟩ : v₁ = u₁ ∧
        .ok (aggregateLlmCallsByAgent backend collation v₁.rows v₀.clock).metrics = metrics := by
      simpa [metricsMachine] using hmetrics
    obtain ⟨v₂, failure₂, u₂, exclusions, es₃, hv₂, hexclusions, hrun, hbetween₂, hmoves₂⟩ :=
      Machine.run_step_done hrun
    cases failure₂ with
    | some e =>
      obtain ⟨rfl, rfl⟩ : v₂ = u₂ ∧ .error e = exclusions := by
        simpa [metricsMachine] using hexclusions
      cases Machine.run_done_result hrun
    | none =>
      obtain ⟨rfl, rfl⟩ : v₂ = u₂ ∧ .ok (excludedSummary v₂.rows v₀.clock) = exclusions := by
        simpa [metricsMachine] using hexclusions
      have hreport := Except.ok.inj (Machine.run_done_result hrun)
      obtain ⟨hrows₀, hclock₀, -, hinserted₀⟩ := steps_move hv₀
      obtain ⟨hrows₁, -, -, hinserted₁⟩ := steps_move hv₁
      obtain ⟨hrows₂, -, -, hinserted₂⟩ := steps_move hv₂
      have hat₁ : insertedAt es 1 = insertedRows (Machine.between 0 es₁) := by
        rw [insertedAt, hbetween₀]
      have hat₂ : insertedAt es 2 = insertedRows (Machine.between 0 es₂) := by
        rw [insertedAt, hbetween₀, hbetween₁]
      rw [hrows₀] at hrows₁
      rw [hrows₁] at hrows₂
      refine ⟨?_, ?_, ?_, ?_, ?_⟩
      · rw [hreport, hat₁, resolvedNow, ← hclock₀, insertedAt, ← hrows₁]
      · rw [hreport, hat₂, hat₁, resolvedNow, ← hclock₀, insertedAt, ← hrows₂]
      · refine ⟨insertedRows (Machine.moves es₃), ?_⟩
        rw [hat₂, hat₁, hmoves₀, hmoves₁, hmoves₂]
        simp [insertedRows, insertedAt]
      · intro row hrow
        rw [resolvedNow, ← hclock₀]
        exact (hinserted₀ row hrow).2
      · intro n hn row hrow
        obtain rfl | rfl | rfl : n = 0 ∨ n = 1 ∨ n = 2 := by omega
        · exact (hinserted₀ row hrow).1
        · exact (hinserted₁ row (hat₁ ▸ hrow)).1
        · exact (hinserted₂ row (hat₂ ▸ hrow)).1

/-- The rows that the metrics count. -/
def countedRows (backend : EventsBackend) (rows : List AgentEvent) (now : ℚ) : List AgentEvent :=
  match backend with
  | .tiger => selectedRows rows now
  | .local => localRows rows now

theorem sum_callCount : ((aggregateLlmCallsByAgent backend collation rows now).metrics.map
    (·.callCount)).sum = (countedRows backend rows now).length := by
  cases backend with
  | tiger => exact sum_callCount_tiger
  | «local» => exact sum_callCount_local

theorem countedRows_append : countedRows backend (rows ++ later) now =
    countedRows backend rows now ++ countedRows backend later now := by
  cases backend <;> simp [countedRows, selectedRows, healthRows, localRows]

theorem mem_countedRows {row : AgentEvent} (hmem : row ∈ rows) (hcall : isLlmCall row = true)
    (hts : row.ts ≤ now) (hfixture : isTestFixture row = false) :
    row ∈ countedRows backend rows now := by
  have hfixtureId : likeAny agentHealth1mExcludedPrefixes row.reviewId = false := hfixture
  have hbucket : minuteBucket row.ts ≤ now := (minuteBucket_le row.ts).trans hts
  unfold isTestFixture at hfixture
  cases backend <;>
    simp [countedRows, selectedRows, healthRows, localRows, hmem, hcall, hts, hfixture, hfixtureId,
      hbucket]

/-- Rows that leave the metrics as they are count in none. -/
theorem isTestFixture_of_metrics_append (h :
    (aggregateLlmCallsByAgent backend collation (rows ++ later) now).metrics =
      (aggregateLlmCallsByAgent backend collation rows now).metrics) {row : AgentEvent}
    (hmem : row ∈ later) (hcall : isLlmCall row = true) (hts : row.ts ≤ now) :
    isTestFixture row = true := by
  have hlength : (countedRows backend (rows ++ later) now).length =
      (countedRows backend rows now).length := by
    rw [← @sum_callCount backend collation, h, sum_callCount]
  rw [countedRows_append, List.length_append] at hlength
  have hnone : countedRows backend later now = [] := by
    rw [← List.length_eq_zero_iff]
    omega
  by_contra hfixture
  have hcounted : row ∈ countedRows backend later now :=
    mem_countedRows hmem hcall hts (Bool.eq_false_iff.mpr hfixture)
  simp [hnone] at hcounted

/-- A test fixture's rows leave the metrics as they are. -/
theorem metrics_append (h : ∀ row ∈ later, isTestFixture row = true) :
    (aggregateLlmCallsByAgent backend collation (rows ++ later) now).metrics =
      (aggregateLlmCallsByAgent backend collation rows now).metrics := by
  cases backend with
  | tiger =>
    have hhealth : healthRows (rows ++ later) = healthRows rows := by
      have hlater : healthRows later = [] := by
        rw [healthRows, List.filter_eq_nil_iff]
        intro row hrow
        have hfixtureId : likeAny agentHealth1mExcludedPrefixes row.reviewId = true := h row hrow
        simp [hfixtureId]
      rw [healthRows, List.filter_append]
      change healthRows rows ++ healthRows later = healthRows rows
      rw [hlater, List.append_nil]
    simp only [aggregateLlmCallsByAgent, tigerMetrics, tigerBuckets, agentHealth1m, hhealth]
  | «local» =>
    have hlater : localRows later now = [] := by
      rw [localRows, List.filter_eq_nil_iff]
      intro row hrow
      have hfixtureId : likeAny testFixtureReviewIdPrefixes row.reviewId = true := h row hrow
      simp [hfixtureId]
    have hlocal : localRows (rows ++ later) now = localRows rows now := by
      rw [localRows, List.filter_append]
      change localRows rows now ++ localRows later now = localRows rows now
      rw [hlater, List.append_nil]
    simp only [aggregateLlmCallsByAgent, localMetrics, hlocal]

theorem excludedSummary_append (h : ∀ row ∈ later, excludes now row = false) :
    excludedSummary (rows ++ later) now = excludedSummary rows now := by
  have hlater : later.filter (excludes now) = [] := by
    rw [List.filter_eq_nil_iff]
    intro row hrow
    simp [h row hrow]
  rw [← excludedSummary_filter, List.filter_append, hlater, List.append_nil,
    excludedSummary_filter]

/-- Rows that leave the exclusions as they are are not excluded. -/
theorem excludes_of_excludedSummary_append
    (h : excludedSummary (rows ++ later) now = excludedSummary rows now) {row : AgentEvent}
    (hmem : row ∈ later) (hcall : isLlmCall row = true) : excludes now row = false := by
  have hcount : (((rows ++ later).filter isLlmCall).filter (excludes now)).length =
      ((rows.filter isLlmCall).filter (excludes now)).length :=
    congrArg ExclusionSummary.excludedRowCount h
  rw [List.filter_append, List.filter_append, List.length_append] at hcount
  have hnone : (later.filter isLlmCall).filter (excludes now) = [] := by
    rw [← List.length_eq_zero_iff]
    omega
  rw [List.filter_eq_nil_iff] at hnone
  exact Bool.eq_false_iff.mpr (hnone row (List.mem_filter.mpr ⟨hmem, hcall⟩))

/-- Rows in which no test fixture's comes late are those of test fixtures and then others. -/
theorem FixturesFirst.exists_append (h : FixturesFirst rows) : ∃ fixtures others,
    rows = fixtures ++ others ∧ (∀ row ∈ fixtures, isTestFixture row = true) ∧
      ∀ row ∈ others, isTestFixture row = false := by
  induction rows with
  | nil => exact ⟨[], [], rfl, by simp, by simp⟩
  | cons row rows ih =>
    obtain ⟨hrow, hrows⟩ := List.pairwise_cons.mp h
    cases hfixture : isTestFixture row with
    | true =>
      obtain ⟨fixtures, others, rfl, hfixtures, hothers⟩ := ih hrows
      exact ⟨row :: fixtures, others, rfl, by simpa [hfixture] using hfixtures, hothers⟩
    | false =>
      refine ⟨[], row :: rows, rfl, by simp, ?_⟩
      intro other hother
      rcases List.mem_cons.mp hother with rfl | hother
      · exact hfixture
      · exact Bool.eq_false_iff.mpr fun hother' => by simp [hrow other hother hother'] at hfixture

theorem fixturesFirst_append {fixtures others : List AgentEvent}
    (hfixtures : ∀ row ∈ fixtures, isTestFixture row = true)
    (hothers : ∀ row ∈ others, isTestFixture row = false) : FixturesFirst (fixtures ++ others) := by
  refine List.pairwise_append.mpr ⟨?_, ?_, ?_⟩
  · exact List.pairwise_of_forall_mem_list fun a ha _ _ _ => hfixtures a ha
  · exact List.pairwise_of_forall_mem_list fun _ _ b hb hb' => by simp [hothers b hb] at hb'
  · exact fun a ha _ _ _ => hfixtures a ha

/-- Calls are counted as dated after now exactly if one is. -/
theorem futureDated_append_length_iff (hcalls : ∀ row ∈ later, isLlmCall row = true) :
    (futureDated (rows ++ later) now).length = (futureDated rows now).length ↔
      ∀ row ∈ later, row.ts ≤ now := by
  have hlater : later.filter isLlmCall = later := List.filter_eq_self.mpr hcalls
  rw [futureDated, List.filter_append, List.filter_append, List.length_append, hlater, futureDated,
    Nat.add_eq_left, List.length_eq_zero_iff, List.filter_eq_nil_iff]
  simp only [decide_eq_true_eq, not_lt]

/-- Where the metrics of one table and the exclusions of a later one are those of a single table, no
test fixture's row comes after another between the two. -/
theorem fixturesFirst_of_snapshot {table : List AgentEvent}
    (hcalls : ∀ row ∈ later, isLlmCall row = true) (hdated : ∀ row ∈ later, row.ts ≤ now)
    (hinitial : table <+: rows ++ later ∨ rows ++ later <+: table)
    (hmetrics : (aggregateLlmCallsByAgent backend collation rows now).metrics =
      (aggregateLlmCallsByAgent backend collation table now).metrics)
    (hexclusions : excludedSummary (rows ++ later) now = excludedSummary table now) :
    FixturesFirst later := by
  have hfixture : ∀ row, isTestFixture row = true → excludes now row = true := by
    intro row hrow
    rw [excludes, Bool.or_eq_true]
    exact Or.inr hrow
  rcases hinitial with hinitial | ⟨extra, rfl⟩
  · rcases List.prefix_or_prefix_of_prefix hinitial (List.prefix_append rows later) with
      ⟨extra, rfl⟩ | ⟨extra, rfl⟩
    · -- the table stood before the metrics were read: no row of a fixture came since
      rw [List.append_assoc] at hexclusions
      have hnone : ∀ row ∈ later, isTestFixture row = false := fun row hrow => by
        have hrow' := excludes_of_excludedSummary_append hexclusions
          (List.mem_append_right _ hrow) (hcalls row hrow)
        exact Bool.eq_false_iff.mpr fun h => by simp [hfixture row h] at hrow'
      exact List.pairwise_of_forall_mem_list fun _ _ row hrow h => by simp [hnone row hrow] at h
    · obtain ⟨others, rfl⟩ := (List.prefix_append_right_inj rows).mp hinitial
      rw [← List.append_assoc] at hexclusions
      refine fixturesFirst_append ?_ ?_
      · intro row hrow
        exact isTestFixture_of_metrics_append hmetrics.symm hrow
          (hcalls row (List.mem_append_left _ hrow)) (hdated row (List.mem_append_left _ hrow))
      · intro row hrow
        have hrow' := excludes_of_excludedSummary_append hexclusions hrow
          (hcalls row (List.mem_append_right _ hrow))
        exact Bool.eq_false_iff.mpr fun h => by simp [hfixture row h] at hrow'
  · -- the table stood after the exclusions were read: all rows since the metrics are fixtures'
    rw [List.append_assoc] at hmetrics
    have hall : ∀ row ∈ later, isTestFixture row = true := fun row hrow =>
      isTestFixture_of_metrics_append hmetrics.symm (List.mem_append_left _ hrow)
        (hcalls row hrow) (hdated row hrow)
    exact List.pairwise_of_forall_mem_list fun row hrow _ _ _ => hall row hrow

/-- Some moment of a run has the table that the first inserts lead to. -/
theorem exists_moment {p p' : Program MetricsSignature Exc AgentMetricsAggregate}
    (hrun : (metricsMachine backend collation).run 0 w p es = some (w', p'))
    {first : List AgentEvent} (hfirst : first <+: insertedRows (Machine.moves es)) :
    ∃ early v q, early <+: es ∧
      (metricsMachine backend collation).run 0 w p early = some (v, q) ∧
      v.rows = w.rows ++ first := by
  obtain ⟨last, hlast⟩ := hfirst
  obtain ⟨moves₁, moves₂, hmoves, hmoves₁, -⟩ := List.filterMap_eq_append_iff.mp hlast.symm
  obtain ⟨early, late, rfl, hearly, -⟩ := List.filterMap_eq_append_iff.mp hmoves
  obtain ⟨⟨v, q⟩, hv⟩ := Machine.run_of_append hrun
  refine ⟨early, v, q, List.prefix_append _ _, hv, ?_⟩
  rw [run_rows hv, Machine.moves, hearly, insertedRows, hmoves₁]

/-- A call reports nothing made meanwhile as dated after it exactly if what is inserted before its
second statement was stamped before it read the clock. -/
theorem StatementsRead.futureDatedCount_iff {report : AgentMetricsAggregate}
    (hread : StatementsRead backend collation w es report) :
    report.exclusions.futureDatedCount = (futureDated w.rows (resolvedNow w es)).length ↔
      ∀ row ∈ insertedAt es 1 ++ insertedAt es 2, row.ts ≤ resolvedNow w es := by
  have hcalls : ∀ row ∈ insertedAt es 0 ++ (insertedAt es 1 ++ insertedAt es 2),
      isLlmCall row = true := by
    intro row hrow
    simp only [List.mem_append] at hrow
    rcases hrow with hrow | hrow | hrow
    · exact hread.calls 0 (by omega) row hrow
    · exact hread.calls 1 (by omega) row hrow
    · exact hread.calls 2 (by omega) row hrow
  have hcount : report.exclusions.futureDatedCount =
      (futureDated (w.rows ++ (insertedAt es 0 ++ (insertedAt es 1 ++ insertedAt es 2)))
        (resolvedNow w es)).length := by
    rw [hread.exclusions]
    simp only [List.append_assoc]
    rfl
  rw [hcount, futureDated_append_length_iff hcalls]
  constructor
  · exact fun h row hrow => h row (List.mem_append_right _ hrow)
  · intro h row hrow
    rcases List.mem_append.mp hrow with hrow | hrow
    · exact hread.dated row hrow
    · exact h row hrow

/-- A call reports one snapshot, and no call made meanwhile as dated after it, exactly if what is
inserted before its second statement was stamped before the call read the clock, and if between
the two statements no test fixture's row comes after another. -/
theorem reports_one_snapshot_iff {report : AgentMetricsAggregate}
    (hrun : (metricsMachine backend collation).run 0 w readLlmCallsByAgent es =
      some (w', .done (.ok report))) :
    ReportsOneSnapshot backend collation w es report ↔
      (∀ row ∈ insertedAt es 1 ++ insertedAt es 2, row.ts ≤ resolvedNow w es) ∧
        FixturesFirst (insertedAt es 2) := by
  have hread := statementsRead hrun
  constructor
  · intro h
    have hdated := hread.futureDatedCount_iff.mp h.genuine
    refine ⟨hdated, ?_⟩
    obtain ⟨early, v, q, ⟨late, rfl⟩, hv, hreport⟩ := h.snapshot
    obtain ⟨after, hafter⟩ := hread.moves
    have hmoves : insertedRows (Machine.moves (early ++ late)) =
        insertedRows (Machine.moves early) ++ insertedRows (Machine.moves late) := by
      simp only [Machine.moves, insertedRows, List.filterMap_append]
    have htable : v.rows <+: w.rows ++ insertedRows (Machine.moves (early ++ late)) := by
      rw [run_rows hv, hmoves]
      exact ⟨insertedRows (Machine.moves late), by rw [List.append_assoc]⟩
    have hlast : w.rows ++ insertedAt (early ++ late) 0 ++ insertedAt (early ++ late) 1 ++
        insertedAt (early ++ late) 2 <+:
          w.rows ++ insertedRows (Machine.moves (early ++ late)) := by
      rw [hafter]
      exact ⟨after, by simp only [List.append_assoc]⟩
    refine fixturesFirst_of_snapshot (hread.calls 2 (by omega))
      (fun row hrow => hdated row (List.mem_append_right _ hrow))
      (List.prefix_or_prefix_of_prefix htable hlast) (hread.metrics.symm.trans ?_)
      (hread.exclusions.symm.trans ?_)
    · exact congrArg AgentMetricsAggregate.metrics hreport
    · exact congrArg AgentMetricsAggregate.exclusions hreport
  · rintro ⟨hdated, hfirst⟩
    refine ⟨?_, hread.futureDatedCount_iff.mpr hdated⟩
    obtain ⟨fixtures, others, hsplit, hfixtures, hothers⟩ := hfirst.exists_append
    obtain ⟨after, hafter⟩ := hread.moves
    have hinitial : insertedAt es 0 ++ insertedAt es 1 ++ fixtures <+:
        insertedRows (Machine.moves es) := by
      rw [hafter, hsplit]
      exact ⟨others ++ after, by simp only [List.append_assoc]⟩
    obtain ⟨early, v, q, hearly, hv, hrows⟩ := exists_moment hrun hinitial
    have htable : v.rows = w.rows ++ insertedAt es 0 ++ insertedAt es 1 ++ fixtures := by
      rw [hrows]
      simp only [List.append_assoc]
    have hincluded : ∀ row ∈ others, excludes (resolvedNow w es) row = false := by
      intro row hrow
      have hts : row.ts ≤ resolvedNow w es :=
        hdated row (List.mem_append_right _ (hsplit ▸ List.mem_append_right _ hrow))
      have hreview : likeAny testFixtureReviewIdPrefixes row.reviewId = false := hothers row hrow
      simp [excludes, hts, hreview]
    have hmetrics : report.metrics = (aggregateLlmCallsByAgent backend collation v.rows
        (resolvedNow w es)).metrics := by
      rw [hread.metrics, htable, metrics_append hfixtures]
    have hexclusions : report.exclusions = excludedSummary v.rows (resolvedNow w es) := by
      rw [hread.exclusions, hsplit, ← List.append_assoc, ← htable,
        excludedSummary_append hincluded]
    refine ⟨early, v, q, hearly, hv, ?_⟩
    calc report = ⟨report.metrics, report.exclusions⟩ := rfl
      _ = aggregateLlmCallsByAgent backend collation v.rows (resolvedNow w es) := by
        rw [hmetrics, hexclusions]
        rfl

/-- A call at 01:00 of the epoch finds two rows of its own second written meanwhile, and reports one
snapshot. -/
theorem reports_one_snapshot_of_same_second : ∃ w' report,
    (metricsMachine .local .codePoints).run 0 ⟨60, [callAt 30]⟩ readLlmCallsByAgent
      [.act none, .move (.insert (callAt 60)), .act none, .move (.insert (callAt 60)), .act none] =
        some (w', .done (.ok report)) ∧
    ReportsOneSnapshot .local .codePoints ⟨60, [callAt 30]⟩
      [.act none, .move (.insert (callAt 60)), .act none, .move (.insert (callAt 60)), .act none]
      report := by
  have hreturns : ((metricsMachine .local .codePoints).returns 0 ⟨60, [callAt 30]⟩
      readLlmCallsByAgent
      [.act none, .move (.insert (callAt 60)), .act none, .move (.insert (callAt 60)), .act none]
      fun _ _ => true) = true := by
    decide +kernel
  obtain ⟨w', report, hrun, -⟩ := Machine.exists_of_returns hreturns
  have hdated : ∀ row ∈ [callAt 60, callAt 60], row.ts ≤ 60 := by
    decide +kernel
  refine ⟨w', report, hrun, (reports_one_snapshot_iff hrun).mpr ⟨hdated, ?_⟩⟩
  exact List.pairwise_singleton _ (callAt 60)

/-- A call that is made and recorded between the reading of the clock and the first statement is
reported as dated after now. -/
theorem later_call_reported_future_dated : ¬ ∀ (backend : EventsBackend) (collation : Collation)
    (w w' : MetricsWorld) (es : List (Machine.Event (Option Exc) MetricsMove))
    (report : AgentMetricsAggregate),
    (metricsMachine backend collation).run 0 w readLlmCallsByAgent es =
        some (w', .done (.ok report)) →
      ReportsOneSnapshot backend collation w es report := by
  intro h
  have hreturns : ((metricsMachine .local .codePoints).returns 0 ⟨60, []⟩ readLlmCallsByAgent
      [.act none, .move (.tick 61), .move (.insert (callAt 61)), .act none, .act none]
      fun _ _ => true) = true := by
    decide +kernel
  obtain ⟨w', report, hrun, -⟩ := Machine.exists_of_returns hreturns
  have hdated := (statementsRead hrun).futureDatedCount_iff.mp (h _ _ _ _ _ _ hrun).genuine
  have hlater : (61 : ℚ) ≤ 60 := hdated (callAt 61) (by simp [insertedAt, insertedRows,
    Machine.between, MetricsMove.row])
  norm_num at hlater

end ReviewAgent
