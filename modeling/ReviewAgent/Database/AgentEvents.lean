import ReviewAgent.Economics.Budget

/-! The `agent_events` table: what its columns hold, and the sum of a day's LLM costs. -/
namespace ReviewAgent

/-- `TEXT` holds any characters but U+0000. -/
def storableText (text : String) : Bool := !text.toList.contains (Char.ofNat 0)

/-- `INTEGER` holds 32 bits. -/
def storableInteger (n : ℕ) : Bool := decide (n < 2 ^ 31)

/-- The columns hold the event's values. -/
def AgentEvent.storable (event : AgentEvent) : Bool :=
  storableText event.reviewId && event.agent.all storableText && event.model.all storableText &&
    event.outcome.all storableText && event.tokensIn.all storableInteger &&
    event.tokensOut.all storableInteger && event.latencyMs.all storableInteger

/-- `psycopg.DataError`. -/
def dataError : Exc := .plain (.other "DataError" (.other "DatabaseError" .psycopgError)) ""

/-- The rows, each with an id from a `BIGSERIAL`. -/
structure AgentEvents where
  rows : List AgentEvent
  length_lt : rows.length < 2 ^ 63

namespace AgentEvents

variable (table : AgentEvents)

def empty : AgentEvents := ⟨[], by norm_num⟩

/-- `event_type = 'llm.call' AND ts >= day_start AND ts < day_end`. -/
def ofDay (dayStart : ℚ) (event : AgentEvent) : Bool :=
  event.eventType = .llmCall && decide (dayStart ≤ event.ts) &&
    decide (event.ts < dayStart + daySeconds)

/-- The costs that `SUM(cost_usd)` adds up: null is skipped. -/
def llmCosts (dayStart : ℚ) : List ℕ := (table.rows.filter (ofDay dayStart)).filterMap (·.costUsd)

/-- The recorded LLM spend of a day, in millionths of a dollar. -/
def recorded (dayStart : ℚ) : ℕ := (table.llmCosts dayStart).sum

theorem cost_lt {dayStart : ℚ} {cost : ℕ} (h : cost ∈ table.llmCosts dayStart) :
    cost < 10 ^ 10 := by
  obtain ⟨event, -, hcost⟩ := List.mem_filterMap.mp h
  have hcheck := event.valid ("cost_usd", event.costUsd.all fun cost => cost < 10 ^ 10)
    (by simp [EventFields.checks])
  simpa [hcost] using hcheck

theorem recorded_lt (dayStart : ℚ) : table.recorded dayStart < 10 ^ 10 * 2 ^ 63 := by
  have hlen : (table.llmCosts dayStart).length < 2 ^ 63 :=
    lt_of_le_of_lt ((List.length_filterMap_le _ _).trans (List.length_filter_le _ _))
      table.length_lt
  have hsum : table.recorded dayStart ≤ (table.llmCosts dayStart).length * 10 ^ 10 :=
    List.sum_le_card_nsmul _ _ fun cost hcost => (table.cost_lt hcost).le
  calc table.recorded dayStart ≤ (table.llmCosts dayStart).length * 10 ^ 10 := hsum
    _ < 10 ^ 10 * 2 ^ 63 := by omega

/-- `sum_llm_cost_for_day`. -/
def sumLlmCostForDay (dayStart : ℚ) : Spend where
  microUsd := if table.llmCosts dayStart = [] then none else some (table.recorded dayStart)
  microUsd_lt := by
    intro n hn
    split at hn
    · cases hn
    · exact Option.some.inj hn ▸ table.recorded_lt dayStart

theorem sumLlmCostForDay_value (dayStart : ℚ) :
    (table.sumLlmCostForDay dayStart).value = table.recorded dayStart / 10 ^ 6 := by
  simp only [sumLlmCostForDay, Spend.value]
  split
  · rename_i hnil
    simp [recorded, hnil]
  · rfl

/-- `insert_event` on a table that is there; a table without a free id takes no more rows. -/
def insert (event : AgentEvent) : Option (AgentEvents × Except Exc Unit) :=
  if event.storable then
    if h : table.rows.length + 1 < 2 ^ 63 then
      some (⟨table.rows ++ [event], by simpa using h⟩, .ok ())
    else none
  else some (table, .error dataError)

variable {table} {event : AgentEvent} {table' : AgentEvents} {written : Except Exc Unit}

/-- An insertion that happens adds the row if the columns hold it, and is refused otherwise. -/
theorem insert_cases (h : table.insert event = some (table', written)) :
    (event.storable = true ∧ table'.rows = table.rows ++ [event] ∧ written = .ok ()) ∨
      (event.storable = false ∧ table' = table ∧ written = .error dataError) := by
  unfold insert at h
  split at h
  · rename_i hs
    split at h
    · obtain ⟨rfl, rfl⟩ := Prod.mk.inj (Option.some.inj h)
      exact Or.inl ⟨hs, rfl, rfl⟩
    · cases h
  · rename_i hs
    obtain ⟨rfl, rfl⟩ := Prod.mk.inj (Option.some.inj h)
    exact Or.inr ⟨by simpa using hs, rfl, rfl⟩

theorem recorded_append (h : table'.rows = table.rows ++ [event]) (dayStart : ℚ) :
    table'.recorded dayStart = table.recorded dayStart +
      if ofDay dayStart event then event.costUsd.getD 0 else 0 := by
  simp only [recorded, llmCosts, h, List.filter_append, List.filterMap_append, List.sum_append]
  congr 1
  by_cases hday : ofDay dayStart event = true
  · cases hcost : event.costUsd <;> simp [hday, hcost]
  · simp [hday]

end AgentEvents

end ReviewAgent
