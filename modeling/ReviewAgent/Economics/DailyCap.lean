import ReviewAgent.Economics.Ledger

/-! The cap of a day against what its calls returned, the judge's included. -/
namespace ReviewAgent

open Effects SpendStage

/-- The spend, in millionths of a dollar, meets the cap. -/
def Usd.MetBy (cap : Usd) (microUsd : ℕ) : Prop := cap.value ≤ microUsd / 10 ^ 6

instance (cap : Usd) (microUsd : ℕ) : Decidable (cap.MetBy microUsd) :=
  inferInstanceAs (Decidable (cap.value ≤ microUsd / 10 ^ 6))

/-- `JUDGE_MODEL`. -/
def judgeModel : String := "claude-sonnet-5"

/-- `judge_settings`. -/
def judgeSettings (base : Settings) : Settings := { base with anthropicModel := judgeModel }

/-- The call that `score_review` makes. -/
def judgeCall (base : Settings) (system user : String) : LlmCall where
  settings := judgeSettings base
  system := system
  user := user
  agent := "judge"
  reviewId := none

section

variable {k : ℤ} {call : LlmCall} {w w' : SpendWorld} {r : Except Exc LlmResponse}

theorem blocks_iff {cap : Usd} {table : AgentEvents} {day : ℚ} :
    (BudgetGuard.mk cap).blocks (table.sumLlmCostForDay day) = true ↔
      cap.MetBy (table.recorded day) := by
  rw [BudgetGuard.blocks, decide_eq_true_iff, AgentEvents.sumLlmCostForDay_value, Usd.MetBy]

/-- What a call alone knows of the day before it has ended, and what it ends with. -/
def Solo (day : ℚ) (w₀ : SpendWorld) (call : LlmCall) (w : SpendWorld) : SpendStage → Prop
  | .fresh => InDay day w.now ∧ w.table = w₀.table ∧ w.requests = w₀.requests
  | .dated now => InDay day now ∧ w.table = w₀.table ∧ w.requests = w₀.requests
  | .admitted => ¬ call.settings.budgetDailyCapUsd.MetBy (w₀.table.recorded day) ∧
      w.requests = w₀.requests
  | .answered _ | .priced .. | .stamped .. =>
    ¬ call.settings.budgetDailyCapUsd.MetBy (w₀.table.recorded day) ∧ w₀.requests < w.requests
  | .ended r =>
    (call.settings.budgetDailyCapUsd.MetBy (w₀.table.recorded day) ∧
      (∃ spent, r = .error (budgetExceeded spent call.settings.budgetDailyCapUsd)) ∧
        w.requests = w₀.requests) ∨
      (¬ call.settings.budgetDailyCapUsd.MetBy (w₀.table.recorded day) ∧
        ¬ ((∃ spent, r = .error (budgetExceeded spent call.settings.budgetDailyCapUsd)) ∧
          w.requests = w₀.requests))

theorem client_error {settings : Settings} {e : Exc}
    (h : AnthropicLlmClient.client settings = .error e) : e = llmConfigurationError := by
  unfold AnthropicLlmClient.client at h
  split at h
  · cases h
  · exact (Except.error.inj h).symm

variable {w₀ : SpendWorld} {s s' : SpendStage}

theorem Solo.advance (h : Solo (k * daySeconds) w₀ call w s) (ha : Advance call w s w' s') :
    Solo (k * daySeconds) w₀ call w' s' := by
  cases ha with
  | date => exact h
  | sum now =>
    obtain ⟨hday, htable, hrequests⟩ := h
    rw [startOfDayUtc_of_inDay hday, htable, afterSum]
    split
    · rename_i hblocks
      exact Or.inl ⟨blocks_iff.mp hblocks, ⟨_, rfl⟩, hrequests⟩
    · rename_i hblocks
      rw [blocks_iff] at hblocks
      cases hclient : AnthropicLlmClient.client call.settings with
      | error e =>
        refine Or.inr ⟨hblocks, ?_⟩
        rw [client_error hclient]
        rintro ⟨⟨spent, he⟩, -⟩
        cases he
      | ok u => exact ⟨hblocks, hrequests⟩
  | answer message =>
    obtain ⟨hnot, hrequests⟩ := h
    cases message with
    | error e =>
      refine Or.inr ⟨hnot, ?_⟩
      rintro ⟨-, hsame⟩
      simp only at hsame
      omega
    | ok m => exact ⟨hnot, by simp only; omega⟩
  | time message ms hms =>
    obtain ⟨hnot, hlt⟩ := h
    have hended : ∀ r, Solo (k * daySeconds) w₀ call w (.ended r) := by
      refine fun r => Or.inr ⟨hnot, ?_⟩
      rintro ⟨-, hsame⟩
      omega
    simp only [afterLatency]
    cases call.cost message with
    | error e => exact hended _
    | ok costUsd =>
      cases call.reviewId with
      | none => exact hended _
      | some reviewId => exact ⟨hnot, hlt⟩
  | stamp reviewId message latencyMs costUsd =>
    obtain ⟨hnot, hlt⟩ := h
    simp only [afterStamp]
    split
    · refine Or.inr ⟨hnot, ?_⟩
      rintro ⟨-, hsame⟩
      omega
    · exact ⟨hnot, hlt⟩
  | write r event table written hinsert =>
    obtain ⟨hnot, hlt⟩ := h
    have hended : ∀ r, Solo (k * daySeconds) w₀ call { w with table := table } (.ended r) := by
      refine fun r => Or.inr ⟨hnot, ?_⟩
      rintro ⟨-, hsame⟩
      simp only at hsame
      omega
    cases written with
    | ok u => exact hended _
    | error e =>
      simp only [afterWrite]
      repeat' split
      all_goals exact hended _

theorem Solo.move {seconds : ℚ} (h : Solo (k * daySeconds) w₀ call w s)
    (hw : (spending (k * daySeconds)).move w seconds = some w') :
    Solo (k * daySeconds) w₀ call w' s := by
  simp only [spending] at hw
  split at hw
  · rename_i hlt
    obtain rfl := Option.some.inj hw
    cases s with
    | fresh => exact ⟨⟨by linarith [h.1.1], hlt.2⟩, h.2⟩
    | _ => exact h
  · cases hw

theorem Solo.run {i : ℕ} {es : List (Machine.Event SpendChoice ℚ)}
    (h : Solo (k * daySeconds) w₀ call w s)
    (hrun : (spending (k * daySeconds)).run i w (program call s) es = some (w', .done r)) :
    Solo (k * daySeconds) w₀ call w' (.ended r) := by
  induction es generalizing w s with
  | nil =>
    obtain ⟨rfl, hdone⟩ := Prod.mk.inj (Option.some.inj hrun)
    exact program_done.mp hdone ▸ h
  | cons e es ih =>
    cases e with
    | move seconds =>
      simp only [Machine.run] at hrun
      cases hw : (spending (k * daySeconds)).move w seconds with
      | none => simp [hw] at hrun
      | some w₁ =>
        rw [hw] at hrun
        exact ih (h.move hw) hrun
    | act choice =>
      cases hp : program call s with
      | done r' => simp [hp, Machine.run] at hrun
      | step op next =>
        rw [hp] at hrun
        simp only [Machine.run] at hrun
        cases hw : (spending (k * daySeconds)).perform i w op choice with
        | none => simp [hw] at hrun
        | some x =>
          obtain ⟨w₁, answer⟩ := x
          obtain ⟨s₁, hadvance, hnext⟩ := perform_cases hw hp
          rw [hw] at hrun
          change (spending (k * daySeconds)).run i w₁ (next answer) es = _ at hrun
          rw [hnext] at hrun
          exact ih (h.advance hadvance) hrun

end

/-- Once the returned responses meet the cap the next call is blocked before the provider is asked,
exactly when those of them that were booked, with what the table held before, meet it. -/
theorem next_call_blocked_iff {k : ℤ} {w₀ : SpendWorld} {ss : List SpendSched} {c : SpendConfig}
    {next : LlmCall} {es : List (Machine.Event SpendChoice ℚ)} {w' : SpendWorld}
    {r : Except Exc LlmResponse} (hday : InDay (k * daySeconds) w₀.now)
    (hrun : steps (spendStep (k * daySeconds)) ⟨w₀, []⟩ ss = some c)
    (hnext : (spending (k * daySeconds)).run c.threads.length c.world next.complete es =
      some (w', .done r)) :
    (next.settings.budgetDailyCapUsd.MetBy (returnedCost (responses (started ss) c)) →
      (∃ spent, r = .error (budgetExceeded spent next.settings.budgetDailyCapUsd)) ∧
        w'.requests = c.world.requests) ↔
    (next.settings.budgetDailyCapUsd.MetBy (returnedCost (responses (started ss) c)) →
      next.settings.budgetDailyCapUsd.MetBy
        (w₀.table.recorded (k * daySeconds) + bookedCost (responses (started ss) c))) := by
  obtain ⟨hin, hrecorded⟩ := recorded_run hday hrun
  have hsolo : Solo (k * daySeconds) c.world next c.world .fresh := ⟨hin, rfl, rfl⟩
  refine forall_congr' fun _ => ?_
  rw [← hrecorded]
  rcases hsolo.run hnext with ⟨hmet, hblocked⟩ | ⟨hnot, hpassed⟩
  · exact iff_of_true hblocked hmet
  · exact iff_of_false hpassed hnot

/-- A cap of a cent, a key, and the default model. -/
def centSettings : Settings where
  anthropicApiKey := some "key"
  anthropicModel := "claude-haiku-4-5"
  budgetDailyCapUsd := ⟨1, 2⟩
  hitlConfidenceThreshold := .ofThousandths 800 (by decide)

/-- An answer that costs a cent at the default model's prices, and two at the judge's. -/
def centMessage : Message := ⟨[.text "\x7b\x7d"], 10000, 0⟩

/-- One call, answered and returned. -/
def returnedCall (call : LlmCall) : List SpendSched :=
  [.start call, .act 0 .go, .act 0 .go, .act 0 (.answer (.ok centMessage)), .act 0 (.latency 5)]

/-- What the next call does, undisturbed. -/
def answeredCall : List (Machine.Event SpendChoice ℚ) :=
  [.act .go, .act .go, .act (.answer (.ok centMessage)), .act (.latency 5)]

/-- One call of the judge spends the cap, and the next one is sent to the provider. -/
theorem judge_spend_not_blocked : ¬ ∀ (k : ℤ) (w₀ : SpendWorld) (ss : List SpendSched)
    (c : SpendConfig) (next : LlmCall) (es : List (Machine.Event SpendChoice ℚ))
    (w' : SpendWorld) (r : Except Exc LlmResponse), InDay (k * daySeconds) w₀.now →
    steps (spendStep (k * daySeconds)) ⟨w₀, []⟩ ss = some c →
    (spending (k * daySeconds)).run c.threads.length c.world next.complete es =
      some (w', .done r) →
    next.settings.budgetDailyCapUsd.MetBy (returnedCost (responses (started ss) c)) →
      (∃ spent, r = .error (budgetExceeded spent next.settings.budgetDailyCapUsd)) ∧
        w'.requests = c.world.requests := by
  intro h
  have hrun : (steps (spendStep ((0 : ℤ) * daySeconds)) ⟨⟨0, .empty, 0, []⟩, []⟩
      (returnedCall (judgeCall centSettings "" ""))).any (fun c =>
        decide (centSettings.budgetDailyCapUsd.MetBy (returnedCost
          (responses (started (returnedCall (judgeCall centSettings "" ""))) c))) &&
        (spending ((0 : ℤ) * daySeconds)).finishes c.threads.length c.world
          (judgeCall centSettings "" "").complete answeredCall fun _ w' =>
            w'.requests != c.world.requests) = true := by
    decide +kernel
  obtain ⟨c, hc, hcheck⟩ := (Option.any_eq_true _ _).mp hrun
  obtain ⟨hmet, hnext⟩ := Bool.and_eq_true_iff.mp hcheck
  obtain ⟨w', r, hrun', hrequests⟩ := Machine.exists_of_finishes hnext
  have hday : InDay ((0 : ℤ) * daySeconds) 0 := by constructor <;> norm_num [daySeconds]
  have hsame := (h 0 ⟨0, .empty, 0, []⟩ _ c (judgeCall centSettings "" "") answeredCall w' r hday
    hc hrun' (of_decide_eq_true hmet)).2
  simp [hsame] at hrequests

/-- A call made for a review. -/
def reviewCall : LlmCall := ⟨centSettings, "", "", "security", some "local-1"⟩

/-- One call for a review, answered, booked and returned. -/
def bookedCall : List SpendSched := returnedCall reviewCall ++ [.act 0 .go, .act 0 .go]

/-- A call that was booked has met the cap, and the next one is blocked. -/
theorem next_call_blocked_after_bookedCall : ∃ (c : SpendConfig) (w' : SpendWorld) (spent : Spend),
    steps (spendStep ((0 : ℤ) * daySeconds)) ⟨⟨0, .empty, 0, []⟩, []⟩ bookedCall = some c ∧
    reviewCall.settings.budgetDailyCapUsd.MetBy
      (returnedCost (responses (started bookedCall) c)) ∧
    (spending ((0 : ℤ) * daySeconds)).run c.threads.length c.world reviewCall.complete
      [.act .go, .act .go] =
        some (w', .done (.error (budgetExceeded spent reviewCall.settings.budgetDailyCapUsd))) ∧
    w'.requests = c.world.requests := by
  have hrun : (steps (spendStep ((0 : ℤ) * daySeconds)) ⟨⟨0, .empty, 0, []⟩, []⟩
      bookedCall).any (fun c =>
        decide (reviewCall.settings.budgetDailyCapUsd.MetBy
          (returnedCost (responses (started bookedCall) c))) &&
        (decide (reviewCall.settings.budgetDailyCapUsd.MetBy
          (AgentEvents.empty.recorded ((0 : ℤ) * daySeconds) +
            bookedCost (responses (started bookedCall) c))) &&
        (spending ((0 : ℤ) * daySeconds)).finishes c.threads.length
          c.world reviewCall.complete [.act .go, .act .go] fun _ _ => true)) = true := by
    decide +kernel
  obtain ⟨c, hc, hcheck⟩ := (Option.any_eq_true _ _).mp hrun
  simp only [Bool.and_eq_true, decide_eq_true_eq] at hcheck
  obtain ⟨hmet, hbooked, hnext⟩ := hcheck
  obtain ⟨w', r, hrun', -⟩ := Machine.exists_of_finishes hnext
  have hday : InDay ((0 : ℤ) * daySeconds) 0 := by constructor <;> norm_num [daySeconds]
  obtain ⟨⟨spent, rfl⟩, hrequests⟩ := (@next_call_blocked_iff 0 ⟨0, .empty, 0, []⟩ bookedCall c
    reviewCall _ w' r hday hc hrun').mpr (fun _ => hbooked) hmet
  exact ⟨c, w', spent, hc, hmet, hrun', hrequests⟩

end ReviewAgent
