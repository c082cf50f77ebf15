import Mathlib.Algebra.BigOperators.Ring.List
import Mathlib.Tactic.FieldSimp
import ReviewAgent.Economics.DailyCap

/-! How far the calls in flight can take a day past its cap. -/
namespace ReviewAgent

open Effects SpendStage

def isRunning : Orchestrated LlmResponse → Bool
  | .done _ => false
  | .step .. => true

/-- The threads that have not ended. -/
def inFlight (c : SpendConfig) : ℕ := c.threads.countP isRunning

/-- What an answer costs, as the provider was asked for it. -/
def answerCost (answer : String × Message) : Except Exc ℕ :=
  computeCostUsd answer.1 answer.2.inputTokens answer.2.outputTokens

/-- What the provider's answers have cost so far. -/
def paid (answers : List (String × Message)) : ℕ :=
  (answers.map fun answer => (answerCost answer).toOption.getD 0).sum

/-- An answer has a price, of at most `M`. -/
def Affordable (M : ℕ) (answer : String × Message) : Prop :=
  ∃ cost, answerCost answer = .ok cost ∧ cost ≤ M

/-- At most `W` calls in flight, each for a review and under the cap, and answers of at most `M`. -/
structure Limited (W M : ℕ) (cap : Usd) (_ : SpendConfig) (s : SpendSched) (c' : SpendConfig) :
    Prop where
  workers : inFlight c' ≤ W
  calls : ∀ call ∈ started [s],
    call.settings.budgetDailyCapUsd = cap ∧ call.reviewId.isSome = true
  answers : ∀ answer ∈ c'.world.answers, Affordable M answer

instance (M : ℕ) (answer : String × Message) : Decidable (Affordable M answer) :=
  match h : answerCost answer with
  | .ok cost => decidable_of_iff (cost ≤ M) (by simp [Affordable, h])
  | .error _ => isFalse (by simp [Affordable, h])

instance (W M : ℕ) (cap : Usd) (c : SpendConfig) (s : SpendSched) (c' : SpendConfig) :
    Decidable (Limited W M cap c s c') :=
  decidable_of_iff (inFlight c' ≤ W ∧ (∀ call ∈ started [s],
      call.settings.budgetDailyCapUsd = cap ∧ call.reviewId.isSome = true) ∧
        ∀ answer ∈ c'.world.answers, Affordable M answer)
    ⟨fun h => ⟨h.1, h.2.1, h.2.2⟩, fun h => ⟨h.workers, h.calls, h.answers⟩⟩

/-- The names of a call are within the bounds of an event and can be stored. -/
def Named (call : LlmCall) : Prop :=
  ∀ reviewId ∈ call.reviewId, Attributable reviewId call.agent ∧ storableText reviewId = true ∧
    storableText call.agent = true

/-- The cost and the token counts of an answer are within the bounds of their columns. -/
def Recordable (answer : String × Message) : Prop :=
  (∀ cost, answerCost answer = .ok cost → cost < 10 ^ 10) ∧
    storableInteger answer.2.inputTokens = true ∧ storableInteger answer.2.outputTokens = true

/-- Each call started is named, and each answer can be recorded. -/
structure Recorded (_ : SpendConfig) (s : SpendSched) (c' : SpendConfig) : Prop where
  calls : ∀ call ∈ started [s], Named call
  answers : ∀ answer ∈ c'.world.answers, Recordable answer

/-- A model with a price has one of the names of the table. -/
theorem model_of_cost {model : String} {tokensIn tokensOut cost : ℕ}
    (h : computeCostUsd model tokensIn tokensOut = .ok cost) :
    model.length ≤ 200 ∧ storableText model = true := by
  simp only [computeCostUsd] at h
  split at h
  · cases h
  · rename_i price hprice
    simp only [modelPrices, List.lookup_cons, List.lookup_nil] at hprice
    split at hprice
    · rename_i hm
      rw [eq_of_beq hm]
      decide
    · split at hprice
      · rename_i hm
        rw [eq_of_beq hm]
        decide
      · cases hprice

namespace SpendStage

/-- The call has passed the guard and has not ended. -/
def pending : SpendStage → ℕ
  | admitted | answered _ | priced .. | stamped .. => 1
  | fresh | dated _ | ended _ => 0

/-- What the call has cost and not yet recorded. -/
def owed (call : LlmCall) : SpendStage → ℕ
  | answered message => (call.cost message).toOption.getD 0
  | priced _ _ _ costUsd => costUsd
  | stamped r _ => r.costUsd
  | fresh | dated _ | admitted | ended _ => 0

/-- The answer of a call costs at most `M` and will be recorded. -/
def Fit (M : ℕ) (call : LlmCall) : SpendStage → Prop
  | answered message => Affordable M (call.settings.anthropicModel, message) ∧
      Recordable (call.settings.anthropicModel, message)
  | priced _ message _ costUsd => costUsd ≤ M ∧ costUsd < 10 ^ 10 ∧
      call.cost message = .ok costUsd ∧ storableInteger message.inputTokens = true ∧
        storableInteger message.outputTokens = true
  | stamped r event => r.costUsd ≤ M ∧ event.storable = true
  | fresh | dated _ | admitted | ended _ => True

variable {day : ℚ} {M : ℕ} {call : LlmCall} {w w' : SpendWorld} {s s' : SpendStage}

theorem owed_le (h : Fit M call s) : owed call s ≤ M * pending s := by
  cases s with
  | answered message =>
    obtain ⟨⟨cost, hcost, hle⟩, -⟩ := h
    have hcall : call.cost message = .ok cost := hcost
    simpa [owed, pending, hcall, Except.toOption] using hle
  | priced => simpa [owed, pending] using h.1
  | stamped => simpa [owed, pending] using h.1
  | _ => simp [owed]

/-- One operation of a named call: what it costs is recorded or owed, and only a call that reads a
sum below its cap becomes pending. -/
theorem Advance.metered (h : Advance call w s w' s') (hfit : Fit M call s) (hnamed : Named call)
    (hid : call.reviewId.isSome = true) (hwell : WellStaged day call s)
    (hanswers : ∀ answer ∈ w'.answers, Affordable M answer ∧ Recordable answer) :
    Fit M call s' ∧ w'.table.recorded day + owed call s' + paid w.answers =
        w.table.recorded day + owed call s + paid w'.answers ∧
      (w'.table.recorded day + M * pending s' ≤ w.table.recorded day + M * pending s ∨
        (w'.table = w.table ∧ s' = admitted ∧ ∃ now, s = dated now ∧
          ¬ call.settings.budgetDailyCapUsd.MetBy (w.table.recorded (startOfDayUtc now)))) := by
  cases h with
  | date => exact ⟨trivial, rfl, Or.inl le_rfl⟩
  | sum now =>
    simp only [afterSum]
    split
    · exact ⟨trivial, rfl, Or.inl le_rfl⟩
    · rename_i hblocks
      rw [blocks_iff] at hblocks
      cases hclient : AnthropicLlmClient.client call.settings with
      | error e => exact ⟨trivial, rfl, Or.inl le_rfl⟩
      | ok u => exact ⟨trivial, rfl, Or.inr ⟨trivial, rfl, now, rfl, hblocks⟩⟩
  | answer message =>
    cases message with
    | error e =>
      refine ⟨trivial, ?_, Or.inl (by simp [afterAnswer, pending])⟩
      simp [afterAnswer, owed, Except.toOption]
    | ok m =>
      have hm := hanswers (call.settings.anthropicModel, m) (by simp [Except.toOption])
      obtain ⟨⟨cost, hcost, -⟩, -⟩ := hm.1, hm.2
      have hcall : call.cost m = .ok cost := hcost
      refine ⟨hm, ?_, Or.inl le_rfl⟩
      simp [afterAnswer, owed, hcall, hcost, paid, Except.toOption]
      omega
  | time message ms hms =>
    obtain ⟨⟨cost, hcost, hle⟩, hrec⟩ := hfit
    have hcall : call.cost message = .ok cost := hcost
    obtain ⟨reviewId, hsome⟩ := Option.isSome_iff_exists.mp hid
    have hafter : afterLatency call message ms = priced reviewId message ms cost := by
      simp [afterLatency, hcall, hsome]
    rw [hafter]
    exact ⟨⟨hle, hrec.1 cost hcost, hcall, hrec.2⟩, by simp [owed, hcall, Except.toOption],
      Or.inl le_rfl⟩
  | stamp reviewId message latencyMs costUsd =>
    obtain ⟨hle, hsmall, hcost, hin, hout⟩ := hfit
    obtain ⟨hsome, -, hms⟩ := hwell
    obtain ⟨hattr, htext, hagent⟩ := hnamed reviewId hsome
    obtain ⟨hlen, hmodel⟩ := model_of_cost hcost
    have hvalid : ∀ check ∈ (eventFields call reviewId message latencyMs costUsd w.now).checks,
        check.2 = true := by
      norm_num only at hsmall
      simp [EventFields.checks, eventFields, hattr.1, hattr.2, hlen, hsmall]
    have hafter : afterStamp call reviewId message latencyMs costUsd w.now =
        stamped (response call message latencyMs costUsd)
          ⟨eventFields call reviewId message latencyMs costUsd w.now, hvalid⟩ := by
      simp only [afterStamp, AgentEvent.validate_ok hvalid]
    have hlatency : storableInteger latencyMs = true := by
      simp only [storableInteger, decide_eq_true_eq]
      omega
    rw [hafter]
    refine ⟨⟨hle, ?_⟩, rfl, Or.inl le_rfl⟩
    simp [AgentEvent.storable, eventFields, htext, hagent, hmodel, hin, hout, hlatency]
  | write r event table written hinsert =>
    obtain ⟨hle, hstorable⟩ := hfit
    obtain ⟨reviewId, message, latencyMs, costUsd, ts, -, -, -, hts, rfl, hevent⟩ := hwell
    have hofDay : AgentEvents.ofDay day event = true := by
      simp [AgentEvents.ofDay, hevent, eventFields, hts.1, hts.2]
    have hcost : event.costUsd = some costUsd := by rw [hevent]; rfl
    have hresponse : (response call message latencyMs costUsd).costUsd = costUsd := rfl
    rcases AgentEvents.insert_cases hinsert with ⟨-, hrows, rfl⟩ | ⟨hno, -, -⟩
    · refine ⟨trivial, ?_, Or.inl ?_⟩
      · simp [AgentEvents.recorded_append hrows, hofDay, hcost, owed, afterWrite, hresponse]
      · rw [hresponse] at hle
        simp [AgentEvents.recorded_append hrows, hofDay, hcost, pending, afterWrite]
        omega
    · simp [hstorable] at hno

end SpendStage

section

variable {k : ℤ} {W M : ℕ} {cap : Usd} {before : ℕ} {c c' : SpendConfig}
  {xs : List (LlmCall × SpendStage)} {s : SpendSched}

/-- Pending calls are in flight. -/
theorem pending_le_inFlight (hc : Staged c xs) :
    (xs.map fun x => pending x.2).sum ≤ inFlight c := by
  rw [inFlight, hc, List.countP_map]
  clear hc
  induction xs with
  | nil => simp
  | cons x xs ih =>
    obtain ⟨call, st⟩ := x
    rw [List.map_cons, List.sum_cons, List.countP_cons]
    have hx : pending st ≤ if isRunning (program call st) then 1 else 0 := by
      cases hp : program call st with
      | done r =>
        rw [program_done.mp hp]
        simp [pending]
      | step op next => cases st <;> simp [pending, isRunning]
    simp only [Function.comp_apply] at ih ⊢
    omega

/-- The ledger of a day whose calls are limited and recorded: every answer is recorded or owed, and
the rows with a full price for each pending call stay below the cap and `W` answers. -/
structure Metered (k : ℤ) (W M : ℕ) (cap : Usd) (before : ℕ) (c : SpendConfig)
    (xs : List (LlmCall × SpendStage)) : Prop extends DayLedger (k * daySeconds) before c xs where
  fit : ∀ x ∈ xs, Fit M x.1 x.2
  calls : ∀ x ∈ xs, x.1.settings.budgetDailyCapUsd = cap ∧ x.1.reviewId.isSome = true ∧ Named x.1
  paid : c.world.table.recorded (k * daySeconds) + (xs.map fun x => owed x.1 x.2).sum =
    before + paid c.world.answers
  below : ((c.world.table.recorded (k * daySeconds) + M * (xs.map fun x => pending x.2).sum : ℕ) :
    ℚ) / 10 ^ 6 < cap.value + W * (M / 10 ^ 6)

/-- The bound survives a step that adds nothing to the rows and their pending calls. -/
theorem Metered.of_le (h : Metered k W M cap before c xs)
    {xs' : List (LlmCall × SpendStage)} (hledger : DayLedger (k * daySeconds) before c' xs')
    (hfit : ∀ x ∈ xs', Fit M x.1 x.2)
    (hcalls : ∀ x ∈ xs', x.1.settings.budgetDailyCapUsd = cap ∧ x.1.reviewId.isSome = true ∧
      Named x.1)
    (hpaid : c'.world.table.recorded (k * daySeconds) + (xs'.map fun x => owed x.1 x.2).sum =
      before + ReviewAgent.paid c'.world.answers)
    (hle : c'.world.table.recorded (k * daySeconds) + M * (xs'.map fun x => pending x.2).sum ≤
      c.world.table.recorded (k * daySeconds) + M * (xs.map fun x => pending x.2).sum) :
    Metered k W M cap before c' xs' := by
  refine ⟨hledger, hfit, hcalls, hpaid, lt_of_le_of_lt ?_ h.below⟩
  have : ((c'.world.table.recorded (k * daySeconds) +
      M * (xs'.map fun x => pending x.2).sum : ℕ) : ℚ) ≤
      (c.world.table.recorded (k * daySeconds) + M * (xs.map fun x => pending x.2).sum : ℕ) := by
    exact_mod_cast hle
  linarith

theorem Metered.step (h : Metered k W M cap before c xs) (hlimited : Limited W M cap c s c')
    (hrecorded : Recorded c s c') (hs : spendStep (k * daySeconds) c s = some c') :
    ∃ xs', Metered k W M cap before c' xs' := by
  rcases spendStep_cases h.staged hs with ⟨call, rfl, hw, hstaged⟩ |
    ⟨seconds, rfl, hpos, hlt, hw, hstaged⟩ | ⟨i, choice, call, st, st', rfl, hx, hadv, hstaged⟩
  · have hcall := hlimited.calls call (by simp [started])
    have hnamed := hrecorded.calls call (by simp [started])
    refine ⟨_, h.of_le (h.toDayLedger.start hw hstaged) ?_ ?_ ?_ ?_⟩
    · intro x hx
      rcases List.mem_append.mp hx with hx | hx
      · exact h.fit x hx
      · rw [List.mem_singleton.mp hx]
        trivial
    · intro x hx
      rcases List.mem_append.mp hx with hx | hx
      · exact h.calls x hx
      · rw [List.mem_singleton.mp hx]
        exact ⟨hcall.1, hcall.2, hnamed⟩
    · simpa [hw, owed] using h.paid
    · simp [hw, pending]
  · refine ⟨xs, h.of_le (h.toDayLedger.tick hpos hlt hw hstaged) h.fit h.calls ?_ ?_⟩
    · simpa [hw] using h.paid
    · simp [hw]
  · have hmem := List.mem_of_getElem? hx
    obtain ⟨hcap, hid, hnamed⟩ := h.calls _ hmem
    obtain ⟨hfit, hpaid, hcost⟩ := hadv.metered (h.fit _ hmem) hnamed hid (h.well _ hmem)
      fun answer ha => ⟨hlimited.answers answer ha, hrecorded.answers answer ha⟩
    have hledger := h.toDayLedger.advance hx hadv hstaged
    have howed := sum_map_set hx (fun x : LlmCall × SpendStage => owed x.1 x.2) (call, st')
    have hpending := sum_map_set hx (fun x : LlmCall × SpendStage => pending x.2) (call, st')
    have hfit' : ∀ x ∈ xs.set i (call, st'), Fit M x.1 x.2 := by
      intro x hx'
      rcases List.mem_or_eq_of_mem_set hx' with hx' | rfl
      · exact h.fit x hx'
      · exact hfit
    have hcalls' : ∀ x ∈ xs.set i (call, st'), x.1.settings.budgetDailyCapUsd = cap ∧
        x.1.reviewId.isSome = true ∧ Named x.1 := by
      intro x hx'
      rcases List.mem_or_eq_of_mem_set hx' with hx' | rfl
      · exact h.calls x hx'
      · exact ⟨hcap, hid, hnamed⟩
    have hpaid' : c'.world.table.recorded (k * daySeconds) +
        ((xs.set i (call, st')).map fun x => owed x.1 x.2).sum =
          before + ReviewAgent.paid c'.world.answers := by
      have := h.paid
      simp only at howed
      omega
    rcases hcost with hle | ⟨htable, rfl, now, rfl, hnot⟩
    · refine ⟨_, h.of_le hledger hfit' hcalls' hpaid' ?_⟩
      simp only at hpending
      have hmul := congrArg (M * ·) hpending
      simp only [Nat.mul_add] at hmul
      omega
    · -- the call read a sum below the cap, and is one of at most `W` in flight
      refine ⟨_, hledger, hfit', hcalls', hpaid', ?_⟩
      rw [startOfDayUtc_of_inDay (h.well _ hmem), hcap, Usd.MetBy, not_le] at hnot
      have hW : (M * ((xs.set i (call, admitted)).map fun x => pending x.2).sum : ℕ) ≤ M * W :=
        Nat.mul_le_mul_left M ((pending_le_inFlight hstaged).trans hlimited.workers)
      have hW' : ((M * ((xs.set i (call, admitted)).map fun x => pending x.2).sum : ℕ) : ℚ) ≤
          M * W := by exact_mod_cast hW
      rw [htable, Nat.cast_add, add_div]
      calc _ ≤ (c.world.table.recorded (k * daySeconds) : ℚ) / 10 ^ 6 + M * W / 10 ^ 6 := by
            gcongr
        _ < cap.value + W * (M / 10 ^ 6) := by
            rw [mul_comm (M : ℚ), mul_div_assoc]
            linarith

/-- A day whose rows meet the cap: no call gets past the guard. -/
structure Spent (k : ℤ) (cap : Usd) (requests : ℕ) (c : SpendConfig)
    (xs : List (LlmCall × SpendStage)) : Prop where
  staged : Staged c xs
  inDay : InDay (k * daySeconds) c.world.now
  met : cap.MetBy (c.world.table.recorded (k * daySeconds))
  requests : c.world.requests = requests
  calls : ∀ x ∈ xs, x.1.settings.budgetDailyCapUsd = cap ∧
    (x.2 = .fresh ∨ (∃ now, x.2 = .dated now ∧ InDay (k * daySeconds) now) ∨ ∃ r, x.2 = .ended r)

theorem Spent.step {requests : ℕ} (h : Spent k cap requests c xs)
    (hlimited : Limited W M cap c s c') (hs : spendStep (k * daySeconds) c s = some c') :
    ∃ xs', Spent k cap requests c' xs' := by
  rcases spendStep_cases h.staged hs with ⟨call, rfl, hw, hstaged⟩ |
    ⟨seconds, rfl, hpos, hlt, hw, hstaged⟩ | ⟨i, choice, call, st, st', rfl, hx, hadv, hstaged⟩
  · refine ⟨_, hstaged, hw ▸ h.inDay, hw ▸ h.met, hw ▸ h.requests, ?_⟩
    intro x hx
    rcases List.mem_append.mp hx with hx | hx
    · exact h.calls x hx
    · rw [List.mem_singleton.mp hx]
      exact ⟨(hlimited.calls call (by simp [started])).1, Or.inl rfl⟩
  · refine ⟨xs, hstaged, ?_, by simpa [hw] using h.met, by simpa [hw] using h.requests, h.calls⟩
    rw [hw]
    exact ⟨by linarith [h.inDay.1], hlt⟩
  · obtain ⟨hcap, hst⟩ := h.calls _ (List.mem_of_getElem? hx)
    have hstays : c'.world = c.world ∧ ((∃ now, st' = .dated now ∧ InDay (k * daySeconds) now) ∨
        ∃ r, st' = .ended r) := by
      rcases hst with hfresh | ⟨now, hdated, hday⟩ | ⟨r, hended⟩
      · simp only at hfresh
        subst hfresh
        generalize c'.world = w' at hadv ⊢
        cases hadv
        exact ⟨rfl, Or.inl ⟨_, rfl, h.inDay⟩⟩
      · simp only at hdated
        subst hdated
        generalize c'.world = w' at hadv ⊢
        cases hadv
        have hcall : call.settings.budgetDailyCapUsd = cap := hcap
        have hblocks := blocks_iff.mpr h.met
        simp only [afterSum, startOfDayUtc_of_inDay hday, hcall, hblocks, if_true]
        exact ⟨trivial, Or.inr ⟨_, rfl⟩⟩
      · simp only at hended
        subst hended
        generalize c'.world = w' at hadv ⊢
        cases hadv
    refine ⟨_, hstaged, hstays.1 ▸ h.inDay, hstays.1 ▸ h.met, hstays.1 ▸ h.requests, ?_⟩
    intro x hx'
    rcases List.mem_or_eq_of_mem_set hx' with hx' | rfl
    · exact h.calls x hx'
    · exact ⟨hcap, Or.inr hstays.2⟩

end

/-- A day of limited calls that starts at or past its cap makes no request; one that starts below it
costs less than the cap and `W` answers of `M`, if its calls are recorded. -/
theorem overshoot_lt {k : ℤ} {W M : ℕ} {cap : Usd} {w₀ : SpendWorld} {ss : List SpendSched}
    {c : SpendConfig} (hday : InDay (k * daySeconds) w₀.now) (hanswers : w₀.answers = [])
    (hrun : steps (spendStep (k * daySeconds)) ⟨w₀, []⟩ ss = some c)
    (hlimited : EveryStep (spendStep (k * daySeconds)) (Limited W M cap) ⟨w₀, []⟩ ss) :
    (cap.MetBy (w₀.table.recorded (k * daySeconds)) → c.world.requests = w₀.requests) ∧
      (¬ cap.MetBy (w₀.table.recorded (k * daySeconds)) →
        EveryStep (spendStep (k * daySeconds)) Recorded ⟨w₀, []⟩ ss →
        ((w₀.table.recorded (k * daySeconds) + paid c.world.answers : ℕ) : ℚ) / 10 ^ 6 <
          cap.value + W * (M / 10 ^ 6)) := by
  refine ⟨fun hmet => ?_, fun hnot hrecorded => ?_⟩
  · have hstart : Spent k cap w₀.requests ⟨w₀, []⟩ [] := ⟨rfl, hday, hmet, rfl, by simp⟩
    have hstep : ∀ c s c', (∃ xs, Spent k cap w₀.requests c xs) → Limited W M cap c s c' →
        spendStep (k * daySeconds) c s = some c' → ∃ xs, Spent k cap w₀.requests c' xs :=
      fun _ _ _ hspent hl hs => hspent.elim fun _ h => h.step hl hs
    obtain ⟨xs, h⟩ := steps_invariant hstep ⟨[], hstart⟩ hlimited hrun
    exact h.requests
  · have hstart : Metered k W M cap (w₀.table.recorded (k * daySeconds)) ⟨w₀, []⟩ [] := by
      refine ⟨dayLedger_initial hday, by simp, by simp, by simp [hanswers, paid], ?_⟩
      rw [Usd.MetBy, not_le] at hnot
      have hpos : (0 : ℚ) ≤ W * (M / 10 ^ 6) := by positivity
      simp only [List.map_nil, List.sum_nil, Nat.mul_zero, Nat.add_zero]
      linarith
    have hstep : ∀ c s c',
        (∃ xs, Metered k W M cap (w₀.table.recorded (k * daySeconds)) c xs) →
        Limited W M cap c s c' ∧ Recorded c s c' → spendStep (k * daySeconds) c s = some c' →
        ∃ xs, Metered k W M cap (w₀.table.recorded (k * daySeconds)) c' xs :=
      fun _ _ _ hmetered hc hs => hmetered.elim fun _ h => h.step hc.1 hc.2 hs
    obtain ⟨xs, h⟩ := steps_invariant hstep ⟨[], hstart⟩ (hlimited.and hrecorded) hrun
    have howed : (xs.map fun x => owed x.1 x.2).sum ≤ M * (xs.map fun x => pending x.2).sum := by
      rw [← List.sum_map_mul_left]
      exact List.sum_le_sum fun x hx => owed_le (h.fit x hx)
    have hle : ((w₀.table.recorded (k * daySeconds) + paid c.world.answers : ℕ) : ℚ) ≤
        (c.world.table.recorded (k * daySeconds) + M * (xs.map fun x => pending x.2).sum : ℕ) := by
      have := h.paid
      exact_mod_cast (by omega)
    have := h.below
    linarith

instance (answer : String × Message) : Decidable (Recordable answer) :=
  match h : answerCost answer with
  | .ok cost => decidable_of_iff (cost < 10 ^ 10 ∧ storableInteger answer.2.inputTokens = true ∧
      storableInteger answer.2.outputTokens = true) (by simp [Recordable, h])
  | .error _ => decidable_of_iff (storableInteger answer.2.inputTokens = true ∧
      storableInteger answer.2.outputTokens = true) (by simp [Recordable, h])

instance (call : LlmCall) : Decidable (Named call) :=
  inferInstanceAs (Decidable (∀ reviewId ∈ call.reviewId, ((1 ≤ reviewId.length ∧
    reviewId.length ≤ 200) ∧ call.agent.length ≤ 100) ∧ storableText reviewId = true ∧
      storableText call.agent = true))

instance (c : SpendConfig) (s : SpendSched) (c' : SpendConfig) : Decidable (Recorded c s c') :=
  decidable_of_iff ((∀ call ∈ started [s], Named call) ∧
      ∀ answer ∈ c'.world.answers, Recordable answer)
    ⟨fun h => ⟨h.1, h.2⟩, fun h => ⟨h.calls, h.answers⟩⟩

/-- Two calls for reviews in flight at once, both answered, booked and returned. -/
def callsAtOnce : List SpendSched :=
  [.start reviewCall, .start reviewCall, .act 0 .go, .act 1 .go, .act 0 .go, .act 1 .go,
    .act 0 (.answer (.ok centMessage)), .act 1 (.answer (.ok centMessage)),
    .act 0 (.latency 5), .act 1 (.latency 5), .act 0 .go, .act 1 .go, .act 0 .go, .act 1 .go]

/-- Two calls at once cost a cent more than the cap, and less than it and two answers. -/
theorem overshoot_lt_callsAtOnce : ∃ c : SpendConfig,
    steps (spendStep ((0 : ℤ) * daySeconds)) ⟨⟨0, .empty, 0, []⟩, []⟩ callsAtOnce = some c ∧
    c.world.requests = 2 ∧ paid c.world.answers = 20000 ∧
    ((AgentEvents.empty.recorded ((0 : ℤ) * daySeconds) + paid c.world.answers : ℕ) : ℚ) /
      10 ^ 6 < centSettings.budgetDailyCapUsd.value + (2 : ℕ) * ((10000 : ℕ) / 10 ^ 6) := by
  have hrun : (steps (spendStep ((0 : ℤ) * daySeconds)) ⟨⟨0, .empty, 0, []⟩, []⟩ callsAtOnce).any
      (fun c => decide (c.world.requests = 2) && decide (paid c.world.answers = 20000)) = true := by
    decide +kernel
  obtain ⟨c, hc, hcheck⟩ := (Option.any_eq_true _ _).mp hrun
  rw [Bool.and_eq_true, decide_eq_true_eq, decide_eq_true_eq] at hcheck
  have hlimited : EveryStep (spendStep ((0 : ℤ) * daySeconds))
      (Limited 2 10000 centSettings.budgetDailyCapUsd) ⟨⟨0, .empty, 0, []⟩, []⟩ callsAtOnce := by
    decide +kernel
  have hrecorded : EveryStep (spendStep ((0 : ℤ) * daySeconds)) Recorded
      ⟨⟨0, .empty, 0, []⟩, []⟩ callsAtOnce := by
    decide +kernel
  have hday : InDay ((0 : ℤ) * daySeconds) 0 := by constructor <;> norm_num [daySeconds]
  obtain ⟨-, hbound⟩ := @overshoot_lt 0 2 10000 centSettings.budgetDailyCapUsd
    ⟨0, .empty, 0, []⟩ callsAtOnce c hday rfl hc hlimited
  exact ⟨c, hc, hcheck.1, hcheck.2, hbound (by decide +kernel) hrecorded⟩

/-- A call for a review without a name, and its steps as the `i`-th call: it is answered, and its
event cannot be built. -/
def unnamedCall (i : ℕ) : List SpendSched :=
  [.start { reviewCall with reviewId := some "" }, .act i .go, .act i .go,
    .act i (.answer (.ok centMessage)), .act i (.latency 5), .act i .go]

/-- Three such calls, one at a time, cost the cap and two answers more. -/
theorem unnamed_calls_overshoot : ¬ ∀ (k : ℤ) (W M : ℕ) (cap : Usd) (w₀ : SpendWorld)
    (ss : List SpendSched) (c : SpendConfig), InDay (k * daySeconds) w₀.now → w₀.answers = [] →
    steps (spendStep (k * daySeconds)) ⟨w₀, []⟩ ss = some c →
    EveryStep (spendStep (k * daySeconds)) (Limited W M cap) ⟨w₀, []⟩ ss →
    (cap.MetBy (w₀.table.recorded (k * daySeconds)) → c.world.requests = w₀.requests) ∧
      (¬ cap.MetBy (w₀.table.recorded (k * daySeconds)) →
        ((w₀.table.recorded (k * daySeconds) + paid c.world.answers : ℕ) : ℚ) / 10 ^ 6 <
          cap.value + W * (M / 10 ^ 6)) := by
  intro h
  have hrun : (steps (spendStep ((0 : ℤ) * daySeconds)) ⟨⟨0, .empty, 0, []⟩, []⟩
      (unnamedCall 0 ++ unnamedCall 1 ++ unnamedCall 2)).any
        (fun c => paid c.world.answers = 30000) = true := by
    decide +kernel
  obtain ⟨c, hc, hpaid⟩ := (Option.any_eq_true _ _).mp hrun
  have hlimited : EveryStep (spendStep ((0 : ℤ) * daySeconds))
      (Limited 1 10000 centSettings.budgetDailyCapUsd) ⟨⟨0, .empty, 0, []⟩, []⟩
      (unnamedCall 0 ++ unnamedCall 1 ++ unnamedCall 2) := by
    decide +kernel
  have hday : InDay ((0 : ℤ) * daySeconds) 0 := by constructor <;> norm_num [daySeconds]
  have hbound := (h 0 1 10000 _ ⟨0, .empty, 0, []⟩ _ c hday rfl hc hlimited).2 (by decide +kernel)
  have hzero : AgentEvents.empty.recorded ((0 : ℤ) * daySeconds) = 0 := rfl
  rw [of_decide_eq_true hpaid, hzero] at hbound
  norm_num [centSettings, Usd.value] at hbound

end ReviewAgent
