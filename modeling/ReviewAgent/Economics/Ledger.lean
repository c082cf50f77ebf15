import Mathlib.Algebra.BigOperators.Group.List.Basic
import Mathlib.Algebra.Order.Floor.Ring
import Mathlib.Data.List.Perm.Basic
import ReviewAgent.Economics.SpendRuns
import ReviewAgent.Effects.Steps

/-! The ledger of a day: what the table holds is what it held before and what was booked since. -/
namespace ReviewAgent

open Effects

/-- The calls of a day, started so far, on their world. -/
abbrev SpendConfig : Type := Machine.Config OrchestratorSignature Exc LlmResponse SpendWorld

abbrev SpendSched : Type := Machine.Sched SpendChoice ℚ LlmCall

def spendStep (day : ℚ) : SpendConfig → SpendSched → Option SpendConfig :=
  (spending day).next LlmCall.complete

/-- The calls a schedule starts, in order. -/
def started (ss : List SpendSched) : List LlmCall :=
  ss.filterMap fun s =>
    match s with
    | .start call => some call
    | .act .. | .move _ => none

/-- The responses returned so far, each with its call. -/
def responses (calls : List LlmCall) (c : SpendConfig) : List (LlmCall × LlmResponse) :=
  (calls.zip c.threads).filterMap fun x =>
    match x.2 with
    | .done (.ok r) => some (x.1, r)
    | _ => none

/-- A returned response leaves a row: its call names a review, in text that Postgres stores, and its
token counts fit their columns. -/
def bookable (call : LlmCall) (r : LlmResponse) : Bool :=
  call.reviewId.any storableText && storableText call.agent &&
    storableText call.settings.anthropicModel && storableInteger r.tokensIn &&
    storableInteger r.tokensOut

def returnedCost (rs : List (LlmCall × LlmResponse)) : ℕ := (rs.map fun x => x.2.costUsd).sum

def bookedCost (rs : List (LlmCall × LlmResponse)) : ℕ :=
  returnedCost (rs.filter fun x => bookable x.1 x.2)

/-- The time is within the UTC day that begins at `day`. -/
def InDay (day now : ℚ) : Prop := day ≤ now ∧ now < day + daySeconds

theorem startOfDayUtc_of_inDay {k : ℤ} {now : ℚ} (h : InDay (k * daySeconds) now) :
    startOfDayUtc now = k * daySeconds := by
  have hpos : 0 < daySeconds := by norm_num [daySeconds]
  have hfloor : ⌊now / daySeconds⌋ = k := by
    rw [Int.floor_eq_iff, le_div_iff₀ hpos, div_lt_iff₀ hpos]
    exact ⟨h.1, by linarith [h.2]⟩
  rw [startOfDayUtc, hfloor]

namespace SpendStage

variable {day : ℚ} {w w' : SpendWorld} {call : LlmCall} {s s' : SpendStage}

/-- What a stage has noted is true of its call and of the day. -/
def WellStaged (day : ℚ) (call : LlmCall) : SpendStage → Prop
  | dated now => InDay day now
  | priced reviewId message latencyMs costUsd =>
    call.reviewId = some reviewId ∧ call.cost message = .ok costUsd ∧
      latencyMs ≤ 24 * 60 * 60 * 1000
  | stamped r event => ∃ reviewId message latencyMs costUsd ts,
      call.reviewId = some reviewId ∧ call.cost message = .ok costUsd ∧
        latencyMs ≤ 24 * 60 * 60 * 1000 ∧ InDay day ts ∧
        r = response call message latencyMs costUsd ∧
        event.toEventFields = eventFields call reviewId message latencyMs costUsd ts
  | fresh | admitted | answered _ | ended _ => True

/-- What the call has added to the day's rows. -/
def booked (call : LlmCall) : SpendStage → ℕ
  | ended (.ok r) => if bookable call r then r.costUsd else 0
  | _ => 0

theorem booked_ended (r : LlmResponse) :
    booked call (ended (.ok r)) = if bookable call r then r.costUsd else 0 := rfl

theorem program_done {r : Except Exc LlmResponse} :
    program call s = .done r ↔ s = ended r := by
  constructor
  · intro h
    cases s with
    | fresh => cases (program_fresh call).symm.trans h
    | dated now => cases (program_dated call now).symm.trans h
    | admitted => cases (program_admitted call).symm.trans h
    | answered message => cases (program_answered call message).symm.trans h
    | priced reviewId message latencyMs costUsd =>
      cases (program_priced call reviewId message latencyMs costUsd).symm.trans h
    | stamped r event => cases (program_stamped call r event).symm.trans h
    | ended result => rw [Program.done.inj h]
  · rintro rfl
    rfl

theorem validate_toEventFields {fields : EventFields} {event : AgentEvent}
    (h : AgentEvent.validate fields = .ok event) : event.toEventFields = fields := by
  unfold AgentEvent.validate at h
  split at h
  · cases h
  · rw [← Except.ok.inj h]

/-- An operation keeps the notes true, and the call adds to the day's rows what the table gains. -/
theorem Advance.ledger (h : Advance call w s w' s') (hs : WellStaged day call s)
    (hday : InDay day w.now) :
    WellStaged day call s' ∧ w'.now = w.now ∧
      w'.table.recorded day + booked call s = w.table.recorded day + booked call s' := by
  cases h with
  | date => exact ⟨hday, rfl, rfl⟩
  | sum now =>
    refine ⟨?_, rfl, ?_⟩
    all_goals
      simp only [afterSum]
      split
      · trivial
      · cases AnthropicLlmClient.client call.settings <;> trivial
  | answer message => exact ⟨by cases message <;> trivial, rfl, by cases message <;> rfl⟩
  | time message ms hms =>
    simp only [afterLatency]
    cases hcost : call.cost message with
    | error e => exact ⟨trivial, trivial, rfl⟩
    | ok costUsd =>
      cases hid : call.reviewId with
      | none => exact ⟨trivial, trivial, by simp [booked, bookable, hid]⟩
      | some reviewId => exact ⟨⟨hid, hcost, hms⟩, trivial, rfl⟩
  | stamp reviewId message latencyMs costUsd =>
    obtain ⟨hid, hcost, hms⟩ := hs
    simp only [afterStamp]
    cases hevent : AgentEvent.validate (eventFields call reviewId message latencyMs costUsd
      w.now) with
    | error e => exact ⟨trivial, trivial, rfl⟩
    | ok event =>
      exact ⟨⟨reviewId, message, latencyMs, costUsd, w.now, hid, hcost, hms, hday, rfl,
        validate_toEventFields hevent⟩, trivial, rfl⟩
  | write r event table written hinsert =>
    obtain ⟨reviewId, message, latencyMs, costUsd, ts, hid, -, hms, hts, rfl, hevent⟩ := hs
    have hlatency : storableInteger latencyMs = true := by
      simp only [storableInteger, decide_eq_true_eq]
      omega
    have hbookable : event.storable =
        bookable call (response call message latencyMs costUsd) := by
      simp [AgentEvent.storable, bookable, hevent, eventFields, response, hid, hlatency]
    have hofDay : AgentEvents.ofDay day event = true := by
      simp [AgentEvents.ofDay, hevent, eventFields, hts.1, hts.2]
    have hcost : event.costUsd = some costUsd := by rw [hevent]; rfl
    rcases AgentEvents.insert_cases hinsert with ⟨hstore, hrows, rfl⟩ | ⟨hstore, rfl, rfl⟩
    · refine ⟨trivial, rfl, ?_⟩
      rw [hbookable] at hstore
      have hresponse : (response call message latencyMs costUsd).costUsd = costUsd := rfl
      simp [AgentEvents.recorded_append hrows, afterWrite, booked, hstore, hofDay, hcost, hresponse]
    · refine ⟨trivial, rfl, ?_⟩
      rw [hbookable] at hstore
      have hafter : afterWrite (response call message latencyMs costUsd) (.error dataError) =
          ended (.ok (response call message latencyMs costUsd)) := rfl
      simp [hafter, booked, hstore]

end SpendStage

open SpendStage

/-- Each thread is the rest of its call. -/
def Staged (c : SpendConfig) (xs : List (LlmCall × SpendStage)) : Prop :=
  c.threads = xs.map fun x => program x.1 x.2

section

variable {day : ℚ} {c c' : SpendConfig} {xs : List (LlmCall × SpendStage)} {s : SpendSched}

/-- One step: a call starts, time passes within the day, or one operation of a call is resolved. -/
theorem spendStep_cases (hc : Staged c xs) (h : spendStep day c s = some c') :
    (∃ call, s = .start call ∧ c'.world = c.world ∧ Staged c' (xs ++ [(call, .fresh)])) ∨
      (∃ seconds, s = .move seconds ∧ 0 ≤ seconds ∧ c.world.now + seconds < day + daySeconds ∧
        c'.world = { c.world with now := c.world.now + seconds } ∧ Staged c' xs) ∨
      ∃ i choice call st st', s = .act i choice ∧ xs[i]? = some (call, st) ∧
        Advance call c.world st c'.world st' ∧ Staged c' (xs.set i (call, st')) := by
  cases s with
  | start call =>
    obtain rfl := Option.some.inj h
    refine Or.inl ⟨call, rfl, rfl, ?_⟩
    rw [Staged, List.map_append, ← show c.threads = _ from hc]
    rfl
  | move seconds =>
    obtain ⟨w, hw, rfl⟩ := Option.map_eq_some_iff.mp h
    simp only [spending] at hw
    split at hw
    · rename_i hpos
      obtain rfl := Option.some.inj hw
      exact Or.inr (Or.inl ⟨seconds, rfl, hpos.1, hpos.2, rfl, hc⟩)
    · cases hw
  | act i choice =>
    simp only [spendStep, Machine.next] at h
    split at h
    · rename_i op k hk
      obtain ⟨⟨w, answer⟩, hr, rfl⟩ := Option.map_eq_some_iff.mp h
      rw [hc, List.getElem?_map] at hk
      obtain ⟨⟨call, st⟩, hx, hprogram⟩ := Option.map_eq_some_iff.mp hk
      obtain ⟨st', hadvance, hnext⟩ := perform_cases hr hprogram
      refine Or.inr (Or.inr ⟨i, choice, call, st, st', rfl, hx, hadvance, ?_⟩)
      simp only [Staged, List.map_set, hnext, hc.symm]
    · cases h

theorem sum_map_set {α : Type} {l : List α} {i : ℕ} {a : α} (h : l[i]? = some a) (f : α → ℕ)
    (b : α) : ((l.set i b).map f).sum + f a = (l.map f).sum + f b := by
  obtain ⟨hi, rfl⟩ := List.getElem?_eq_some_iff.mp h
  have hset := ((List.set_perm_cons_eraseIdx hi b).map f).sum_eq
  have hold := ((List.getElem_cons_eraseIdx_perm hi).map f).sum_eq
  simp only [List.map_cons, List.sum_cons] at hset hold
  omega

/-- The calls started so far with where they stand, and a day's rows that hold what they held before
and what these calls booked. -/
structure DayLedger (day : ℚ) (before : ℕ) (c : SpendConfig) (xs : List (LlmCall × SpendStage)) :
    Prop where
  staged : Staged c xs
  well : ∀ x ∈ xs, WellStaged day x.1 x.2
  inDay : InDay day c.world.now
  balance : c.world.table.recorded day = before + (xs.map fun x => booked x.1 x.2).sum

variable {before : ℕ}

theorem dayLedger_initial {w : SpendWorld} (h : InDay day w.now) :
    DayLedger day (w.table.recorded day) ⟨w, []⟩ [] :=
  ⟨rfl, by simp, h, by simp⟩

theorem DayLedger.start (h : DayLedger day before c xs) {call : LlmCall}
    (hw : c'.world = c.world) (hstaged : Staged c' (xs ++ [(call, .fresh)])) :
    DayLedger day before c' (xs ++ [(call, .fresh)]) := by
  refine ⟨hstaged, ?_, hw ▸ h.inDay, by simpa [hw, booked] using h.balance⟩
  intro x hx
  rcases List.mem_append.mp hx with hx | hx
  · exact h.well x hx
  · rw [List.mem_singleton.mp hx]
    trivial

theorem DayLedger.tick (h : DayLedger day before c xs) {seconds : ℚ} (hpos : 0 ≤ seconds)
    (hlt : c.world.now + seconds < day + daySeconds)
    (hw : c'.world = { c.world with now := c.world.now + seconds }) (hstaged : Staged c' xs) :
    DayLedger day before c' xs := by
  refine ⟨hstaged, h.well, ?_, by simpa [hw] using h.balance⟩
  rw [hw]
  exact ⟨by linarith [h.inDay.1], hlt⟩

theorem DayLedger.advance (h : DayLedger day before c xs) {i : ℕ} {call : LlmCall}
    {st st' : SpendStage} (hx : xs[i]? = some (call, st))
    (hadv : Advance call c.world st c'.world st') (hstaged : Staged c' (xs.set i (call, st'))) :
    DayLedger day before c' (xs.set i (call, st')) := by
  obtain ⟨hwell, hnow, hbalance⟩ := hadv.ledger (h.well _ (List.mem_of_getElem? hx)) h.inDay
  refine ⟨hstaged, ?_, by rw [InDay, hnow]; exact h.inDay, ?_⟩
  · intro x hmem
    rcases List.mem_or_eq_of_mem_set hmem with hmem | rfl
    · exact h.well x hmem
    · exact hwell
  · have hsum := sum_map_set hx (fun x : LlmCall × SpendStage => booked x.1 x.2) (call, st')
    have := h.balance
    simp only at hsum
    omega

theorem map_fst_set {i : ℕ} {call : LlmCall} {st st' : SpendStage}
    (hx : xs[i]? = some (call, st)) : (xs.set i (call, st')).map Prod.fst = xs.map Prod.fst := by
  obtain ⟨hi, hxi⟩ := List.getElem?_eq_some_iff.mp hx
  rw [List.map_set]
  apply List.ext_getElem? fun n => ?_
  rw [List.getElem?_set]
  split
  · rename_i hn
    subst hn
    simp [hi, hxi]
  · rfl

theorem DayLedger.step (h : DayLedger day before c xs) (hs : spendStep day c s = some c') :
    ∃ xs', DayLedger day before c' xs' ∧
      xs'.map Prod.fst = xs.map Prod.fst ++ started [s] := by
  rcases spendStep_cases h.staged hs with ⟨call, rfl, hw, hstaged⟩ |
    ⟨seconds, rfl, hpos, hlt, hw, hstaged⟩ | ⟨i, choice, call, st, st', rfl, hx, hadv, hstaged⟩
  · exact ⟨_, h.start hw hstaged, by simp [started]⟩
  · exact ⟨xs, h.tick hpos hlt hw hstaged, by simp [started]⟩
  · exact ⟨_, h.advance hx hadv hstaged, by simp [map_fst_set hx, started]⟩

theorem DayLedger.run {ss : List SpendSched} (h : DayLedger day before c xs)
    (hrun : steps (spendStep day) c ss = some c') :
    ∃ xs', DayLedger day before c' xs' ∧ xs'.map Prod.fst = xs.map Prod.fst ++ started ss := by
  induction ss generalizing c xs with
  | nil =>
    obtain rfl := Option.some.inj hrun
    exact ⟨xs, h, by simp [started]⟩
  | cons s ss ih =>
    obtain ⟨c₁, hstep, hrest⟩ := Option.bind_eq_some_iff.mp hrun
    obtain ⟨xs₁, h₁, hcalls₁⟩ := h.step hstep
    obtain ⟨xs', h', hcalls⟩ := ih h₁ hrest
    refine ⟨xs', h', ?_⟩
    rw [hcalls, hcalls₁, List.append_assoc]
    congr 1
    simp [started, List.filterMap_cons]
    cases s <;> rfl

/-- The responses returned are those of the calls that have ended well. -/
theorem responses_eq (hc : Staged c xs) : responses (xs.map Prod.fst) c =
    xs.filterMap fun x =>
      match x.2 with
      | .ended (.ok r) => some (x.1, r)
      | _ => none := by
  have hzip : (xs.map Prod.fst).zip c.threads = xs.map fun x => (x.1, program x.1 x.2) := by
    rw [hc, List.zip_map']
  rw [responses, hzip, List.filterMap_map]
  congr 1
  funext x
  obtain ⟨call, st⟩ := x
  simp only [Function.comp_apply]
  cases hp : program call st with
  | done r =>
    obtain rfl := program_done.mp hp
    cases r <;> rfl
  | step op k =>
    cases st with
    | ended r => cases hp
    | _ => rfl

/-- What the responses returned have booked. -/
theorem bookedCost_responses (hc : Staged c xs) : bookedCost (responses (xs.map Prod.fst) c) =
    (xs.map fun x => booked x.1 x.2).sum := by
  rw [responses_eq hc]
  clear hc
  induction xs with
  | nil => rfl
  | cons x xs ih =>
    obtain ⟨call, st⟩ := x
    simp only [bookedCost, returnedCost] at ih ⊢
    cases st with
    | ended r =>
      cases r with
      | error e => simpa [booked] using ih
      | ok r =>
        cases hb : bookable call r with
        | true => simp [booked_ended, hb, ih]
        | false => simp [booked_ended, hb, ih]
    | _ => simpa [booked] using ih

/-- The day's rows after a run, from the responses it returned. -/
theorem recorded_run {w : SpendWorld} {ss : List SpendSched} (hday : InDay day w.now)
    (hrun : steps (spendStep day) ⟨w, []⟩ ss = some c) :
    InDay day c.world.now ∧ c.world.table.recorded day =
      w.table.recorded day + bookedCost (responses (started ss) c) := by
  obtain ⟨xs, h, hcalls⟩ := (dayLedger_initial hday).run hrun
  rw [List.map_nil, List.nil_append] at hcalls
  exact ⟨h.inDay, by rw [h.balance, ← hcalls, bookedCost_responses h.staged]⟩

end

end ReviewAgent
