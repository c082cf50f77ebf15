import ReviewAgent.Effects.Histories
import ReviewAgent.Evaluation.RegressionGate
import ReviewAgent.Integrations.MarkerCheck

/-! A run of the regression gate with the judge that asks a model: what it asks, and what its answers
decide. -/
namespace ReviewAgent

open Effects SpendStage
open Json (Text points)

/-- What has happened, newest first. -/
abbrev JudgeHistory : Type := List (Occurrence OrchestratorSignature)

/-- A request with its answer. -/
def askedAt : Occurrence OrchestratorSignature → Option (MessageRequest × Except Exc Message)
  | ⟨.createMessage request, answer⟩ => some (request, answer)
  | _ => none

/-- The requests so far with their answers, the oldest first. -/
def asked (h : JudgeHistory) : List (MessageRequest × Except Exc Message) :=
  (h.filterMap askedAt).reverse

/-- What the client of a scoring call asks. -/
def scoringRequest (base : Settings) (case : GoldenCase) (review : Review) : MessageRequest :=
  let call := scoringCall base case review
  AnthropicLlmClient.request call.settings call.system call.user

section

variable (py : Interpreter) (base : Settings) (cases : List GoldenCase)
  (reviewsByCaseId : String → Option Review)

/-- The day's spend was the last thing read, and it leaves room under the cap. -/
def Affords : JudgeHistory → Prop
  | ⟨.sumLlmCostForDay _, .ok spent⟩ :: _ =>
    (BudgetGuard.mk base.budgetDailyCapUsd).blocks spent = false
  | _ => False

/-- What the gate may do next: read the day's spend, time a call, or ask about the next case. -/
def MayAsk (h : JudgeHistory) : OrchestratorOp → Prop
  | .createMessage request => Affords base h ∧ ∃ case review,
      cases[(asked h).length]? = some case ∧ reviewsByCaseId case.caseId = some review ∧
        request = scoringRequest base case review
  | .now .budget | .sumLlmCostForDay _ | .latencyMs .llmCall => True
  | _ => False

/-- The verdict is read from the answer to the request for the case's review. -/
def JudgedBy (cv : CaseVerdict) (answered : MessageRequest × Except Exc Message) : Prop :=
  ∃ review message, reviewsByCaseId cv.case.caseId = some review ∧
    answered = (scoringRequest base cv.case review, .ok message) ∧
      parseJudgeResponse py (points (extractText message)) = .ok cv.verdict

end

variable {py : Interpreter} {base : Settings} {cases : List GoldenCase}
  {reviewsByCaseId : String → Option Review} {h : JudgeHistory}

theorem asked_cons (o : Occurrence OrchestratorSignature) :
    asked (o :: h) = asked h ++ (askedAt o).toList := by
  unfold asked
  cases hasked : askedAt o <;> simp [hasked]

theorem verdictOf_bounds {rawText : Text} {members : List (Text × Json.Value)}
    {verdict : JudgeVerdict} (h : verdictOf py rawText members = .ok verdict) :
    0 ≤ verdict.score ∧ verdict.score ≤ 1000 := by
  unfold verdictOf at h
  split at h
  · cases h
  · split at h
    · cases h
    · split at h
      · rename_i score hscore
        obtain rfl := Except.ok.inj h
        cases hvalue : floatOf py (getMember "score" members) with
        | error e => simp [hvalue, bind, Except.bind] at hscore
        | ok value =>
          rw [hvalue] at hscore
          obtain ⟨score', hclamped, hbounds⟩ := clampScore_ok value
          cases hclamped.symm.trans hscore
          exact hbounds
      · split at h <;> cases h
  · cases h

theorem parseJudgeResponse_bounds {rawText : Text} {verdict : JudgeVerdict}
    (h : parseJudgeResponse py rawText = .ok verdict) :
    0 ≤ verdict.score ∧ verdict.score ≤ 1000 := by
  cases hload : Json.loads py.limits (stripCodeFence rawText) with
  | error failure =>
    obtain ⟨e, he, -⟩ := parseJudgeResponse_error hload
    cases he.symm.trans h
  | ok payload =>
    cases payload with
    | object members =>
      rw [parseJudgeResponse_object hload] at h
      exact verdictOf_bounds h
    | _ => simp [parseJudgeResponse, hload] at h

/-- A call that returns has its request answered, and asks for nothing else. -/
def CallAnswered (call : LlmCall) (h : JudgeHistory) (response : LlmResponse) (h' : JudgeHistory) :
    Prop :=
  ∃ message, response.text = extractText message ∧ asked h' = asked h ++
    [(AnthropicLlmClient.request call.settings call.system call.user, .ok message)]

/-- What a call outside any review does, and what it leaves. -/
theorem complete_follows {C : JudgeHistory → OrchestratorOp → Prop} (call : LlmCall)
    (hid : call.reviewId = none)
    (hfree : ∀ h, C h (.now .budget) ∧ C h (.latencyMs .llmCall) ∧
      ∀ day, C h (.sumLlmCostForDay day))
    (hask : ∀ h', Affords call.settings h' → asked h' = asked h →
      C h' (.createMessage (AnthropicLlmClient.request call.settings call.system call.user))) :
    Program.Follows C (Ends (CallAnswered call h) fun _ => True) h call.complete := by
  have hended : ∀ e h', Program.Follows C (Ends (CallAnswered call h) fun _ => True) h'
      (program call (.ended (.error e))) := fun e h' => trivial
  show Program.Follows C _ h (program call fresh)
  rw [program_fresh]
  refine ⟨(hfree h).1, fun now => ?_⟩
  show Program.Follows C _ _ (program call (dated now))
  rw [program_dated]
  refine ⟨(hfree _).2.2 _, fun spent => ?_⟩
  show Program.Follows C _ _ (program call (afterSum call spent))
  cases spent with
  | error e => exact hended e _
  | ok spent =>
    rw [afterSum]
    split
    · exact hended _ _
    · rename_i hblocks
      split
      · exact hended _ _
      · rw [program_admitted]
        have hroom : (BudgetGuard.mk call.settings.budgetDailyCapUsd).blocks spent = false := by
          rwa [Bool.not_eq_true] at hblocks
        refine ⟨hask _ hroom (by simp [asked_cons, askedAt]), fun answer => ?_⟩
        show Program.Follows C _ _ (program call (afterAnswer answer))
        cases answer with
        | error e => exact hended _ _
        | ok message =>
          show Program.Follows C _ _ (program call (answered message))
          rw [program_answered]
          refine ⟨(hfree _).2.1, fun latencyMs => ?_⟩
          show Program.Follows C _ _ (program call (afterLatency call message latencyMs))
          rw [afterLatency, hid]
          cases call.cost message with
          | error e => exact hended e _
          | ok costUsd => exact ⟨message, rfl, by simp [asked_cons, askedAt]⟩

/-- A review is scored by the answer to one request, if at all. -/
theorem anthropicJudge_follows {case : GoldenCase} {review : Review}
    (hreview : reviewsByCaseId case.caseId = some review) (hnext : cases[(asked h).length]? = some case) :
    Program.Follows (MayAsk base cases reviewsByCaseId)
      (Ends (fun verdict h' => ∃ answered, asked h' = asked h ++ [answered] ∧
        JudgedBy py base reviewsByCaseId ⟨case, verdict⟩ answered) fun _ => True) h
      (anthropicJudge py base case review) := by
  refine (complete_follows (scoringCall base case review) rfl (fun h' => ⟨trivial, trivial,
    fun day => trivial⟩) fun h' hroom hasked => ?_).bind (fun response h' hresponse => ?_)
    fun e h' _ => trivial
  · exact ⟨hroom, case, review, hasked ▸ hnext, hreview, rfl⟩
  · obtain ⟨message, htext, hasked⟩ := hresponse
    rw [htext]
    cases hverdict : parseJudgeResponse py (points (extractText message)) with
    | error e => trivial
    | ok verdict => exact ⟨_, hasked, review, message, hreview, rfl, hverdict⟩

/-- The loop goes on from the cases that are judged already. -/
theorem judgeCases_follows {rest : List GoldenCase} {judged : List CaseVerdict}
    (hcases : judged.map CaseVerdict.case ++ rest = cases)
    (hjudged : List.Forall₂ (JudgedBy py base reviewsByCaseId) judged (asked h)) :
    Program.Follows (MayAsk base cases reviewsByCaseId)
      (Ends (fun later h' => (judged ++ later).map CaseVerdict.case = cases ∧
        List.Forall₂ (JudgedBy py base reviewsByCaseId) (judged ++ later) (asked h')) fun _ => True) h
      (judgeCases py (anthropicJudge py base) reviewsByCaseId rest) := by
  induction rest generalizing judged h with
  | nil =>
    show _ ∧ _
    rw [List.append_nil] at hcases ⊢
    exact ⟨hcases, hjudged⟩
  | cons case rest ih =>
    rw [judgeCases]
    cases hreview : reviewsByCaseId case.caseId with
    | none => trivial
    | some review =>
      have hnext : cases[(asked h).length]? = some case := by
        rw [← hcases, ← hjudged.length_eq, List.getElem?_append_right (by simp)]
        simp
      refine (anthropicJudge_follows hreview hnext).bind (fun verdict h' hverdict => ?_)
        fun e h' _ => trivial
      obtain ⟨answered, hasked, hby⟩ := hverdict
      have hcases' : (judged ++ [(⟨case, verdict⟩ : CaseVerdict)]).map CaseVerdict.case ++ rest = cases := by
        simpa using hcases
      have hjudged' : List.Forall₂ (JudgedBy py base reviewsByCaseId) (judged ++ [⟨case, verdict⟩])
          (asked h') := by
        rw [hasked]
        exact List.rel_append hjudged (.cons hby .nil)
      refine (ih hcases' hjudged').bind (fun later h'' hlater => ?_) fun e h' _ => trivial
      obtain ⟨hall, hby'⟩ := hlater
      rw [List.append_assoc] at hall hby'
      exact ⟨hall, hby'⟩

/-- What the gate's verdicts rest on: every case judged, in order, by the answer to the one request
made for its review, and the mean against the threshold. -/
structure GateDecision (py : Interpreter) (base : Settings) (cases : List GoldenCase)
    (reviewsByCaseId : String → Option Review) (threshold : ℚ) (result : RegressionGateResult)
    (h : JudgeHistory) : Prop where
  cases_eq : result.caseVerdicts.map CaseVerdict.case = cases
  judged : List.Forall₂ (JudgedBy py base reviewsByCaseId) result.caseVerdicts (asked h)
  passed_iff : result.passed = true ↔
    ⌈1000 * threshold⌉ - 1 / 2 ≤ (sumScores result.caseVerdicts : ℚ) / cases.length

theorem gateResult_verdicts {threshold : ℚ} {caseVerdicts : List CaseVerdict}
    {result : RegressionGateResult} (h : gateResult threshold caseVerdicts = .ok result) :
    result.caseVerdicts = caseVerdicts := by
  unfold gateResult at h
  cases hmean : meanScore caseVerdicts with
  | error e =>
    rw [hmean] at h
    cases h
  | ok mean =>
    rw [hmean] at h
    obtain rfl := Except.ok.inj h
    rfl

theorem scored_of_judged {judged : List CaseVerdict}
    {answers : List (MessageRequest × Except Exc Message)}
    (h : List.Forall₂ (JudgedBy py base reviewsByCaseId) judged answers) : Scored judged := by
  induction h with
  | nil => exact fun cv hmem => absurd hmem List.not_mem_nil
  | cons hby hrest ih =>
    intro cv hmem
    rcases List.mem_cons.mp hmem with rfl | hmem
    · obtain ⟨review, message, -, -, hverdict⟩ := hby
      exact parseJudgeResponse_bounds hverdict
    · exact ih cv hmem

/-- Whatever is answered, the gate asks about its cases one after another, each time right after a
read of the day's spend that leaves room, and writes nothing; and where it decides, it has asked
about every case and decides by the exact mean of the scores. -/
theorem gate_asks_and_decides (py : Interpreter) (base : Settings) {cases : List GoldenCase}
    (reviewsByCaseId : String → Option Review) (threshold : ℚ) (hlen : cases.length ≤ sysMaxsize) :
    Program.Follows (MayAsk base cases reviewsByCaseId)
      (Ends (GateDecision py base cases reviewsByCaseId threshold) fun _ => True) []
      (runRegressionGate py (anthropicJudge py base) reviewsByCaseId cases threshold) := by
  have hloop : Program.Follows (MayAsk base cases reviewsByCaseId)
      (Ends (fun later h' => ([] ++ later).map CaseVerdict.case = cases ∧
        List.Forall₂ (JudgedBy py base reviewsByCaseId) ([] ++ later) (asked h')) fun _ => True) []
      (judgeCases py (anthropicJudge py base) reviewsByCaseId cases) :=
    judgeCases_follows rfl .nil
  refine hloop.bind (fun later h' hlater => ?_) fun e h' _ => trivial
  obtain ⟨hcases, hjudged⟩ := hlater
  rw [List.nil_append] at hcases hjudged
  cases hresult : gateResult threshold later with
  | error e => trivial
  | ok result =>
    have hlength : later.length = cases.length := by
      rw [← hcases, List.length_map]
    have hscored := scored_of_judged hjudged
    have hpassed := passed_iff hscored (hlength ▸ hlen) hresult
    have hverdicts := gateResult_verdicts hresult
    exact ⟨hverdicts ▸ hcases, hverdicts ▸ hjudged, by rwa [hverdicts, ← hlength]⟩

def GoldenCase.sample : GoldenCase where
  caseId := "clean-refactor"
  description := "A rename"
  diffPath := "tests/fixtures/clean.patch"
  expectedClean := true
  expectedFindings := []
  diffText := points "-a = 1\n+b = 1\n"
  caseId_length := by decide
  description_length := by decide
  diffPath_length := by decide

/-- A gate over one case, with the review produced for it. -/
theorem sample_gate_decides :
    Program.Follows (MayAsk centSettings [GoldenCase.sample] fun _ => some Review.sample)
      (Ends (GateDecision .sample centSettings [GoldenCase.sample] (fun _ => some Review.sample)
        regressionGateThreshold) fun _ => True) []
      (runRegressionGate .sample (anthropicJudge .sample centSettings)
        (fun _ => some Review.sample) [GoldenCase.sample] regressionGateThreshold) :=
  gate_asks_and_decides .sample centSettings (fun _ => some Review.sample) regressionGateThreshold
    (by decide)

end ReviewAgent
