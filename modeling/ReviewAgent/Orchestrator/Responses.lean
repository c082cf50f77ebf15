import ReviewAgent.Agents.Payloads
import ReviewAgent.Orchestrator.ForcedReview

/-! The text of a specialist's response: when it crashes the specialist, and when a critical claim
in it reaches the gate. -/
namespace ReviewAgent

open Effects
open Json (Text Value lookup points)

/-- The response that the one call of a specialist gets. -/
def Responds (setup : AgentSetup) (answers : Answers) (agentType : AgentType) (diff : String)
    (reviewId : Option String) (response : LlmResponse) : Prop :=
  ∃ userMessage, (buildUserMessage diff setup.retriever).outcome answers = .ok userMessage ∧
    (AnthropicLlmClient.complete setup.settings (setup.systemPrompt agentType) userMessage
      (agentName agentType) reviewId).outcome answers = .ok response

section

variable {py : Interpreter} {text : Text}

/-- The search for JSON ends without an exception exactly within the limits. -/
theorem readable_iff {text : String} :
    Readable py text ↔ WithinLimits py.limits (strip (points text)) := by
  unfold Readable WithinLimits
  rcases payloadOf_cases py (strip (points text)) with ⟨hbeyond, e, hpayload⟩ |
      ⟨hwithin, hholds, value, hpayload⟩ | ⟨hwithin, hholds, hpayload⟩
  · rw [extractJsonPayload_of_error hpayload]
    exact iff_of_false (by simp) fun h => h.1 hbeyond
  · rw [extractJsonPayload_of_some hpayload]
    exact iff_of_true ⟨_, rfl⟩ ⟨hwithin, fun h => absurd hholds h⟩
  · rw [extractJsonPayload_of_none hpayload]
    cases hfence : fenceSearch (strip (points text)) with
    | none => exact iff_of_true ⟨_, rfl⟩ ⟨hwithin, fun _ block h => by cases h⟩
    | some block =>
      have hblock : (∃ payload, payloadOf py (strip block) = .ok payload) ↔
          ¬ BeyondLimits py.limits (strip block) := by
        rcases payloadOf_cases py (strip block) with ⟨h, e, hresult⟩ | ⟨h, -, value, hresult⟩ |
          ⟨h, -, hresult⟩
        · rw [hresult]
          exact iff_of_false (by simp) fun hnot => hnot h
        · exact iff_of_true ⟨_, hresult⟩ h
        · exact iff_of_true ⟨_, hresult⟩ h
      rw [hblock]
      constructor
      · rintro h
        refine ⟨hwithin, fun _ block' hblock' => ?_⟩
        obtain rfl := Option.some.inj hblock'
        exact h
      · exact fun h => h.2 hholds block rfl

end

section

variable {setup : AgentSetup} {answers : Answers} {agentType : AgentType} {diff : String}
  {reviewId : Option String} {response : LlmResponse}

theorem outcome_of_responds (h : Responds setup answers agentType diff reviewId response) :
    (runSpecialistAnalysis setup agentType diff reviewId).outcome answers =
      findingsOrFallback setup agentType response.text := by
  obtain ⟨userMessage, hmessage, hresponse⟩ := h
  rw [runSpecialistAnalysis, Program.outcome_bind, hmessage]
  show ((AnthropicLlmClient.complete _ _ _ _ _ >>= _ : Orchestrated _).outcome answers) = _
  rw [Program.outcome_bind, hresponse]
  rfl

/-- The findings that a text is parsed as, or else the one finding that says that it cannot be. -/
def ParsedOrFallback (setup : AgentSetup) (agentType : AgentType) (text : String)
    (findings : List Finding) : Prop :=
  parseFindingsFromLlmResponse setup.py setup.modelValidate (points text) agentType = .ok findings ∨
    ∃ e fallback,
      parseFindingsFromLlmResponse setup.py setup.modelValidate (points text) agentType = .error e ∧
      e.isInstance .responseParseError = true ∧ ForcesReview fallback ∧
      parseFailureFallbackFinding agentType e = .ok fallback ∧ findings = [fallback]

theorem parsedOrFallback_of_ok {text : String} {findings : List Finding}
    (h : findingsOrFallback setup agentType text = .ok findings) :
    ParsedOrFallback setup agentType text findings := by
  unfold findingsOrFallback at h
  cases hparse : parseFindingsFromLlmResponse setup.py setup.modelValidate (points text)
      agentType with
  | ok parsed =>
    rw [hparse] at h
    exact Or.inl (h ▸ hparse)
  | error e =>
    simp only [hparse] at h
    split at h
    · rename_i hclass
      cases hfallback : parseFailureFallbackFinding agentType e with
      | error e' =>
        rw [hfallback] at h
        cases h
      | ok fallback =>
        rw [hfallback] at h
        obtain ⟨-, hseverity, -, -, -, hconfidence, -⟩ := Finding.validate_fields hfallback
        exact Or.inr ⟨e, fallback, hparse, hclass, ⟨hseverity, hconfidence⟩, hfallback,
          (Except.ok.inj h).symm⟩
    · cases h

/-- A response crashes no specialist, and becomes its findings or the one that forces review,
exactly if reading it stays within the limits of the decoder. -/
theorem response_never_crashes_iff (h : Responds setup answers agentType diff reviewId response) :
    (∃ findings, (runSpecialistAnalysis setup agentType diff reviewId).outcome answers =
        .ok findings ∧ ParsedOrFallback setup agentType response.text findings) ↔
      WithinLimits setup.py.limits (strip (points response.text)) := by
  rw [outcome_of_responds h, ← readable_iff]
  rcases findingsOrFallback_cases setup agentType response.text with
    ⟨hread, findings, hfindings, -⟩ | ⟨hread, e, hfindings, -⟩
  · exact iff_of_true ⟨findings, hfindings, parsedOrFallback_of_ok hfindings⟩ hread
  · rw [hfindings]
    exact iff_of_false (by simp) hread

/-- An object that claims to be critical. -/
def claimsCritical : Value → Bool
  | .object members =>
    (lookup (points "severity") members).bind strField = some Severity.critical.value
  | _ => false

example : claimsCritical (.object [(points "severity", .str (points "CRITICAL"))]) = true := by
  decide +kernel

/-- Findings with which every review is queued. -/
def ReachesGate (result : Except Exc (List Finding)) : Prop :=
  ∃ findings, result = .ok findings ∧ hasCriticalFinding findings = true ∧
    ∀ (threshold : Confidence) (raw : PyList Finding), findings ⊆ raw.toList →
      ∃ routed, routeFindings threshold raw.toList = .ok routed ∧ routed.status = .queuedForHitl

/-- Whatever else a review includes, a critical finding queues it. -/
theorem reachesGate_iff {findings : List Finding} :
    ReachesGate (.ok findings) ↔ ∃ f ∈ findings, f.severity = .critical := by
  rw [← hasCriticalFinding_iff]
  constructor
  · rintro ⟨findings', heq, hcritical, -⟩
    rwa [Except.ok.inj heq]
  · intro hcritical
    refine ⟨findings, rfl, hcritical, fun threshold raw hincluded => ?_⟩
    obtain ⟨routed, hrouted, hposted, hqueued, -⟩ := routeFindings_posted_iff threshold raw
    refine ⟨routed, hrouted, hqueued fun h => ?_⟩
    obtain ⟨f, hf, hseverity⟩ := hasCriticalFinding_iff.mp hcritical
    exact (hposted.mp h).1 f (hincluded hf) hseverity

/-- A critical claim among the items of a response reaches the gate exactly if some critical item
is valid, or no item is. -/
theorem critical_claim_reaches_gate_iff {payload : Value} {items : List Value}
    (hresponds : Responds setup answers agentType diff reviewId response)
    (hpayload : extractJsonPayload setup.py (points response.text) = .ok (some payload))
    (hitems : extractFindingDicts payload = some items)
    (hclaims : ∃ item ∈ items, claimsCritical item = true) :
    ReachesGate ((runSpecialistAnalysis setup agentType diff reviewId).outcome answers) ↔
      (∃ item ∈ items, ∃ f, findingOf setup.modelValidate agentType item = some f ∧
        f.severity = .critical) ∨
      ∀ item ∈ items, findingOf setup.modelValidate agentType item = none := by
  rw [outcome_of_responds hresponds]
  have hparse : parseFindingsFromLlmResponse setup.py setup.modelValidate (points response.text)
      agentType =
        if (items.filterMap (findingOf setup.modelValidate agentType)).isEmpty && !items.isEmpty then
          .error (responseParseError
            "no valid Finding objects could be extracted from the LLM response")
        else .ok (items.filterMap (findingOf setup.modelValidate agentType)) := by
    simp only [parseFindingsFromLlmResponse, hpayload, bind, Except.bind, hitems]
    rfl
  have hnonempty : items.isEmpty = false := by
    obtain ⟨item, hmem, -⟩ := hclaims
    exact List.isEmpty_eq_false_iff_exists_mem.mpr ⟨item, hmem⟩
  have hnone : (items.filterMap (findingOf setup.modelValidate agentType)).isEmpty = true ↔
      ∀ item ∈ items, findingOf setup.modelValidate agentType item = none := by
    rw [List.isEmpty_iff, List.filterMap_eq_nil_iff]
  by_cases hempty : (items.filterMap (findingOf setup.modelValidate agentType)).isEmpty = true
  · -- nothing is valid: the fallback is critical
    refine iff_of_true ?_ (Or.inr (hnone.mp hempty))
    obtain ⟨fallback, hforces, hfallback⟩ := parseFailureFallbackFinding_ok agentType
      (e := responseParseError "no valid Finding objects could be extracted from the LLM response")
      (by decide)
    have hresult : findingsOrFallback setup agentType response.text = .ok [fallback] := by
      rw [findingsOrFallback, hparse, hempty, hnonempty]
      show (parseFailureFallbackFinding agentType _ >>= fun fallback => pure [fallback]) = _
      rw [hfallback]
      rfl
    rw [hresult, reachesGate_iff]
    exact ⟨fallback, List.mem_singleton_self _, hforces.1⟩
  · have hresult : findingsOrFallback setup agentType response.text =
        .ok (items.filterMap (findingOf setup.modelValidate agentType)) := by
      rw [findingsOrFallback, hparse, Bool.eq_false_iff.mpr hempty]
      rfl
    rw [hresult, reachesGate_iff]
    constructor
    · rintro ⟨f, hf, hseverity⟩
      obtain ⟨item, hmem, hitem⟩ := List.mem_filterMap.mp hf
      exact Or.inl ⟨item, hmem, f, hitem, hseverity⟩
    · rintro (⟨item, hmem, f, hitem, hseverity⟩ | hall)
      · exact ⟨f, List.mem_filterMap.mpr ⟨item, hmem, hitem⟩, hseverity⟩
      · exact absurd (hnone.mpr hall) hempty

end

/-- A run in good order in which every specialist answers with the text. -/
def RunAnswers.answering (text : String) : RunAnswers
  | .node _ (.createMessage _) => Except.ok ⟨[.text text], 1, 1⟩
  | op => RunAnswers.healthy op

/-- The specialists of the sample, where documents are validated as they stand. -/
def AgentSetup.asIs : AgentSetup := { AgentSetup.sample with modelValidate := validateAsIs }

theorem responds_of_text {answers : Answers} {text : String} (agentType : AgentType)
    (hspent : BudgetGuard.budgetRead answers = .ok ⟨none, Spend.none_lt⟩)
    (hwrites : WritesFailByOutage answers)
    (hanswer : ∀ request, answers (.createMessage request) = .ok ⟨[.text text], 1, 1⟩) :
    ∃ response, response.text = text ∧
      Responds AgentSetup.asIs answers agentType "" (some "run") response := by
  have hnames : Attributable "run" (agentName agentType) := by
    have := (agentName_length agentType).2
    exact ⟨by decide, by omega⟩
  have hcost : computeCostUsd "claude-haiku-4-5" 1 1 = .ok 6 := by decide +kernel
  have hbill : AnthropicLlmClient.Billable AgentSetup.asIs.settings ⟨[.text text], 1, 1⟩ :=
    ⟨6, hcost, by norm_num⟩
  rcases AnthropicLlmClient.account_outcome AgentSetup.asIs.settings ⟨[.text text], 1, 1⟩ hwrites
    hnames with ⟨-, response, htext, haccount⟩ | ⟨hfree, -⟩
  · refine ⟨response, ?_, "", rfl, ?_⟩
    · rw [htext]
      simp [extractText, String.join]
    · rw [AnthropicLlmClient.complete_admitted hspent (by decide +kernel), hanswer]
      exact haccount
  · exact absurd hbill hfree

theorem responds_answering (text : String) (agentType : AgentType) : ∃ response,
    response.text = text ∧ Responds AgentSetup.asIs
      ((RunAnswers.answering text).at (.specialist agentType)) agentType "" (some "run") response :=
  responds_of_text agentType rfl (fun _ _ h => by cases h) fun _ => rfl

theorem points_ofList (chars : List Char) :
    points (String.ofList chars) = chars.map Char.toNat := by
  rw [points, String.toList_ofList]

theorem nines_unreadable :
    (extractJsonPayload AgentSetup.asIs.py (List.replicate 4301 '9'.toNat)).isOk = false := by
  decide +kernel

/-- A number of 4301 digits escapes from the specialist as a `ValueError`. -/
theorem long_integer_crashes : ¬ ∀ (setup : AgentSetup) (answers : Answers) (agentType : AgentType)
    (diff : String) (reviewId : Option String) (response : LlmResponse),
    Responds setup answers agentType diff reviewId response →
    ∃ findings, (runSpecialistAnalysis setup agentType diff reviewId).outcome answers =
      .ok findings ∧ ParsedOrFallback setup agentType response.text findings := by
  intro h
  obtain ⟨response, htext, hresponds⟩ :=
    responds_answering (String.ofList (List.replicate 4301 '9')) .security
  obtain ⟨findings, hfindings, -⟩ := h _ _ _ _ _ _ hresponds
  rw [outcome_of_responds hresponds] at hfindings
  rcases findingsOrFallback_cases AgentSetup.asIs .security response.text with
    ⟨⟨payload, hpayload⟩, -⟩ | ⟨-, e, he, -⟩
  · rw [htext, points_ofList, List.map_replicate] at hpayload
    have hunreadable := nines_unreadable
    rw [hpayload] at hunreadable
    cases hunreadable
  · cases he.symm.trans hfindings

theorem response_never_crashes_iff_empty : ∃ (response : LlmResponse)
    (findings : List Finding), response.text = "[]" ∧
    (runSpecialistAnalysis AgentSetup.asIs .security "" (some "run")).outcome
        ((RunAnswers.answering "[]").at (.specialist .security)) = .ok findings ∧
      ParsedOrFallback AgentSetup.asIs .security response.text findings := by
  obtain ⟨response, htext, hresponds⟩ := responds_answering "[]" .security
  have hread : (extractJsonPayload AgentSetup.asIs.py (points response.text)).isOk = true := by
    rw [htext]
    decide +kernel
  obtain ⟨payload, hpayload⟩ : Readable AgentSetup.asIs.py response.text := by
    unfold Readable
    cases hresult : extractJsonPayload AgentSetup.asIs.py (points response.text) with
    | ok payload => exact ⟨payload, rfl⟩
    | error e => simp [hresult, Except.isOk, Except.toBool] at hread
  obtain ⟨findings, hfindings⟩ :=
    (response_never_crashes_iff hresponds).mpr (readable_iff.mp ⟨payload, hpayload⟩)
  exact ⟨response, findings, htext, hfindings⟩

/-- The text lists a critical claim, and what of it validates passes the check. -/
def listsClaim (text : Text) (check : List Finding → Bool) : Bool :=
  match extractJsonPayload AgentSetup.asIs.py text with
  | .ok (some payload) => (extractFindingDicts payload).any fun items =>
      items.any claimsCritical && check (items.filterMap (findingOf validateAsIs .security))
  | _ => false

theorem exists_of_listsClaim {text : Text} {check : List Finding → Bool}
    (h : listsClaim text check = true) : ∃ payload items,
      extractJsonPayload AgentSetup.asIs.py text = .ok (some payload) ∧
      extractFindingDicts payload = some items ∧ (∃ item ∈ items, claimsCritical item = true) ∧
      check (items.filterMap (findingOf validateAsIs .security)) = true := by
  unfold listsClaim at h
  split at h
  · rename_i payload hpayload
    obtain ⟨items, hitems, h⟩ := (Option.any_eq_true _ _).mp h
    rw [Bool.and_eq_true, List.any_eq_true] at h
    exact ⟨payload, items, hpayload, hitems, h.1, h.2⟩
  · cases h

/-- One item with the given severity and confidence. -/
def itemChars (severity confidence : String) : List Char :=
  ["\x7b\"severity\":\"", severity, "\",\"category\":\"rce\",", "\"file_path\":\"a.py\",",
    "\"line_start\":1,", "\"line_end\":1,", "\"confidence\":\"", confidence,
    "\",\"rationale\":\"raw\"\x7d"].flatMap String.toList

/-- A critical item with one decimal place too many, and a valid one of low severity. -/
def imprecise : List Char :=
  ['['] ++ itemChars "CRITICAL" "0.9001" ++ [','] ++ itemChars "LOW" "0.900" ++ [']']

/-- The critical claim is dropped, and nothing of it reaches the gate. -/
theorem critical_claim_dropped : ¬ ∀ (setup : AgentSetup) (answers : Answers)
    (agentType : AgentType) (diff : String) (reviewId : Option String) (response : LlmResponse)
    (payload : Value) (items : List Value),
    Responds setup answers agentType diff reviewId response →
    extractJsonPayload setup.py (points response.text) = .ok (some payload) →
    extractFindingDicts payload = some items → (∃ item ∈ items, claimsCritical item = true) →
    ReachesGate ((runSpecialistAnalysis setup agentType diff reviewId).outcome answers) := by
  intro h
  obtain ⟨response, htext, hresponds⟩ := responds_answering (String.ofList imprecise) .security
  have hcheck : listsClaim (imprecise.map Char.toNat) (fun findings =>
      findings.all (fun f => f.severity = .low) && !findings.isEmpty) = true := by
    decide +kernel
  rw [← points_ofList, ← htext] at hcheck
  obtain ⟨payload, items, hpayload, hitems, hclaims, hfindings⟩ := exists_of_listsClaim hcheck
  rw [Bool.and_eq_true, Bool.not_eq_true', List.all_eq_true] at hfindings
  have hgate := h _ _ _ _ _ _ _ _ hresponds hpayload hitems hclaims
  have hparse : parseFindingsFromLlmResponse AgentSetup.asIs.py AgentSetup.asIs.modelValidate
      (points response.text) .security =
        .ok (items.filterMap (findingOf validateAsIs .security)) := by
    simp only [parseFindingsFromLlmResponse, hpayload, bind, Except.bind, hitems]
    exact if_neg (by simp [AgentSetup.asIs, hfindings.2])
  rw [outcome_of_responds hresponds, findingsOrFallback, hparse, reachesGate_iff] at hgate
  obtain ⟨f, hf, hcritical⟩ := hgate
  have hlow := of_decide_eq_true (hfindings.1 f hf)
  rw [hcritical] at hlow
  cases hlow

/-- A critical item that is valid. -/
def valid : List Char := ['['] ++ itemChars "CRITICAL" "0.900" ++ [']']

theorem critical_claim_reaches_gate_iff_valid : ∃ response : LlmResponse,
    response.text = String.ofList valid ∧
    ReachesGate ((runSpecialistAnalysis AgentSetup.asIs .security "" (some "run")).outcome
      ((RunAnswers.answering (String.ofList valid)).at (.specialist .security))) := by
  obtain ⟨response, htext, hresponds⟩ := responds_answering (String.ofList valid) .security
  have hcheck : listsClaim (valid.map Char.toNat) (fun findings =>
      findings.any fun f => f.severity = .critical) = true := by
    decide +kernel
  rw [← points_ofList, ← htext] at hcheck
  obtain ⟨payload, items, hpayload, hitems, hclaims, hfindings⟩ := exists_of_listsClaim hcheck
  obtain ⟨f, hf, hcritical⟩ := List.any_eq_true.mp hfindings
  obtain ⟨item, hmem, hitem⟩ := List.mem_filterMap.mp hf
  exact ⟨response, htext, (critical_claim_reaches_gate_iff hresponds hpayload hitems
    hclaims).mpr (Or.inl ⟨item, hmem, f, hitem, of_decide_eq_true hcritical⟩)⟩

end ReviewAgent
