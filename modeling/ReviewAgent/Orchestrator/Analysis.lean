import ReviewAgent.Agents.BaseAgent
import ReviewAgent.Orchestrator.Nodes

/-! How a specialist's analysis ends, given what it asks of the world. -/
namespace ReviewAgent

open Effects
open Json (Failure Text points)

theorem extractEmbeddedJson_error {py : Interpreter} {text : Text} {e : Exc}
    (h : extractEmbeddedJson py text = .error e) :
    ∃ rest failure, e = decoderError py rest failure := by
  induction text with
  | nil => cases h
  | cons c text ih =>
    rw [extractEmbeddedJson] at h
    split at h
    · split at h
      · cases h
      · exact ih h
      · exact ⟨_, _, (Except.error.inj h).symm⟩
    · exact ih h

theorem payloadOf_error {py : Interpreter} {text : Text} {e : Exc}
    (h : payloadOf py text = .error e) : ∃ rest failure, e = decoderError py rest failure := by
  unfold payloadOf at h
  cases hdirect : tryJsonLoads py text with
  | error e' =>
    rw [hdirect] at h
    obtain rfl := Except.error.inj h
    unfold tryJsonLoads at hdirect
    split at hdirect <;> cases hdirect
    exact ⟨_, _, rfl⟩
  | ok direct =>
    rw [hdirect] at h
    cases direct with
    | some value => cases h
    | none => exact extractEmbeddedJson_error h

/-- What escapes from the search for a payload is a failure of the decoder. -/
theorem extractJsonPayload_error {py : Interpreter} {text : Text} {e : Exc}
    (h : extractJsonPayload py text = .error e) :
    ∃ rest failure, e = decoderError py rest failure := by
  unfold extractJsonPayload at h
  cases hwhole : payloadOf py (strip text) with
  | error e' =>
    simp only [hwhole, bind, Except.bind] at h
    obtain rfl := Except.error.inj h
    exact payloadOf_error hwhole
  | ok payload =>
    simp only [hwhole, bind, Except.bind] at h
    split at h
    · cases h
    · split at h
      · exact payloadOf_error h
      · cases h

/-- The classes a node does anything about. -/
def handledExceptions : List ExcClass := .agentExecutionError :: infrastructureFailureExceptions

theorem decoderError_unhandled {py : Interpreter} {rest : Text} {failure : Failure} :
    (decoderError py rest failure).isInstance .responseParseError = false ∧
      (decoderError py rest failure).isInstanceOfAny handledExceptions = false := by
  cases failure <;> exact ⟨rfl, rfl⟩

/-- The search for JSON in the text meets nothing beyond the decoder's limits. -/
def Readable (py : Interpreter) (text : String) : Prop :=
  ∃ payload, extractJsonPayload py (points text) = .ok payload

/-- The findings are what the text is parsed as, or the one that says that it is unparseable. -/
def Contributed (setup : AgentSetup) (agentType : AgentType) (text : String)
    (findings : List Finding) : Prop :=
  parseFindingsFromLlmResponse setup.py setup.modelValidate (points text) agentType = .ok findings ∨
    ∃ finding, ForcesReview finding ∧ findings = [finding]

section

variable {setup : AgentSetup} {agentType : AgentType} {text : String}

/-- A response yields findings, or the fallback, exactly if it is readable. -/
theorem findingsOrFallback_cases (setup : AgentSetup) (agentType : AgentType) (text : String) :
    (Readable setup.py text ∧ ∃ findings, findingsOrFallback setup agentType text = .ok findings ∧
        Contributed setup agentType text findings) ∨
      (¬ Readable setup.py text ∧ ∃ e, findingsOrFallback setup agentType text = .error e ∧
        e.isInstanceOfAny handledExceptions = false) := by
  cases hpayload : extractJsonPayload setup.py (points text) with
  | error e =>
    obtain ⟨rest, failure, rfl⟩ := extractJsonPayload_error hpayload
    have hparse : parseFindingsFromLlmResponse setup.py setup.modelValidate (points text)
        agentType = .error (decoderError setup.py rest failure) := by
      simp only [parseFindingsFromLlmResponse, hpayload]
      rfl
    refine Or.inr ⟨?_, decoderError setup.py rest failure, ?_, decoderError_unhandled.2⟩
    · rintro ⟨payload, hok⟩
      rw [hpayload] at hok
      cases hok
    · rw [findingsOrFallback, hparse]
      simp only [decoderError_unhandled.1]
      rfl
  | ok payload =>
    refine Or.inl ⟨⟨payload, hpayload⟩, ?_⟩
    have hfallback : ∀ message : String, message.length ≤ 4000 →
        parseFindingsFromLlmResponse setup.py setup.modelValidate (points text) agentType =
          .error (responseParseError message) →
        ∃ findings, findingsOrFallback setup agentType text = .ok findings ∧
          Contributed setup agentType text findings := by
      intro message hshort hparse
      obtain ⟨finding, hforces, hvalid⟩ := parseFailureFallbackFinding_ok agentType
        (e := responseParseError message) hshort
      refine ⟨[finding], ?_, Or.inr ⟨finding, hforces, rfl⟩⟩
      have hclass : (responseParseError message).isInstance .responseParseError = true := rfl
      rw [findingsOrFallback, hparse]
      simp only [hclass, if_true, hvalid]
      rfl
    cases hparse : parseFindingsFromLlmResponse setup.py setup.modelValidate (points text)
        agentType with
    | ok findings =>
      refine ⟨findings, ?_, Or.inl hparse⟩
      rw [findingsOrFallback, hparse]
    | error e =>
      obtain ⟨message, hshort, rfl⟩ : ∃ message : String, message.length ≤ 4000 ∧
          e = responseParseError message := by
        simp only [parseFindingsFromLlmResponse, hpayload, bind, Except.bind] at hparse
        repeat' split at hparse
        all_goals cases hparse
        · exact ⟨_, by decide, rfl⟩
        · exact ⟨_, (String.length_append _ _).le.trans (by decide), rfl⟩
        · exact ⟨_, by decide, rfl⟩
      exact hfallback message hshort hparse

theorem buildUserMessage_ok {answers : Answers} {diff : String} {chunks : List RetrievedChunk}
    (h : answers (.hybridSearch diff retrievalTopK) = .ok chunks) :
    (buildUserMessage diff true).outcome answers = .ok (groundDiff diff chunks) := by
  unfold buildUserMessage
  simp only [if_true]
  rw [Program.outcome_bind, Program.outcome_attempt, outcome_attemptOp, h]
  rfl

theorem buildUserMessage_error {answers : Answers} {diff : String} {e : Exc}
    (h : answers (.hybridSearch diff retrievalTopK) = .error e) :
    (buildUserMessage diff true).outcome answers =
      if e.isInstance .exception then .ok diff else .error e := by
  unfold buildUserMessage
  simp only [if_true]
  rw [Program.outcome_bind, Program.outcome_attempt, outcome_attemptOp, h]
  simp only [bind, Except.bind]
  split <;> rfl

/-- What the user turn of the call says, given the answer of the retriever. -/
def userMessage (setup : AgentSetup) (answers : Answers) (diff : String) : String :=
  if setup.retriever then
    match answers (.hybridSearch diff retrievalTopK) with
    | .ok chunks => groundDiff diff chunks
    | .error _ => diff
  else diff

/-- The request that the specialist makes of the provider. -/
def specialistRequest (setup : AgentSetup) (answers : Answers) (agentType : AgentType)
    (diff : String) : MessageRequest :=
  AnthropicLlmClient.request setup.settings (setup.systemPrompt agentType)
    (userMessage setup answers diff)

/-- Retrieval fails with `Exception`s only. -/
def RetrievalFails (answers : Answers) : Prop :=
  ∀ diff topK, onlyExceptions (answers (.hybridSearch diff topK)) = true

theorem buildUserMessage_outcome {answers : Answers} (h : RetrievalFails answers) (diff : String) :
    (buildUserMessage diff setup.retriever).outcome answers =
      .ok (userMessage setup answers diff) := by
  unfold userMessage
  cases setup.retriever with
  | false => rfl
  | true =>
    have hfound := h diff retrievalTopK
    simp only [if_true]
    cases hanswer : answers (.hybridSearch diff retrievalTopK) with
    | ok chunks => exact buildUserMessage_ok hanswer
    | error e =>
      rw [hanswer] at hfound
      have hexception : e.isInstance .exception = true := hfound
      rw [buildUserMessage_error hanswer, if_pos hexception]

/-- The failures of a call that the client translates. -/
def translatedExceptions : List ExcClass :=
  [.retryExhaustedError, .circuitOpenError, anthropicError]

theorem llmCallFailure_cls {e : Exc} (h : e.isInstanceOfAny translatedExceptions = true) :
    (llmCallFailure e).cls = .llmCallFailedError := by
  unfold llmCallFailure
  split
  · rfl
  · split
    · rfl
    · rename_i hfirst hsecond
      simp only [Exc.isInstanceOfAny, translatedExceptions, List.any_cons, List.any_nil,
        Bool.or_false, Bool.or_eq_true] at h hfirst
      tauto

/-- The world fails a node only as databases, the provider and the retriever fail. -/
structure FailsByOutage (answers : Answers) : Prop where
  writes : WritesFailByOutage answers
  budget : ∀ dayStart e, answers (.sumLlmCostForDay dayStart) = .error e → IsOutage e
  retrieval : RetrievalFails answers
  calls : ∀ request e, answers (.createMessage request) = .error e →
    e.isInstanceOfAny translatedExceptions = true

/-- The budget is read; a call that is blocked, or fails, says no more than fits; and one that is
answered has a price and is readable. -/
def CanFinish (setup : AgentSetup) (answers : Answers) (agentType : AgentType) (diff : String) :
    Prop :=
  ∃ spent, BudgetGuard.budgetRead answers = .ok spent ∧
    if (BudgetGuard.mk setup.settings.budgetDailyCapUsd).blocks spent = true then
      MessageFits agentType (budgetExceeded spent setup.settings.budgetDailyCapUsd)
    else AnthropicLlmClient.client setup.settings = .ok () →
      match answers (.createMessage (specialistRequest setup answers agentType diff)) with
      | .ok message => AnthropicLlmClient.Billable setup.settings message ∧
          Readable setup.py (extractText message)
      | .error e => MessageFits agentType (llmCallFailure e)

/-- An analysis that a node returns from: with what its response contributes, or with a failure that
becomes the fallback. -/
def Isolated (setup : AgentSetup) (answers : Answers) (agentType : AgentType) (diff : String) :
    Except Exc (List Finding) → Prop
  | .ok findings => ∃ message,
      answers (.createMessage (specialistRequest setup answers agentType diff)) = .ok message ∧
        Contributed setup agentType (extractText message) findings
  | .error e => e.isInstanceOfAny infrastructureFailureExceptions = true ∧ MessageFits agentType e

/-- An analysis whose node raises. -/
def Escapes (agentType : AgentType) : Except Exc (List Finding) → Prop
  | .ok _ => False
  | .error e => e.isInstanceOfAny handledExceptions = false ∨
      e.isInstanceOfAny infrastructureFailureExceptions = true ∧ ¬ MessageFits agentType e

variable {answers : Answers} {diff reviewId : String}

/-- A response that came and was accounted for is read. -/
theorem answered_cases (hanswers : FailsByOutage answers)
    (hnames : Attributable reviewId (agentName agentType)) {message : Message}
    (hanswer : answers (.createMessage (specialistRequest setup answers agentType diff)) =
      .ok message) :
    ((AnthropicLlmClient.Billable setup.settings message ∧
        Readable setup.py (extractText message)) ∧ Isolated setup answers agentType diff
          ((AnthropicLlmClient.account setup.settings (agentName agentType) (some reviewId)
            message).outcome answers >>= fun response =>
              findingsOrFallback setup agentType response.text)) ∨
      (¬ (AnthropicLlmClient.Billable setup.settings message ∧
        Readable setup.py (extractText message)) ∧ Escapes agentType
          ((AnthropicLlmClient.account setup.settings (agentName agentType) (some reviewId)
            message).outcome answers >>= fun response =>
              findingsOrFallback setup agentType response.text)) := by
  rcases AnthropicLlmClient.account_outcome setup.settings message
    hanswers.writes hnames with ⟨hbill, response, htext, haccount⟩ | ⟨hbill, e, he, haccount⟩
  · rw [haccount]
    show _ ∧ Isolated _ _ _ _ (findingsOrFallback setup agentType response.text) ∨
      _ ∧ Escapes _ (findingsOrFallback setup agentType response.text)
    rw [htext]
    rcases findingsOrFallback_cases setup agentType (extractText message) with ⟨hread, findings, hfindings, hcontributed⟩ |
        ⟨hread, e, hfindings, he⟩
    · rw [hfindings]
      exact Or.inl ⟨⟨hbill, hread⟩, message, hanswer, hcontributed⟩
    · rw [hfindings]
      exact Or.inr ⟨fun h => hread h.2, Or.inl he⟩
  · rw [haccount]
    exact Or.inr ⟨fun h => hbill h.1, Or.inl he⟩

theorem client_cases (settings : Settings) : AnthropicLlmClient.client settings = .ok () ∨
    AnthropicLlmClient.client settings = .error llmConfigurationError := by
  unfold AnthropicLlmClient.client
  split
  · exact Or.inl rfl
  · exact Or.inr rfl

theorem llmConfigurationError_fits (agentType : AgentType) :
    MessageFits agentType llmConfigurationError := by
  have hname := (agentName_length agentType).2
  have hclass : llmConfigurationError.cls.name.length = 21 := by decide
  have hmessage : llmConfigurationError.message.length = 156 :=
    (length_append_append _ _ _).trans (by decide +kernel)
  unfold MessageFits
  omega

/-- An infrastructure failure is isolated if its message fits, and escapes otherwise. -/
theorem failure_cases {e : Exc} (h : e.isInstanceOfAny infrastructureFailureExceptions = true) :
    (MessageFits agentType e ∧ Isolated setup answers agentType diff (.error e)) ∨
      (¬ MessageFits agentType e ∧ Escapes agentType (.error e)) := by
  by_cases hfits : MessageFits agentType e
  · exact Or.inl ⟨hfits, h, hfits⟩
  · exact Or.inr ⟨hfits, Or.inr ⟨h, hfits⟩⟩

/-- An analysis is one call, and the reading of its response. -/
theorem runSpecialistAnalysis_outcome {id : Option String} (h : RetrievalFails answers) :
    (runSpecialistAnalysis setup agentType diff id).outcome answers =
      ((AnthropicLlmClient.complete setup.settings (setup.systemPrompt agentType)
        (userMessage setup answers diff) (agentName agentType) id).outcome answers >>=
          fun response => findingsOrFallback setup agentType response.text) := by
  rw [runSpecialistAnalysis, Program.outcome_bind, buildUserMessage_outcome h]
  show Program.outcome answers (AnthropicLlmClient.complete _ _ _ _ _ >>= _) = _
  rw [Program.outcome_bind]
  rfl

/-- While the world fails by outages only, an analysis can finish or its node raises. -/
theorem runSpecialistAnalysis_cases (setup : AgentSetup) (diff : String)
    (hanswers : FailsByOutage answers)
    (hnames : Attributable reviewId (agentName agentType)) :
    (CanFinish setup answers agentType diff ∧ Isolated setup answers agentType diff
        ((runSpecialistAnalysis setup agentType diff (some reviewId)).outcome answers)) ∨
      (¬ CanFinish setup answers agentType diff ∧ Escapes agentType
        ((runSpecialistAnalysis setup agentType diff (some reviewId)).outcome answers)) := by
  rw [runSpecialistAnalysis_outcome hanswers.retrieval]
  unfold CanFinish
  cases hbudget : BudgetGuard.budgetRead answers with
  | error e =>
    have houtage : IsOutage e := hanswers.budget _ e hbudget
    rw [AnthropicLlmClient.complete_unread hbudget]
    exact Or.inr ⟨by simp, Or.inl (houtage.not_isInstanceOfAny (by decide))⟩
  | ok spent =>
    simp only [Except.ok.injEq, exists_eq_left']
    cases hblocks : (BudgetGuard.mk setup.settings.budgetDailyCapUsd).blocks spent with
    | true =>
      rw [AnthropicLlmClient.complete_blocked hbudget hblocks, if_pos rfl]
      exact failure_cases rfl
    | false =>
      rw [AnthropicLlmClient.complete_admitted hbudget hblocks, if_neg (by simp)]
      rcases client_cases setup.settings with hclient | hclient
      · rw [hclient]
        cases hanswer : answers (.createMessage (specialistRequest setup answers agentType diff)) with
        | ok message =>
          have hcall : answers (.createMessage (AnthropicLlmClient.request setup.settings
              (setup.systemPrompt agentType) (userMessage setup answers diff))) = .ok message :=
            hanswer
          simp only [hcall, forall_const]
          exact answered_cases hanswers hnames hanswer
        | error e =>
          have hcall : answers (.createMessage (AnthropicLlmClient.request setup.settings
              (setup.systemPrompt agentType) (userMessage setup answers diff))) = .error e :=
            hanswer
          have hcls := llmCallFailure_cls (hanswers.calls _ e hanswer)
          have hinfra : (llmCallFailure e).isInstanceOfAny infrastructureFailureExceptions = true := by
            rw [Exc.isInstanceOfAny_iff]
            exact ⟨.llmCallFailedError, by decide, by simp [Exc.isInstance, hcls]⟩
          simp only [hcall, forall_const]
          exact failure_cases hinfra
      · rw [hclient]
        exact Or.inl ⟨by simp, rfl, llmConfigurationError_fits agentType⟩

end

end ReviewAgent
