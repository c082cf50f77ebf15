import ReviewAgent.Agents.ResponseParsing
import ReviewAgent.Tools.LlmClient

/-! What the specialists share: grounding, the one call, and the two fallback findings. -/
namespace ReviewAgent

open Effects
open Json (points)

/-- `AGENT_NAME_BY_TYPE`. -/
def agentName : AgentType → String
  | .security => "security"
  | .quality => "quality"
  | .tests => "tests"
  | .docs => "docs"

def retrievalTopK : ℕ := 5

def maxContextChars : ℕ := 6000

def contextHeader : String :=
  "Relevant existing code from this repository, retrieved because it " ++
  "may relate to the diff below (it may or may not actually be " ++
  "relevant -- use your own judgment, and do not assume it is " ++
  "complete or authoritative):\n\n"

def contextBlock (chunk : RetrievedChunk) : String :=
  s!"--- {chunk.path} ---\n{chunk.content}\n\n"

/-- The blocks that fit, each as a whole, after `used` characters. -/
def fittingBlocks (maxChars : ℤ) (used : ℕ) : List RetrievedChunk → List String
  | [] => []
  | chunk :: chunks =>
    let block := contextBlock chunk
    if maxChars < used + block.length then fittingBlocks maxChars used chunks
    else block :: fittingBlocks maxChars (used + block.length) chunks

/-- `format_retrieved_context`. -/
def formatRetrievedContext (chunks : List RetrievedChunk) (maxChars : ℤ := maxContextChars) :
    String :=
  match fittingBlocks maxChars contextHeader.length chunks with
  | [] => ""
  | blocks => String.join (contextHeader :: blocks)

/-- The end of `build_user_message`: the diff under what was retrieved. -/
def groundDiff (diff : String) (chunks : List RetrievedChunk) : String :=
  let block := formatRetrievedContext chunks
  if block = "" then diff else s!"{block}Diff to review:\n{diff}"

/-- `build_user_message`: retrieval that fails leaves the diff alone. -/
def buildUserMessage (diff : String) (retriever : Bool) : Orchestrated String :=
  if retriever then do
    let found ← (attemptOp (.hybridSearch diff retrievalTopK) fun chunks => chunks).attempt
    match found with
    | .ok chunks => pure (groundDiff diff chunks)
    | .error e => if e.isInstance .exception then pure diff else throw e
  else pure diff

/-- `Decimal("0.000")`. -/
def zeroConfidence : Confidence := .ofThousandths 0 Confidence.zeroThousandths_le

/-- How both fallback rationales end. -/
def forcedReviewNote : String :=
  "Flagging as CRITICAL, " ++
  "confidence 0.000, purely to force mandatory human review of " ++
  "this run -- this is NOT a claim that a real issue exists."

def parseFailureRationale (agentType : AgentType) (e : Exc) : String :=
  s!"The {agentName agentType} specialist's LLM response could not be parsed " ++
  s!"into any valid finding ({e.message}). " ++ forcedReviewNote

/-- `parse_failure_fallback_finding`. -/
def parseFailureFallbackFinding (agentType : AgentType) (e : Exc) : Except Exc Finding :=
  Finding.validate agentType .critical "llm_response_unparseable" "<llm-response-unparseable>" 1 1
    zeroConfidence (parseFailureRationale agentType e)

def unavailableRationale (agentType : AgentType) (e : Exc) : String :=
  s!"The {agentName agentType} specialist could not complete its analysis " ++
  s!"({e.cls.name}: {e.message}). " ++ forcedReviewNote

/-- `infrastructure_failure_fallback_finding`. -/
def infrastructureFailureFallbackFinding (agentType : AgentType) (e : Exc) : Except Exc Finding :=
  Finding.validate agentType .critical s!"{agentName agentType}_specialist_unavailable"
    s!"<{agentName agentType}-specialist-unavailable>" 1 1 zeroConfidence
    (unavailableRationale agentType e)

/-- What a real specialist is set up with; `systemPrompt` is its prompt on disk. -/
structure AgentSetup where
  settings : Settings
  py : Interpreter
  modelValidate : ModelValidate
  systemPrompt : AgentType → String
  retriever : Bool

/-- The end of `run_specialist_analysis`: the findings of a response, or the fallback. -/
def findingsOrFallback (setup : AgentSetup) (agentType : AgentType) (text : String) :
    Except Exc (List Finding) :=
  match parseFindingsFromLlmResponse setup.py setup.modelValidate (points text) agentType with
  | .ok findings => .ok findings
  | .error e =>
    if e.isInstance .responseParseError then do
      let fallback ← parseFailureFallbackFinding agentType e
      pure [fallback]
    else .error e

/-- `run_specialist_analysis`. -/
def runSpecialistAnalysis (setup : AgentSetup) (agentType : AgentType) (diff : String)
    (reviewId : Option String) : Orchestrated (List Finding) := do
  let userMessage ← buildUserMessage diff setup.retriever
  let response ← AnthropicLlmClient.complete setup.settings (setup.systemPrompt agentType)
    userMessage (agentName agentType) reviewId
  Program.ofExcept (findingsOrFallback setup agentType response.text)

/-- A finding that forces human review. -/
def ForcesReview (finding : Finding) : Prop :=
  finding.severity = .critical ∧ finding.confidence = zeroConfidence

/-- A critical finding of no confidence is valid exactly if its rationale is not too long. -/
theorem validate_fallback {agentType : AgentType} {category filePath rationale : String}
    (hcategory : 1 ≤ category.length ∧ category.length ≤ 100)
    (hpath : 1 ≤ filePath.length ∧ filePath.length ≤ 1000) (hpos : 1 ≤ rationale.length) :
    (rationale.length ≤ 5000 ∧ ∃ finding, ForcesReview finding ∧ Finding.validate agentType
        .critical category filePath 1 1 zeroConfidence rationale = .ok finding) ∨
      (5000 < rationale.length ∧ Finding.validate agentType .critical category filePath 1 1
        zeroConfidence rationale = .error (validationError "Finding" "rationale")) := by
  by_cases hlen : rationale.length ≤ 5000
  · refine Or.inl ⟨hlen, _, ?_, by
      rw [Finding.validate, dif_pos hcategory, dif_pos hpath, dif_pos (by norm_num),
        if_pos (by norm_num), dif_pos ⟨hpos, hlen⟩, dif_pos (by norm_num)]⟩
    exact ⟨rfl, rfl⟩
  · refine Or.inr ⟨by omega, ?_⟩
    rw [Finding.validate, dif_pos hcategory, dif_pos hpath, dif_pos (by norm_num),
      if_pos (by norm_num), dif_neg fun h => hlen h.2]

theorem agentName_length (agentType : AgentType) :
    4 ≤ (agentName agentType).length ∧ (agentName agentType).length ≤ 8 := by
  cases agentType <;> decide

theorem forcedReviewNote_length : forcedReviewNote.length = 139 :=
  (length_append_append _ _ _).trans (by decide +kernel)

/-- The text around the class and the message of the exception. -/
theorem unavailableRationale_length (agentType : AgentType) (e : Exc) :
    (unavailableRationale agentType e).length =
      (agentName agentType).length + e.cls.name.length + e.message.length + 193 := by
  have h : unavailableRationale agentType e = "The " ++ agentName agentType ++
      " specialist could not complete its analysis (" ++ e.cls.name ++ ": " ++ e.message ++
      "). " ++ forcedReviewNote := by
    simp only [unavailableRationale, toString, String.append_assoc]
    rfl
  have hstart : "The ".length = 4 := by decide
  have hmiddle : " specialist could not complete its analysis (".length = 45 := by decide
  have hcolon : ": ".length = 2 := by decide
  have hend : "). ".length = 3 := by decide
  rw [h]
  simp only [String.length_append, hstart, hmiddle, hcolon, hend, forcedReviewNote_length]
  omega

theorem parseFailureRationale_length (agentType : AgentType) (e : Exc) :
    (parseFailureRationale agentType e).length =
      (agentName agentType).length + e.message.length + 217 := by
  have h : parseFailureRationale agentType e = "The " ++ agentName agentType ++
      " specialist's LLM response could not be parsed " ++ "into any valid finding (" ++
      e.message ++ "). " ++ forcedReviewNote := by
    simp only [parseFailureRationale, toString, String.append_assoc]
  have hstart : "The ".length = 4 := by decide
  have hparsed : " specialist's LLM response could not be parsed ".length = 47 := by decide
  have hfinding : "into any valid finding (".length = 24 := by decide
  have hend : "). ".length = 3 := by decide
  rw [h]
  simp only [String.length_append, hstart, hparsed, hfinding, hend, forcedReviewNote_length]
  omega

/-- The names and the message leave room for the rest of the fallback's rationale. -/
def MessageFits (agentType : AgentType) (e : Exc) : Prop :=
  (agentName agentType).length + e.cls.name.length + e.message.length ≤ 4807

instance (agentType : AgentType) (e : Exc) : Decidable (MessageFits agentType e) :=
  inferInstanceAs (Decidable (_ ≤ _))

/-- The fallback of a failed analysis is valid exactly if the message of the failure fits. -/
theorem infrastructureFailureFallbackFinding_cases (agentType : AgentType) (e : Exc) :
    (MessageFits agentType e ∧ ∃ finding, ForcesReview finding ∧
        infrastructureFailureFallbackFinding agentType e = .ok finding) ∨
      (¬ MessageFits agentType e ∧ infrastructureFailureFallbackFinding agentType e =
        .error (validationError "Finding" "rationale")) := by
  have hlen := unavailableRationale_length agentType e
  have hfits : MessageFits agentType e ↔ (unavailableRationale agentType e).length ≤ 5000 := by
    unfold MessageFits
    omega
  rw [hfits, not_le]
  apply validate_fallback
  · cases agentType <;> decide
  · cases agentType <;> decide
  · omega

/-- The fallback of an answer without findings is valid, as long as the error says little. -/
theorem parseFailureFallbackFinding_ok (agentType : AgentType) {e : Exc}
    (h : e.message.length ≤ 4000) :
    ∃ finding, ForcesReview finding ∧ parseFailureFallbackFinding agentType e = .ok finding := by
  have hname := agentName_length agentType
  have hlen := parseFailureRationale_length agentType e
  rcases @validate_fallback agentType "llm_response_unparseable" "<llm-response-unparseable>"
    (parseFailureRationale agentType e) (by decide) (by decide) (by omega) with ⟨-, hvalid⟩ | ⟨hlong, -⟩
  · exact hvalid
  · omega

end ReviewAgent
