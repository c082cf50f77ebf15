import Mathlib.Data.List.DropRight
import ReviewAgent.Interpreter
import ReviewAgent.Models.Findings

/-! Findings from the raw text of an LLM's answer. -/
namespace ReviewAgent

open Json (CodePoint Limits Text Value lookup points)

def whitespace : List CodePoint :=
  [0x09, 0x0A, 0x0B, 0x0C, 0x0D, 0x1C, 0x1D, 0x1E, 0x1F, 0x20, 0x85, 0xA0, 0x1680, 0x2000, 0x2001,
    0x2002, 0x2003, 0x2004, 0x2005, 0x2006, 0x2007, 0x2008, 0x2009, 0x200A, 0x2028, 0x2029, 0x202F,
    0x205F, 0x3000]

/-- `str.isspace`. -/
def isWhitespace (c : CodePoint) : Bool := whitespace.contains c

/-- `str.strip()`. -/
def strip (text : Text) : Text := (text.dropWhile isWhitespace).rdropWhile isWhitespace

/-- Only whitespace is stripped. -/
theorem strip_eq (text : Text) : ∃ before after, text = before ++ strip text ++ after ∧
    (∀ c ∈ before, isWhitespace c = true) ∧ ∀ c ∈ after, isWhitespace c = true := by
  refine ⟨text.takeWhile isWhitespace, (text.dropWhile isWhitespace).rtakeWhile isWhitespace, ?_,
    fun c hc => List.mem_takeWhile_imp hc, fun c hc => List.mem_rtakeWhile_imp hc⟩
  rw [strip, List.append_assoc, List.rdropWhile_append_rtakeWhile,
    List.takeWhile_append_dropWhile]

/-- The first character left is not whitespace. -/
theorem strip_head {text : Text} {c : CodePoint} {rest : Text} (h : strip text = c :: rest) :
    isWhitespace c = false := by
  obtain ⟨after, hafter⟩ := List.rdropWhile_prefix isWhitespace (text.dropWhile isWhitespace)
  have hdrop : text.dropWhile isWhitespace = c :: (rest ++ after) := by
    rw [← hafter, ← strip, h]
    rfl
  have hhead := List.head_dropWhile_not isWhitespace (l := text) (by simp [hdrop])
  simpa [hdrop] using hhead

/-- Nor is the last one. -/
theorem strip_getLast {text : Text} : ∀ c ∈ (strip text).getLast?, isWhitespace c = false := by
  intro c hc
  have hne : strip text ≠ [] := by
    intro hnil
    rw [hnil] at hc
    cases hc
  rw [List.getLast?_eq_some_getLast hne] at hc
  obtain rfl := Option.some.inj hc
  exact Bool.eq_false_iff.mpr (List.rdropWhile_last_not _ _ hne)

/-- Three backticks. -/
def fence : Text := [0x60, 0x60, 0x60]

/-- `[a-zA-Z0-9_-]`. -/
def isTagChar (c : CodePoint) : Bool :=
  (0x61 ≤ c && c ≤ 0x7A) || (0x41 ≤ c && c ≤ 0x5A) || (0x30 ≤ c && c ≤ 0x39) || c == 0x5F || c == 0x2D

/-- `(.*?)` up to a closing fence. -/
def upToFence : Text → Option Text
  | [] => none
  | c :: rest =>
    if fence.isPrefixOf (c :: rest) then some [] else (upToFence rest).map (c :: ·)

/-- The block after an opening fence: without its first line if that is a language tag. -/
def fencedBlock (text : Text) : Option Text :=
  match text.dropWhile isTagChar with
  | 0x0A :: rest => upToFence rest <|> upToFence text
  | _ => upToFence text

/-- `_FENCE_RE.search(text)`: the first group of the leftmost match. -/
def fenceSearch : Text → Option Text
  | [] => none
  | c :: rest =>
    if fence.isPrefixOf (c :: rest) then fencedBlock ((c :: rest).drop 3) <|> fenceSearch rest
    else fenceSearch rest

/-- An object or an array opens here. -/
def opens : Text → Bool
  | c :: _ => c == Json.openBrace || c == Json.openBracket
  | [] => false

/-- `_try_json_loads`. A decoded `null` is `None` too. -/
def tryJsonLoads (py : Interpreter) (text : Text) : Except Exc (Option Value) :=
  match Json.loads py.limits text with
  | .ok .null => .ok none
  | .ok value => .ok (some value)
  | .error .syntaxError => .ok none
  | .error failure => .error (decoderError py text failure)

/-- `_extract_embedded_json`. -/
def extractEmbeddedJson (py : Interpreter) : Text → Except Exc (Option Value)
  | [] => .ok none
  | c :: rest =>
    if opens (c :: rest) then
      match Json.rawDecode py.limits (c :: rest) with
      | .ok (value, _) => .ok (some value)
      | .error .syntaxError => extractEmbeddedJson py rest
      | .error failure => .error (decoderError py (c :: rest) failure)
    else extractEmbeddedJson py rest

/-- What one candidate of `_extract_json_payload` yields. -/
def payloadOf (py : Interpreter) (candidate : Text) : Except Exc (Option Value) := do
  match ← tryJsonLoads py candidate with
  | some direct => pure (some direct)
  | none => extractEmbeddedJson py candidate

/-- `_extract_json_payload`. -/
def extractJsonPayload (py : Interpreter) (rawText : Text) : Except Exc (Option Value) := do
  let stripped := strip rawText
  match ← payloadOf py stripped with
  | some payload => pure (some payload)
  | none =>
    match fenceSearch stripped with
    | some block => payloadOf py (strip block)
    | none => pure none

/-- `_ALTERNATE_LIST_KEYS`. -/
def alternateListKeys : List String := ["findings", "issues"]

/-- The value if it is a list. -/
def asList : Value → Option (List Value)
  | .array items => some items
  | _ => none

/-- `_extract_finding_dicts`. -/
def extractFindingDicts : Value → Option (List Value)
  | .array items => some items
  | .object members =>
    alternateListKeys.findSome? fun key => (lookup (points key) members).bind asList
  | _ => none

/-- `candidate.setdefault("agent_type", default_agent_type.value)`. -/
def setDefaultAgentType (default : AgentType) (members : List (Text × Value)) :
    List (Text × Value) :=
  if (lookup (points "agent_type") members).isSome then members
  else members ++ [(points "agent_type", .str (points default.value))]

/-- What `Finding.model_validate` makes of a dict; `none` is a `ValidationError`. -/
abbrev ModelValidate : Type := List (Text × Value) → Option Finding

/-- The finding of one item, if it is a dict that validates. -/
def findingOf (modelValidate : ModelValidate) (default : AgentType) : Value → Option Finding
  | .object members => modelValidate (setDefaultAgentType default members)
  | _ => none

def responseParseError (message : String) : Exc := .plain .responseParseError message

/-- `parse_findings_from_llm_response`. -/
def parseFindingsFromLlmResponse (py : Interpreter) (modelValidate : ModelValidate)
    (rawText : Text) (defaultAgentType : AgentType) : Except Exc (List Finding) := do
  match ← extractJsonPayload py rawText with
  | none => .error (responseParseError "no JSON object or array found in the LLM response")
  | some payload =>
    match extractFindingDicts payload with
    | none => .error (responseParseError
        ("parsed JSON has no recognizable findings list " ++
          "(looked for a bare list or one of ('findings', 'issues'))"))
    | some items =>
      let findings := items.filterMap (findingOf modelValidate defaultAgentType)
      if findings.isEmpty && !items.isEmpty then
        .error (responseParseError
          "no valid Finding objects could be extracted from the LLM response")
      else pure findings

end ReviewAgent
