import ReviewAgent.Agents.ResponseParsing
import ReviewAgent.Json.Extend

/-! What a response that is cut off is parsed as. -/
namespace ReviewAgent

open Json (Apart Begins CodePoint Failure Limits Text Value lookup points)

/-- What the first bracket of a text, at which anything can be read, begins. -/
inductive FirstRead (limits : Limits) : Text → Except Failure (Value × Text) → Prop
  | here {text outcome} (ho : opens text = true) (h : Begins limits text outcome) :
      FirstRead limits text outcome
  | later {c rest outcome}
      (hnot : opens (c :: rest) = true → ∀ outcome, ¬ Begins limits (c :: rest) outcome)
      (h : FirstRead limits rest outcome) : FirstRead limits (c :: rest) outcome

variable {py : Interpreter} {limits : Limits} {text block tail : Text} {value : Value}
  {outcome : Except Failure (Value × Text)}

theorem firstRead_cons_iff {c : CodePoint}
    (hnot : opens (c :: text) = true → ∀ outcome, ¬ Begins limits (c :: text) outcome) :
    FirstRead limits (c :: text) outcome ↔ FirstRead limits text outcome := by
  constructor
  · intro h
    cases h with
    | here ho h => exact absurd h (hnot ho _)
    | later _ h => exact h
  · exact .later hnot

theorem not_firstRead_nil : ¬ FirstRead limits [] outcome := by
  intro h
  cases h with
  | here ho => cases ho

/-- What a scan for JSON in a text ends with, given what is read first in it. -/
def Finds (limits : Limits) (text : Text) (result : Except Exc (Option Value)) : Prop :=
  (∃ value rest, FirstRead limits text (.ok (value, rest)) ∧ result = .ok (some value)) ∨
    (∃ failure e, FirstRead limits text (.error failure) ∧ result = .error e ∧
      e.isInstance .responseParseError = false) ∨
    ((∀ outcome, ¬ FirstRead limits text outcome) ∧ result = .ok none)

theorem decoderError_escapes {failure : Failure} :
    (decoderError py text failure).isInstance .responseParseError = false := by
  cases failure <;> rfl

/-- The scan for embedded JSON finds what is read first. -/
theorem extractEmbeddedJson_finds (py : Interpreter) (text : Text) :
    Finds py.limits text (extractEmbeddedJson py text) := by
  induction text with
  | nil => exact Or.inr (Or.inr ⟨fun _ => not_firstRead_nil, rfl⟩)
  | cons c rest ih =>
    rw [extractEmbeddedJson]
    by_cases ho : opens (c :: rest) = true
    · rw [if_pos ho]
      cases hraw : Json.rawDecode py.limits (c :: rest) with
      | ok r => exact Or.inl ⟨r.1, r.2, .here ho ((Json.begins_iff (by simp)).mpr hraw), rfl⟩
      | error failure =>
        by_cases hmalformed : failure = .syntaxError
        · subst hmalformed
          have hnot := Json.rawDecode_syntaxError_iff.mp hraw
          simpa only [Finds, firstRead_cons_iff fun _ => hnot] using ih
        · have hbegins := (Json.begins_iff (by simpa using hmalformed)).mpr hraw
          refine Or.inr (Or.inl ⟨failure, decoderError py (c :: rest) failure, .here ho hbegins, ?_,
            decoderError_escapes⟩)
          cases failure <;> first | exact absurd rfl hmalformed | rfl
    · rw [if_neg ho]
      simpa only [Finds, firstRead_cons_iff fun h => absurd h ho] using ih

theorem opens_cons {c : CodePoint} (ho : opens (c :: text) = true) :
    c = Json.openBrace ∨ c = Json.openBracket := by
  simpa [opens] using ho

theorem skipSpace_of_opens (ho : opens text = true) : Json.skipSpace text = text := by
  cases text with
  | nil => cases ho
  | cons c text =>
    have hspace : Json.isSpace c = false := by
      rcases opens_cons ho with rfl | rfl <;> rfl
    simp [Json.skipSpace, hspace]

theorem ne_null_of_opens {rest : Text} (ho : opens text = true)
    (h : Begins limits text (.ok (value, rest))) : value ≠ .null := by
  cases text with
  | nil => cases ho
  | cons c text => exact h.ne_null (opens_cons ho)

theorem payloadOf_of_syntaxError (h : Json.loads py.limits text = .error .syntaxError) :
    payloadOf py text = extractEmbeddedJson py text := by
  simp only [payloadOf, tryJsonLoads, h]
  rfl

theorem payloadOf_of_null (h : Json.loads py.limits text = .ok .null) :
    payloadOf py text = extractEmbeddedJson py text := by
  simp only [payloadOf, tryJsonLoads, h]
  rfl

theorem payloadOf_of_error {failure : Failure} (h : Json.loads py.limits text = .error failure)
    (hne : failure ≠ .syntaxError) : payloadOf py text = .error (decoderError py text failure) := by
  cases failure with
  | syntaxError => exact absurd rfl hne
  | _ => simp only [payloadOf, tryJsonLoads, h]; rfl

theorem payloadOf_of_ok (h : Json.loads py.limits text = .ok value) (hne : value ≠ .null) :
    payloadOf py text = .ok (some value) := by
  cases value with
  | null => exact absurd rfl hne
  | _ => simp only [payloadOf, tryJsonLoads, h]; rfl

/-- From a bracket on, decoding the whole text adds nothing to the scan. -/
theorem payloadOf_finds (py : Interpreter) (ho : opens text = true) : Finds py.limits text (payloadOf py text) := by
  have hbom : text.head? ≠ some 0xFEFF := by
    cases text with
    | nil => simp
    | cons c text => rcases opens_cons ho with rfl | rfl <;> simp
  have hloads : Json.loads py.limits text = (Json.rawDecode py.limits text >>= fun r =>
      if (Json.skipSpace r.2).isEmpty then .ok r.1 else .error .syntaxError) := by
    rw [Json.loads, if_neg hbom, Json.decode_eq, skipSpace_of_opens ho]
  cases hraw : Json.rawDecode py.limits text with
  | ok r =>
    have hbegins := (Json.begins_iff (by simp)).mpr hraw
    rw [hraw] at hloads
    by_cases hrest : (Json.skipSpace r.2).isEmpty = true
    · have hok : Json.loads py.limits text = .ok r.1 := hloads.trans (if_pos hrest)
      exact Or.inl ⟨r.1, r.2, .here ho hbegins, payloadOf_of_ok hok (ne_null_of_opens ho hbegins)⟩
    · rw [payloadOf_of_syntaxError (hloads.trans (if_neg hrest))]
      exact extractEmbeddedJson_finds py text
  | error failure =>
    rw [hraw] at hloads
    by_cases hmalformed : failure = .syntaxError
    · rw [payloadOf_of_syntaxError (hmalformed ▸ hloads)]
      exact extractEmbeddedJson_finds py text
    · exact Or.inr (Or.inl ⟨failure, decoderError py text failure,
        .here ho ((Json.begins_iff (by simpa using hmalformed)).mpr hraw),
        payloadOf_of_error hloads hmalformed, decoderError_escapes⟩)

theorem upToFence_eq (h : upToFence text = some block) :
    ∃ tail, text = block ++ fence ++ tail := by
  fun_induction upToFence text generalizing block with
  | case1 => cases h
  | case2 c _ hfence =>
    obtain rfl := Option.some.inj h
    obtain ⟨tail, htail⟩ := List.isPrefixOf_iff_prefix.mp hfence
    exact ⟨tail, by simp [htail]⟩
  | case3 c rest hfence ih =>
    obtain ⟨block', hblock', rfl⟩ := Option.map_eq_some_iff.mp h
    obtain ⟨tail, rfl⟩ := ih hblock'
    exact ⟨tail, rfl⟩

theorem fencedBlock_eq (h : fencedBlock text = some block) :
    ∃ before tail, text = before ++ block ++ fence ++ tail := by
  have hwhole : upToFence text = some block → ∃ before tail, text = before ++ block ++ fence ++ tail := by
    intro hblock
    obtain ⟨tail, htail⟩ := upToFence_eq hblock
    exact ⟨[], tail, by simpa using htail⟩
  unfold fencedBlock at h
  split at h
  · rename_i rest hrest
    cases hblock : upToFence rest with
    | none =>
      rw [hblock] at h
      exact hwhole h
    | some block' =>
      rw [hblock] at h
      obtain rfl := Option.some.inj h
      obtain ⟨tail, rfl⟩ := upToFence_eq hblock
      refine ⟨text.takeWhile isTagChar ++ [0x0A], tail, ?_⟩
      conv_lhs => rw [← List.takeWhile_append_dropWhile (p := isTagChar) (l := text), hrest]
      simp
  · exact hwhole h

/-- The fenced block is a part of the text, with a fence after it. -/
theorem fenceSearch_eq (h : fenceSearch text = some block) :
    ∃ before tail, text = before ++ block ++ fence ++ tail := by
  induction text with
  | nil => cases h
  | cons c rest ih =>
    have hlater : fenceSearch rest = some block →
        ∃ before tail, c :: rest = before ++ block ++ fence ++ tail := by
      intro hrest
      obtain ⟨before, tail, rfl⟩ := ih hrest
      exact ⟨c :: before, tail, rfl⟩
    rw [fenceSearch] at h
    split at h
    · cases hblock : fencedBlock ((c :: rest).drop 3) with
      | none =>
        rw [hblock] at h
        exact hlater h
      | some block' =>
        rw [hblock] at h
        obtain rfl := Option.some.inj h
        obtain ⟨before, tail, hdrop⟩ := fencedBlock_eq hblock
        refine ⟨(c :: rest).take 3 ++ before, tail, ?_⟩
        conv_lhs => rw [← List.take_append_drop 3 (c :: rest), hdrop]
        simp
    · exact hlater h

theorem apart_of_whitespace {after : Text} (hafter : ∀ c ∈ after, isWhitespace c = true)
    (htail : Apart tail) : Apart (after ++ tail) := by
  have hspace : ∀ c ∈ whitespace, Json.continuesNumber c = false := by decide
  intro c hc
  cases after with
  | nil => exact htail c hc
  | cons d after =>
    obtain rfl : d = c := Option.some.inj hc
    exact hspace d (by simpa [isWhitespace] using hafter d List.mem_cons_self)

theorem apart_fence : Apart (fence ++ tail) := by
  intro c hc
  obtain rfl : 0x60 = c := Option.some.inj hc
  rfl

/-- Something is read first as soon as something is read at one bracket. -/
theorem exists_firstRead (before : Text) (ho : opens text = true) (h : Begins limits text outcome) :
    ∃ outcome, FirstRead limits (before ++ text) outcome := by
  induction before with
  | nil => exact ⟨outcome, .here ho h⟩
  | cons c before ih =>
    obtain ⟨outcome', ih⟩ := ih
    by_cases hhere : opens (c :: before ++ text) = true ∧
        ∃ outcome, Begins limits (c :: before ++ text) outcome
    · obtain ⟨ho', outcome'', h'⟩ := hhere
      exact ⟨outcome'', .here ho' h'⟩
    · exact ⟨outcome', .later (fun ho' outcome'' h' => hhere ⟨ho', outcome'', h'⟩) ih⟩

/-- Where nothing is read in a text, nothing is read in a part of it. -/
theorem not_firstRead_part {before : Text}
    (hnone : ∀ outcome, ¬ FirstRead limits (before ++ text ++ tail) outcome)
    (htail : Apart tail) : ∀ outcome, ¬ FirstRead limits text outcome := by
  intro outcome h
  induction h generalizing before with
  | @here text outcome ho h =>
    have ho' : opens (text ++ tail) = true := by
      cases text with
      | nil => cases ho
      | cons c text => exact ho
    obtain ⟨outcome', hfirst⟩ := exists_firstRead before ho' (h.append htail)
    exact hnone outcome' (by rwa [List.append_assoc])
  | @later c rest outcome hnot h ih =>
    have hassoc : before ++ [c] ++ rest ++ tail = before ++ (c :: rest) ++ tail := by simp
    exact ih (hassoc ▸ hnone)

theorem FirstRead.unique {outcome' : Except Failure (Value × Text)}
    (h : FirstRead limits text outcome) (h' : FirstRead limits text outcome') :
    outcome = outcome' := by
  induction h with
  | here ho h =>
    cases h' with
    | here _ h' =>
      exact ((Json.begins_iff h.ne_syntaxError).mp h).symm.trans
        ((Json.begins_iff h'.ne_syntaxError).mp h')
    | later hnot _ => exact absurd h (hnot ho _)
  | later hnot h ih =>
    cases h' with
    | here ho h' => exact absurd h' (hnot ho _)
    | later _ h' => exact ih h'

theorem isWhitespace_of_isSpace {c : CodePoint} (h : Json.isSpace c = true) :
    isWhitespace c = true := by
  simp only [Json.isSpace, Bool.or_eq_true, beq_iff_eq] at h
  rcases h with ((rfl | rfl) | rfl) | rfl <;> decide

theorem skipSpace_strip (text : Text) : Json.skipSpace (strip text) = strip text := by
  cases h : strip text with
  | nil => rfl
  | cons c rest =>
    have hspace : Json.isSpace c = false := by
      rw [← Bool.not_eq_true]
      intro hspace
      have hwhite := isWhitespace_of_isSpace hspace
      rw [strip_head h] at hwhite
      cases hwhite
    simp [Json.skipSpace, hspace]

/-- Away from brackets nothing is read that holds findings. -/
theorem extractFindingDicts_of_not_opens {rest : Text} (ho : opens text = false)
    (h : Begins limits text (.ok (value, rest))) : extractFindingDicts value = none := by
  have hbracket : text.head? ≠ some Json.openBracket ∧ text.head? ≠ some Json.openBrace := by
    cases text with
    | nil => simp
    | cons c text => simpa [opens, and_comm] using ho
  obtain ⟨harray, hobject⟩ := h.scalar_shape hbracket.1 hbracket.2
  cases value with
  | array items => exact absurd rfl (harray items)
  | object members => exact absurd rfl (hobject members)
  | _ => rfl

/-- Nothing is read at a character with which no value begins. -/
theorem not_begins_cons {c : CodePoint} (hopens : opens (c :: text) = false) (hquote : c ≠ Json.quote)
    (hkeyword : c ∉ Json.keywordStarts) (hdigit : Json.isDigit c = false) :
    ¬ Begins limits (c :: text) outcome := by
  have hbracket : c ≠ Json.openBrace ∧ c ≠ Json.openBracket := by
    simpa [opens] using hopens
  have hraw : Json.rawDecode limits (c :: text) = .error .syntaxError := by
    rw [Json.rawDecode, Json.scanOnce_scalar (by simp [hbracket.2]) (by simp [hbracket.1])]
    exact Json.scanScalar_eq_error hquote hkeyword hdigit
  exact Json.rawDecode_syntaxError_iff.mp hraw outcome

theorem not_begins_bom (hbom : text.head? = some 0xFEFF) :
    ¬ Begins limits text outcome := by
  obtain ⟨rest, rfl⟩ := List.head?_eq_some_iff.mp hbom
  exact not_begins_cons rfl (by decide) (by decide) (by decide)

/-- What the fenced block adds where nothing is read at a bracket: at most a scalar. -/
theorem payloadOf_block (py : Interpreter)
    (hnone : ∀ outcome, ¬ FirstRead py.limits (strip text) outcome) :
    ((∀ failure, ¬ Begins py.limits (strip text) (.error failure)) ∧
      (payloadOf py (strip text) = .ok none ∨
        ∃ value, payloadOf py (strip text) = .ok (some value) ∧
          extractFindingDicts value = none)) ∨
    (∃ failure e, Begins py.limits (strip text) (.error failure) ∧
      payloadOf py (strip text) = .error e ∧ e.isInstance .responseParseError = false) := by
  have hextract : extractEmbeddedJson py (strip text) = .ok none := by
    rcases extractEmbeddedJson_finds py (strip text) with ⟨v, rest, h, -⟩ | ⟨f, e, h, -⟩ | ⟨-, h⟩
    · exact absurd h (hnone _)
    · exact absurd h (hnone _)
    · exact h
  cases ho : opens (strip text) with
  | true =>
    refine Or.inl ⟨fun failure h => hnone _ (.here ho h), Or.inl ?_⟩
    rcases payloadOf_finds py ho with ⟨v, rest, h, -⟩ | ⟨f, e, h, -⟩ | ⟨-, h⟩
    · exact absurd h (hnone _)
    · exact absurd h (hnone _)
    · exact h
  | false =>
    by_cases hbom : (strip text).head? = some 0xFEFF
    · have hloads : Json.loads py.limits (strip text) = .error .syntaxError := by
        rw [Json.loads, if_pos hbom]
      refine Or.inl ⟨fun failure => not_begins_bom hbom, Or.inl ?_⟩
      rw [payloadOf_of_syntaxError hloads, hextract]
    · have hloads : Json.loads py.limits (strip text) = Json.decode py.limits (strip text) := by
        rw [Json.loads, if_neg hbom]
      have hfailure : ∀ failure, Begins py.limits (strip text) (.error failure) →
          Json.decode py.limits (strip text) = .error failure := by
        intro failure h
        exact (Json.decode_error_iff (by simpa using h.ne_syntaxError)).mpr
          ((skipSpace_strip text).symm ▸ h)
      cases hdecode : Json.decode py.limits (strip text) with
      | ok value =>
        rw [hdecode] at hloads hfailure
        obtain ⟨rest, hbegins, -⟩ := Json.decode_ok_iff.mp hdecode
        rw [skipSpace_strip] at hbegins
        refine Or.inl ⟨fun failure h => ?_, ?_⟩
        · cases hfailure failure h
        · by_cases hnull : value = .null
          · subst hnull
            exact Or.inl ((payloadOf_of_null hloads).trans hextract)
          · exact Or.inr ⟨value, payloadOf_of_ok hloads hnull,
              extractFindingDicts_of_not_opens ho hbegins⟩
      | error failure =>
        rw [hdecode] at hloads hfailure
        by_cases hmalformed : failure = .syntaxError
        · subst hmalformed
          refine Or.inl ⟨fun failure h => ?_, Or.inl ?_⟩
          · obtain rfl := Except.error.inj (hfailure failure h)
            exact h.ne_syntaxError rfl
          · rw [payloadOf_of_syntaxError hloads, hextract]
        · have hbegins := (Json.decode_error_iff hmalformed).mp hdecode
          rw [skipSpace_strip] at hbegins
          exact Or.inr ⟨failure, decoderError py (strip text) failure, hbegins,
            payloadOf_of_error hloads hmalformed, decoderError_escapes⟩

/-- The answer is not taken for a clean diff: a parse error, or findings. -/
def NotClean (result : Except Exc (List Finding)) : Prop :=
  (∃ e, result = .error e ∧ e.isInstance .responseParseError = true) ∨
    ∃ findings, result = .ok findings ∧ findings ≠ []

/-- An empty list of findings: an empty array, or an object with one under the first of the two
keys that holds an array. -/
inductive EmptyFindings : Value → Prop
  | array : EmptyFindings (.array [])
  | findings {members} (h : lookup (points "findings") members = some (.array [])) :
      EmptyFindings (.object members)
  | issues {members} (hfindings : ∀ items, lookup (points "findings") members ≠ some (.array items))
      (h : lookup (points "issues") members = some (.array [])) : EmptyFindings (.object members)

theorem asList_eq_some_iff {v : Option Value} {items : List Value} :
    v.bind asList = some items ↔ v = some (.array items) := by
  rcases v with _ | v
  · simp
  · cases v <;> simp [asList]

theorem extractFindingDicts_eq_nil_iff :
    extractFindingDicts value = some [] ↔ EmptyFindings value := by
  constructor
  · intro h
    cases value with
    | array items =>
      obtain rfl := Option.some.inj h
      exact .array
    | object members =>
      simp only [extractFindingDicts, alternateListKeys, List.findSome?_cons, List.findSome?_nil] at h
      cases hfindings : (lookup (points "findings") members).bind asList with
      | some items =>
        rw [hfindings] at h
        obtain rfl := Option.some.inj h
        exact .findings (asList_eq_some_iff.mp hfindings)
      | none =>
        rw [hfindings] at h
        refine .issues (fun items hitems => ?_) ?_
        · rw [asList_eq_some_iff.mpr hitems] at hfindings
          cases hfindings
        · cases hissues : (lookup (points "issues") members).bind asList with
          | some items =>
            rw [hissues] at h
            obtain rfl := Option.some.inj h
            exact asList_eq_some_iff.mp hissues
          | none =>
            rw [hissues] at h
            cases h
    | _ => cases h
  · intro h
    cases h with
    | array => rfl
    | findings h =>
      simp [extractFindingDicts, alternateListKeys, asList_eq_some_iff.mpr h]
    | @issues members hfindings h =>
      have hnone : (lookup (points "findings") members).bind asList = none := by
        rw [Option.eq_none_iff_forall_ne_some]
        exact fun items hitems => hfindings items (asList_eq_some_iff.mp hitems)
      simp [extractFindingDicts, alternateListKeys, hnone, asList_eq_some_iff.mpr h]

/-- A cut text, as it stands once stripped: what is read first in it is no empty list of findings
and within the limits; and where nothing is read, no fenced block begins beyond the limits. -/
structure CutAtFinding (limits : Limits) (cut : Text) : Prop where
  first : ∀ outcome, FirstRead limits cut outcome →
    ∃ value rest, outcome = .ok (value, rest) ∧ ¬ EmptyFindings value
  fenced : (∀ outcome, ¬ FirstRead limits cut outcome) → ∀ block, fenceSearch cut = some block →
    ∀ failure, ¬ Begins limits (strip block) (.error failure)

/-- The JSON text of a document with a list of findings, at least one and all of them valid. -/
def FindingsDocument (modelValidate : ModelValidate) (agentType : AgentType) (text : Text) : Prop :=
  ∃ limits value items, Json.decode limits text = .ok value ∧
    extractFindingDicts value = some items ∧ items ≠ [] ∧
    ∀ item ∈ items, (findingOf modelValidate agentType item).isSome = true

section

variable {modelValidate : ModelValidate} {agentType : AgentType} {rawText : Text}

theorem parse_of_error {e : Exc} (h : extractJsonPayload py rawText = .error e) :
    parseFindingsFromLlmResponse py modelValidate rawText agentType = .error e := by
  simp only [parseFindingsFromLlmResponse, h]
  rfl

theorem notClean_of_none (h : extractJsonPayload py rawText = .ok none) :
    NotClean (parseFindingsFromLlmResponse py modelValidate rawText agentType) := by
  simp only [parseFindingsFromLlmResponse, h]
  exact Or.inl ⟨_, rfl, rfl⟩

/-- A payload passes for a clean diff exactly if its list of findings is empty. -/
theorem notClean_iff_of_some (h : extractJsonPayload py rawText = .ok (some value)) :
    NotClean (parseFindingsFromLlmResponse py modelValidate rawText agentType) ↔
      extractFindingDicts value ≠ some [] := by
  simp only [parseFindingsFromLlmResponse, h, bind, Except.bind]
  cases hdicts : extractFindingDicts value with
  | none => exact iff_of_true (Or.inl ⟨_, rfl, rfl⟩) (by simp)
  | some items =>
    cases items with
    | nil =>
      refine iff_of_false ?_ (by simp)
      rintro (⟨e, he, -⟩ | ⟨findings, hok, hne⟩)
      · cases he
      · exact hne (Except.ok.inj hok).symm
    | cons item items =>
      refine iff_of_true ?_ (by simp)
      by_cases hempty : ((item :: items).filterMap (findingOf modelValidate agentType)).isEmpty = true
      · simp only [hempty]
        exact Or.inl ⟨_, rfl, rfl⟩
      · simp only [Bool.not_eq_true] at hempty
        simp only [hempty]
        exact Or.inr ⟨_, rfl, by simpa using hempty⟩

theorem not_notClean_of_escape {e : Exc} (h : extractJsonPayload py rawText = .error e)
    (he : e.isInstance .responseParseError = false) :
    ¬ NotClean (parseFindingsFromLlmResponse py modelValidate rawText agentType) := by
  rw [parse_of_error h]
  rintro (⟨e', he', hparse⟩ | ⟨findings, hok, -⟩)
  · obtain rfl := Except.error.inj he'
    rw [he] at hparse
    cases hparse
  · cases hok

theorem extractJsonPayload_of_some (h : payloadOf py (strip rawText) = .ok (some value)) :
    extractJsonPayload py rawText = .ok (some value) := by
  simp only [extractJsonPayload, h]
  rfl

theorem extractJsonPayload_of_error {e : Exc} (h : payloadOf py (strip rawText) = .error e) :
    extractJsonPayload py rawText = .error e := by
  simp only [extractJsonPayload, h]
  rfl

theorem extractJsonPayload_of_none (h : payloadOf py (strip rawText) = .ok none) :
    extractJsonPayload py rawText = match fenceSearch (strip rawText) with
      | some block => payloadOf py (strip block)
      | none => .ok none := by
  simp only [extractJsonPayload, h]
  rfl

/-- What is read first decides, if it is within the limits. -/
theorem cutAtFinding_iff_of_read {rest : Text}
    (h : FirstRead limits text (.ok (value, rest))) :
    CutAtFinding limits text ↔ extractFindingDicts value ≠ some [] := by
  rw [Ne, extractFindingDicts_eq_nil_iff]
  constructor
  · intro hcut
    obtain ⟨value', rest', heq, hne⟩ := hcut.first _ h
    obtain ⟨rfl, -⟩ := Prod.mk.inj (Except.ok.inj heq)
    exact hne
  · intro hne
    exact ⟨fun outcome h' => ⟨value, rest, h'.unique h, hne⟩, fun hnone => absurd h (hnone _)⟩

theorem not_cutAtFinding_of_failure {failure : Failure}
    (h : FirstRead limits text (.error failure)) : ¬ CutAtFinding limits text := by
  intro hcut
  obtain ⟨value, rest, heq, -⟩ := hcut.first _ h
  cases heq

theorem payloadOf_nil (py : Interpreter) : payloadOf py [] = .ok none := by
  have hloads : Json.loads py.limits [] = .error .syntaxError := by
    rw [Json.loads, if_neg (by simp), Json.decode_eq, Json.rawDecode,
      Json.scanOnce_scalar (by simp [Json.skipSpace]) (by simp [Json.skipSpace])]
    exact congrArg (· >>= _) Json.scanScalar_nil
  exact payloadOf_of_syntaxError hloads

/-- A text that begins with a bracket, or has nothing in it, is cut at a finding or not. -/
theorem notClean_iff (ho : strip rawText = [] ∨ opens (strip rawText) = true) :
    NotClean (parseFindingsFromLlmResponse py modelValidate rawText agentType) ↔
      CutAtFinding py.limits (strip rawText) := by
  have hfinds : Finds py.limits (strip rawText) (payloadOf py (strip rawText)) := by
    rcases ho with hempty | ho
    · rw [hempty]
      exact Or.inr (Or.inr ⟨fun _ => not_firstRead_nil, payloadOf_nil py⟩)
    · exact payloadOf_finds py ho
  rcases hfinds with ⟨value, rest, hread, hpayload⟩ | ⟨failure, e, hread, hpayload, he⟩ |
    ⟨hnone, hpayload⟩
  · rw [cutAtFinding_iff_of_read hread]
    exact notClean_iff_of_some (extractJsonPayload_of_some hpayload)
  · exact iff_of_false (not_notClean_of_escape (extractJsonPayload_of_error hpayload) he)
      (not_cutAtFinding_of_failure hread)
  · have hextract := extractJsonPayload_of_none hpayload
    cases hfence : fenceSearch (strip rawText) with
    | none =>
      rw [hfence] at hextract
      refine iff_of_true (notClean_of_none hextract) ⟨fun outcome h => absurd h (hnone _), ?_⟩
      intro _ block hblock
      rw [hfence] at hblock
      cases hblock
    | some block =>
      rw [hfence] at hextract
      obtain ⟨before, tail, htext⟩ := fenceSearch_eq hfence
      obtain ⟨left, right, hblock, -, hright⟩ := strip_eq block
      have hnonePart : ∀ outcome, ¬ FirstRead py.limits (strip block) outcome := by
        have hwhole : before ++ left ++ strip block ++ (right ++ (fence ++ tail)) = strip rawText := by
          rw [htext]
          conv_rhs => rw [hblock]
          simp only [List.append_assoc]
        rw [← hwhole] at hnone
        exact not_firstRead_part hnone (apart_of_whitespace hright apart_fence)
      have hcut : CutAtFinding py.limits (strip rawText) ↔
          ∀ failure, ¬ Begins py.limits (strip block) (.error failure) := by
        constructor
        · exact fun h => h.fenced hnone block hfence
        · intro h
          refine ⟨fun outcome h' => absurd h' (hnone _), fun _ block' hblock' => ?_⟩
          rw [hfence] at hblock'
          obtain rfl := Option.some.inj hblock'
          exact h
      rw [hcut]
      rcases payloadOf_block py hnonePart with ⟨hwithin, hresult⟩ | ⟨failure, e, hbegins, hresult, he⟩
      · refine iff_of_true ?_ hwithin
        rcases hresult with hresult | ⟨value, hresult, hdicts⟩
        · exact notClean_of_none (hextract.trans hresult)
        · refine (notClean_iff_of_some (hextract.trans hresult)).mpr ?_
          simp [hdicts]
      · exact iff_of_false (not_notClean_of_escape (hextract.trans hresult) he)
          fun h => h failure hbegins

/-- Before a bracket, the whitespace of JSON is all the whitespace there is. -/
theorem dropWhile_isWhitespace (ho : opens (Json.skipSpace text) = true) :
    text.dropWhile isWhitespace = Json.skipSpace text := by
  induction text with
  | nil => rfl
  | cons c text ih =>
    cases hspace : Json.isSpace c with
    | true =>
      have hskip : Json.skipSpace (c :: text) = Json.skipSpace text := by
        simp [Json.skipSpace, hspace]
      rw [hskip] at ho ⊢
      rw [List.dropWhile_cons_of_pos (isWhitespace_of_isSpace hspace), ih ho]
    | false =>
      have hskip : Json.skipSpace (c :: text) = c :: text := by
        simp [Json.skipSpace, hspace]
      rw [hskip] at ho ⊢
      have hwhite : ¬ isWhitespace c = true := by
        rcases opens_cons ho with rfl | rfl <;> decide
      exact List.dropWhile_cons_of_neg hwhite

/-- Every prefix of a document begins with its bracket. -/
theorem FindingsDocument.opens_prefix {text : Text}
    (hdocument : FindingsDocument modelValidate agentType text) {cut : Text} (hcut : cut <+: text) :
    strip cut = [] ∨ opens (strip cut) = true := by
  obtain ⟨limits, value, items, hdecode, hdicts, -⟩ := hdocument
  obtain ⟨rest, hbegins, -⟩ := Json.decode_ok_iff.mp hdecode
  have hopens : opens (Json.skipSpace text) = true := by
    by_contra ho
    rw [extractFindingDicts_of_not_opens (Bool.not_eq_true _ ▸ ho) hbegins] at hdicts
    cases hdicts
  obtain ⟨after, rfl⟩ := hcut
  rcases hdrop : cut.dropWhile isWhitespace with _ | ⟨c, kept⟩
  · exact Or.inl (by rw [strip, hdrop]; rfl)
  · have hwhole : Json.skipSpace (cut ++ after) = c :: (kept ++ after) := by
      rw [← dropWhile_isWhitespace hopens, List.dropWhile_append, hdrop]
      rfl
    rw [hwhole] at hopens
    obtain ⟨stripped, hstripped⟩ := List.rdropWhile_prefix isWhitespace (c :: kept)
    have hcut : strip cut ++ stripped = c :: kept := by rw [strip, hdrop, hstripped]
    cases hstrip : strip cut with
    | nil => exact Or.inl rfl
    | cons c' rest =>
      rw [hstrip] at hcut
      obtain ⟨rfl, -⟩ := List.cons.inj hcut
      exact Or.inr hopens

end

/-! A document, and where it is cut. -/

/-- A document is recognised by decoding it. -/
def isFindingsDocument (limits : Limits) (modelValidate : ModelValidate) (agentType : AgentType)
    (text : Text) : Bool :=
  match Json.decode limits text with
  | .ok value => (extractFindingDicts value).any fun items =>
      !items.isEmpty && items.all fun item => (findingOf modelValidate agentType item).isSome
  | .error _ => false

theorem findingsDocument_of_check (limits : Limits) {modelValidate : ModelValidate} {agentType : AgentType}
    (h : isFindingsDocument limits modelValidate agentType text = true) :
    FindingsDocument modelValidate agentType text := by
  unfold isFindingsDocument at h
  split at h
  · rename_i value hdecode
    obtain ⟨items, hitems, hcheck⟩ := (Option.any_eq_true _ _).mp h
    simp only [Bool.and_eq_true, Bool.not_eq_true', List.all_eq_true] at hcheck
    exact ⟨limits, value, items, hdecode, hitems, by simpa using hcheck.1, hcheck.2⟩
  · cases h

def isOkEmpty : Except Exc (List Finding) → Bool
  | .ok findings => findings.isEmpty
  | .error _ => false

theorem eq_ok_nil {result : Except Exc (List Finding)} (h : isOkEmpty result = true) :
    result = .ok [] := by
  cases result with
  | ok findings => rw [List.isEmpty_iff.mp h]
  | error _ => cases h

/-- A parse error, or findings. -/
def isNotClean : Except Exc (List Finding) → Bool
  | .ok findings => !findings.isEmpty
  | .error e => e.isInstance .responseParseError

theorem notClean_of_check {result : Except Exc (List Finding)} (h : isNotClean result = true) :
    NotClean result := by
  cases result with
  | ok findings => exact Or.inr ⟨findings, rfl, by simpa [isNotClean] using h⟩
  | error e => exact Or.inl ⟨e, rfl, h⟩

/-- Validation of members that are already of their fields' types, at one confidence. -/
def validateAsIs : ModelValidate := fun members => do
  let strOf (key : String) := (lookup (points key) members).bind strField
  let intOf (key : String) := match lookup (points key) members with
    | some (.int n) => some n
    | _ => none
  let agentType ← [AgentType.security, .quality, .tests, .docs].find? fun a =>
    strOf "agent_type" = some a.value
  let severity ← [Severity.critical, .high, .medium, .low, .info].find? fun s =>
    strOf "severity" = some s.value
  if strOf "confidence" ≠ some "0.900" then none
  else
    (Finding.validate agentType severity (← strOf "category") (← strOf "file_path")
      (← intOf "line_start") (← intOf "line_end") (.ofThousandths 900 Confidence.nineTenths_le)
      (← strOf "rationale")).toOption

def mutableDefaultDocument : Text :=
  ["\x7b\"findings\": [\x7b\"severity\": \"HIGH\", ", "\"category\": \"mutable_default\", ",
    "\"file_path\": \"app.py\", ", "\"line_start\": 3, \"line_end\": 3, ",
    "\"confidence\": \"0.900\", ", "\"rationale\": \"The default argument [] is shared",
    " by every call.\"\x7d]\x7d"].flatMap points

theorem mutableDefaultDocument_is :
    FindingsDocument validateAsIs .quality mutableDefaultDocument :=
  findingsDocument_of_check ⟨1000, intMaxStrDigits⟩ (by decide +kernel)

/-- Cut within the rationale, the quoted `[]` passes for the list of findings. -/
theorem cut_at_quoted_list : ∃ text cut : Text,
    FindingsDocument validateAsIs .quality text ∧ cut <+: text ∧ cut ≠ text ∧
      parseFindingsFromLlmResponse .sample validateAsIs cut .quality = .ok [] :=
  ⟨mutableDefaultDocument, mutableDefaultDocument.take 190, mutableDefaultDocument_is,
    List.take_prefix _ _, by decide +kernel, eq_ok_nil (by decide +kernel)⟩

/-- A document that is cut off is not taken for a clean diff exactly if it is cut at a finding. -/
theorem truncated_notClean_iff (py : Interpreter) (modelValidate : ModelValidate)
    (agentType : AgentType) (text cut : Text)
    (hdocument : FindingsDocument modelValidate agentType text)
    (hcut : cut <+: text ∧ cut ≠ text) :
    NotClean (parseFindingsFromLlmResponse py modelValidate cut agentType) ↔
      CutAtFinding py.limits (strip cut) :=
  notClean_iff (hdocument.opens_prefix hcut.1)

/-- Cut within its header, the document is unreadable, and it is cut at a finding. -/
theorem truncated_notClean_header :
    NotClean (parseFindingsFromLlmResponse .sample validateAsIs (mutableDefaultDocument.take 15)
        .quality) ∧
      CutAtFinding Interpreter.sample.limits (strip (mutableDefaultDocument.take 15)) := by
  have hclean : isNotClean (parseFindingsFromLlmResponse .sample validateAsIs
      (mutableDefaultDocument.take 15) .quality) = true := by
    decide +kernel
  have hnot := notClean_of_check hclean
  exact ⟨hnot, (truncated_notClean_iff .sample validateAsIs .quality mutableDefaultDocument _
    mutableDefaultDocument_is ⟨List.take_prefix _ _, by decide +kernel⟩).mp hnot⟩

end ReviewAgent
