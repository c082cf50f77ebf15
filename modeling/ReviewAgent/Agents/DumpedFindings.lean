import ReviewAgent.Agents.SurroundingProse
import ReviewAgent.Json.Encoder
import ReviewAgent.Models.FindingJson
import ReviewAgent.Substrings

/-! Findings written out as JSON, and read again by the parser from the text around them. -/
namespace ReviewAgent

open Json (Begins Dumpable DumpableItems DumpableMembers Layout Limits Separable Text Value points)

/-- The documents with these findings: the list itself, or under one of its keys. -/
inductive DumpedDocument (findings : List Finding) : Value → Prop
  | bare : DumpedDocument findings (.array (findings.map Finding.modelDump))
  | keyed {key : String} (h : key ∈ alternateListKeys) :
      DumpedDocument findings
        (.object [(points key, .array (findings.map Finding.modelDump))])

/-- What may stand before a document: text without brackets that does not begin like a value. -/
structure Preamble (before : Text) : Prop where
  plain : ∀ c ∈ before, c ≠ Json.openBrace ∧ c ≠ Json.openBracket
  start : ∀ c ∈ (before.dropWhile isWhitespace).head?,
    c ≠ Json.quote ∧ c ≠ Json.minus ∧ Json.isDigit c = false
  word : ∀ keyword ∈ Json.keywords, ¬ keyword.1 <+: before.dropWhile isWhitespace

/-- Line numbers that are written in no more digits than are read. -/
def Finding.Printable (finding : Finding) : Prop := finding.lineEnd < 10 ^ intMaxStrDigits

variable {limits : Limits} {before after document used text : Text} {value : Value}

/-! A dumped finding is within what the encoder writes and the decoder reads. -/

theorem separable_of_chars {chars : List Char} : Separable (chars.map Char.toNat) := by
  induction chars with
  | nil => trivial
  | cons c chars ih =>
    have hvalid : c.toNat < 0xD800 ∨ 0xDFFF < c.toNat ∧ c.toNat < 0x110000 := c.valid
    refine ⟨?_, fun hhigh => ?_, ih⟩
    · rcases hvalid with hbelow | ⟨-, habove⟩
      · exact Nat.lt_trans hbelow (by decide)
      · exact habove
    · simp only [Json.isHighSurrogate, Bool.and_eq_true, decide_eq_true_eq] at hhigh
      rcases hvalid with hbelow | ⟨habove, -⟩
      · exact absurd hhigh.1 (Nat.not_le.mpr hbelow)
      · exact absurd (Nat.lt_of_lt_of_le habove hhigh.2) (by decide)

theorem separable_points (s : String) : Separable (points s) := separable_of_chars

theorem dumpable_int {n : ℕ} (h : n < 10 ^ intMaxStrDigits) (nesting : ℕ) :
    Dumpable ⟨nesting, intMaxStrDigits⟩ (.int n) := by
  show (Json.digitsOf (n : ℤ).natAbs).length ≤ intMaxStrDigits
  rw [Int.natAbs_natCast, Json.digitsOf, List.length_map]
  exact (Nat.length_toDigits_le_iff (by decide) (by decide)).mpr h

theorem Finding.dumpable_modelDump {finding : Finding} (h : finding.Printable) (nesting : ℕ) :
    Dumpable ⟨nesting, intMaxStrDigits⟩ finding.modelDump := by
  have hstart := dumpable_int (finding.lineStart_le.trans_lt h) nesting
  have hend := dumpable_int h nesting
  simp only [modelDump, members, jsonString, Dumpable, DumpableMembers, separable_points, true_and,
    and_true]
  exact ⟨hstart, hend⟩

theorem dumpableItems_of_forall {items : List Value} (h : ∀ item ∈ items, Dumpable limits item) :
    DumpableItems limits items := by
  induction items with
  | nil => trivial
  | cons item items ih =>
    exact ⟨h item List.mem_cons_self, ih fun item' hmem => h item' (List.mem_cons_of_mem _ hmem)⟩

theorem nestingOfItems_le {items : List Value} {depth : ℕ}
    (h : ∀ item ∈ items, Json.nesting item ≤ depth) : Json.nestingOfItems items ≤ depth := by
  induction items with
  | nil => exact Nat.zero_le _
  | cons item items ih =>
    exact Nat.max_le.mpr ⟨h item List.mem_cons_self,
      ih fun item' hmem => h item' (List.mem_cons_of_mem _ hmem)⟩

theorem nesting_modelDump (finding : Finding) : Json.nesting finding.modelDump = 1 := rfl

theorem dumpable_findings {findings : List Finding} (h : ∀ finding ∈ findings, finding.Printable)
    (nesting : ℕ) :
    Dumpable ⟨nesting, intMaxStrDigits⟩ (.array (findings.map Finding.modelDump)) := by
  refine dumpableItems_of_forall fun item hitem => ?_
  obtain ⟨finding, hmem, rfl⟩ := List.mem_map.mp hitem
  exact Finding.dumpable_modelDump (h finding hmem) nesting

theorem nesting_findings (findings : List Finding) :
    Json.nesting (.array (findings.map Finding.modelDump)) ≤ 2 := by
  refine Nat.succ_le_succ (nestingOfItems_le fun item hitem => ?_)
  obtain ⟨finding, -, rfl⟩ := List.mem_map.mp hitem
  exact (nesting_modelDump finding).le

namespace DumpedDocument

variable {findings : List Finding}

theorem dumpable (h : DumpedDocument findings value)
    (hprintable : ∀ finding ∈ findings, finding.Printable) (nesting : ℕ) :
    Dumpable ⟨nesting, intMaxStrDigits⟩ value := by
  cases h with
  | bare => exact dumpable_findings hprintable nesting
  | keyed => exact ⟨separable_points _, dumpable_findings hprintable nesting, trivial⟩

theorem nesting_le (h : DumpedDocument findings value) : Json.nesting value ≤ 3 := by
  cases h with
  | bare => exact (nesting_findings findings).trans (by decide)
  | keyed => exact Nat.succ_le_succ (Nat.max_le.mpr ⟨nesting_findings findings, Nat.zero_le _⟩)

/-- The list is found under either key. -/
theorem extract (h : DumpedDocument findings value) :
    extractFindingDicts value = some (findings.map Finding.modelDump) := by
  cases h with
  | bare => rfl
  | keyed hkey =>
    simp only [alternateListKeys, List.mem_cons, List.not_mem_nil, or_false] at hkey
    rcases hkey with rfl | rfl <;> rfl

end DumpedDocument

/-! What stands before the document is passed over. -/

/-- No constant has a bracket or a space in it. -/
theorem not_mem_keyword {left rest : Text} (hleft : ∀ c ∈ left, Json.isSpace c = true)
    (hrest : opens rest = true) :
    ∀ c ∈ (left ++ rest).head?, ∀ keyword ∈ Json.keywords, c ∉ keyword.1 := by
  intro c hc
  cases left with
  | nil =>
    obtain ⟨tail, rfl⟩ := List.head?_eq_some_iff.mp hc
    rcases opens_cons hrest with rfl | rfl <;> decide
  | cons d left =>
    obtain rfl := Option.some.inj hc
    have hspace := hleft d List.mem_cons_self
    simp only [Json.isSpace, Bool.or_eq_true, beq_iff_eq] at hspace
    rcases hspace with ((rfl | rfl) | rfl) | rfl <;> decide

theorem keyword?_append {rest : Text}
    (hrest : ∀ c ∈ rest.head?, ∀ keyword ∈ Json.keywords, c ∉ keyword.1)
    (h : ∀ keyword ∈ Json.keywords, ¬ keyword.1 <+: text) : Json.keyword? (text ++ rest) = none := by
  rw [Json.keyword?, Option.map_eq_none_iff, List.find?_eq_none]
  intro keyword hmem hprefix
  rw [List.isPrefixOf_iff_prefix] at hprefix
  cases rest with
  | nil => exact h keyword hmem (by rwa [List.append_nil] at hprefix)
  | cons c rest => exact h keyword hmem (Substrings.prefix_of_append_cons (hrest c rfl keyword hmem) hprefix)

/-- No value begins at the first character of a preamble that is no space. -/
theorem Preamble.not_begins (h : Preamble before) {c : Json.CodePoint} {tail rest : Text}
    (hlead : before.dropWhile isWhitespace = c :: tail)
    (hrest : ∀ c ∈ rest.head?, ∀ keyword ∈ Json.keywords, c ∉ keyword.1)
    (outcome : Except Json.Failure (Value × Text)) : ¬ Begins limits (c :: tail ++ rest) outcome := by
  have hmem : c ∈ before := (List.dropWhile_suffix _).subset (hlead ▸ List.mem_cons_self)
  obtain ⟨hbrace, hbracket⟩ := h.plain c hmem
  obtain ⟨hquote, hminus, hdigit⟩ := h.start c (by rw [hlead]; rfl)
  have hkeyword : Json.keyword? (c :: tail ++ rest) = none :=
    keyword?_append hrest (hlead ▸ h.word)
  have hraw : Json.rawDecode limits (c :: tail ++ rest) = .error .syntaxError := by
    rw [List.cons_append] at hkeyword ⊢
    rw [Json.rawDecode, Json.scanOnce_scalar (by simp [hbracket]) (by simp [hbrace]),
      Json.scanScalar, if_neg (by simpa using hquote), hkeyword,
      Json.matchNumber_eq_none hminus hdigit]
  exact Json.rawDecode_syntaxError_iff.mp hraw outcome

/-- The stripped text begins with the document, or nothing is read at its beginning. -/
theorem Preamble.lead {left right : Text} (h : Preamble before)
    (hdoc : DocumentText document left used right) (after : Text) :
    opens (strip (before ++ left ++ (used ++ (right ++ after)))) = true ∨
      ∀ outcome, ¬ Begins limits (strip (before ++ left ++ (used ++ (right ++ after)))) outcome := by
  rw [strip_around hdoc.bracket hdoc.closed, List.dropWhile_append]
  have hused := opens_append hdoc.bracket (rstrip (right ++ after))
  cases hlead : before.dropWhile isWhitespace with
  | nil =>
    have hleft : left.dropWhile isWhitespace = [] :=
      List.dropWhile_eq_nil_iff.mpr fun c hc => isWhitespace_of_isSpace (hdoc.left c hc)
    rw [if_pos List.isEmpty_nil, hleft]
    exact Or.inl hused
  | cons c tail =>
    rw [if_neg (by simp), List.append_assoc (c :: tail)]
    exact Or.inr (h.not_begins hlead (not_mem_keyword hdoc.left hused))

/-- The document behind a preamble is what the parser looks at. -/
theorem Preamble.extractJsonPayload_eq {py : Interpreter} {items : List Value}
    (h : Preamble before) (hdecode : Json.decode py.limits document = .ok value)
    (hitems : extractFindingDicts value = some items) :
    extractJsonPayload py (before ++ (document ++ after)) = .ok (some value) := by
  obtain ⟨left, used, right, hdoc, hread⟩ := exists_documentText hdecode hitems
  have htext : before ++ (document ++ after) = before ++ left ++ (used ++ (right ++ after)) := by
    simpa using hdoc.rest_eq before after []
  have hplain : ∀ c ∈ before ++ left, c ≠ Json.openBrace ∧ c ≠ Json.openBracket := by
    intro c hc
    rcases List.mem_append.mp hc with hc | hc
    · exact h.plain c hc
    · exact plain_of_isWhitespace (isWhitespace_of_isSpace (hdoc.left c hc))
  have hfirst : FirstRead py.limits (strip (before ++ left ++ (used ++ (right ++ after))))
      (.ok (value, rstrip (right ++ after))) := by
    rw [firstRead_strip_iff hdoc.bracket hdoc.closed, (nothingRead_of_plain hplain).firstRead_iff]
    exact .here (opens_append hdoc.bracket _) (hread _)
  rw [htext]
  refine extractJsonPayload_of_some (finds_of_read (payloadOf_strip_finds py ?_ ?_) hfirst)
  · intro failure hfailure
    rcases h.lead hdoc after with ho | hnone
    · cases hfirst.unique (.here ho hfailure)
    · exact hnone _ hfailure
  · refine (h.lead hdoc after).imp_right fun (hnone : ∀ outcome, ¬ Begins py.limits _ outcome) => ?_
    rintro ⟨-, value', rest, hbegins, -⟩
    rw [skipSpace_strip] at hbegins
    exact hnone _ hbegins

/-- A dumped finding has its agent type, so none is filled in. -/
theorem setDefaultAgentType_members (agentType : AgentType) (finding : Finding) :
    setDefaultAgentType agentType finding.members = finding.members := by
  have hmem : (points "agent_type", jsonString finding.agentType.value) ∈ finding.members :=
    List.mem_cons_self
  rw [setDefaultAgentType, lookup_of_mem Finding.members_nodup hmem, if_pos Option.isSome_some]

theorem filterMap_modelDump {modelValidate : ModelValidate} {findings : List Finding}
    (hvalidate : ∀ finding ∈ findings, modelValidate finding.members = some finding)
    (agentType : AgentType) :
    (findings.map Finding.modelDump).filterMap (findingOf modelValidate agentType) = findings := by
  rw [List.filterMap_map]
  have hsame : ∀ finding ∈ findings,
      (findingOf modelValidate agentType ∘ Finding.modelDump) finding = some finding := by
    intro finding hmem
    show modelValidate (setDefaultAgentType agentType finding.members) = some finding
    rw [setDefaultAgentType_members, hvalidate finding hmem]
  rw [List.filterMap_congr hsame, List.filterMap_some]

theorem decode_of_loads (h : Json.loads limits text = .ok value) :
    Json.decode limits text = .ok value := by
  unfold Json.loads at h
  split at h
  · cases h
  · exact h

/-- Findings that are dumped, on one line or indented, bare or under either key, are what the parser
makes of any text with this document behind a preamble, whatever comes after it. -/
theorem dumped_findings_parsed_back (py : Interpreter) (modelValidate : ModelValidate)
    (agentType : AgentType) (layout : Layout) {findings : List Finding} {value : Value}
    {before after : Text} (hdepth : 3 ≤ py.nesting)
    (hprintable : ∀ finding ∈ findings, finding.Printable)
    (hvalidate : ∀ finding ∈ findings, modelValidate finding.members = some finding)
    (hdocument : DumpedDocument findings value) (hbefore : Preamble before) :
    parseFindingsFromLlmResponse py modelValidate
      (before ++ (Json.dumps layout value ++ after)) agentType = .ok findings := by
  have hloads : Json.loads py.limits (Json.dumps layout value) = .ok value :=
    Json.loads_dumps layout (hdocument.dumpable hprintable py.nesting)
      (hdocument.nesting_le.trans hdepth)
  have hdecode := decode_of_loads hloads
  rw [parse_of_some (hbefore.extractJsonPayload_eq hdecode hdocument.extract) hdocument.extract,
    filterMap_modelDump hvalidate, if_neg]
  simp

/-- The model a witness validates with. -/
def validateItem : ModelValidate := fun members => (Finding.ofItem (.object members)).toOption

theorem validateItem_members (finding : Finding) : validateItem finding.members = some finding := by
  have hitem : Finding.ofItem (.object finding.members) = .ok finding :=
    Finding.ofItem_modelDump finding
  rw [validateItem, hitem]
  rfl

theorem preamble_jsonFence : Preamble (points "I found this:\n" ++ jsonFence) :=
  ⟨by decide, by decide, by decide⟩

/-- An indented answer in a fenced block, with prose around it. -/
theorem fenced_findings_parsed_back :
    parseFindingsFromLlmResponse .sample validateItem
      (points "I found this:\n" ++ jsonFence ++
        (Json.dumps ⟨some 2⟩ (.object [(points "findings",
          .array ([Finding.sample].map Finding.modelDump))]) ++ points "\n```\nSee [1]."))
      .quality = .ok [Finding.sample] := by
  refine dumped_findings_parsed_back .sample validateItem .quality ⟨some 2⟩ (by decide) ?_
    (fun finding _ => validateItem_members finding) (.keyed (by decide)) preamble_jsonFence
  intro finding hmem
  obtain rfl := List.mem_singleton.mp hmem
  exact Nat.one_lt_pow (by decide) (by decide)

end ReviewAgent
