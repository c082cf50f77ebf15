import ReviewAgent.Agents.Payloads
import ReviewAgent.Json.Local

/-! A document of findings, and what is written around it. -/
namespace ReviewAgent

open Json (Apart Begins EndsClosed Failure Limits Text Value points)

/-- An object, such as a finding is written as. -/
def isObject : Value → Bool
  | .object _ => true
  | _ => false

/-- A document with a list of findings that has an object in it. -/
def HasFindingObject (value : Value) : Prop :=
  ∃ items, extractFindingDicts value = some items ∧ ∃ item ∈ items, isObject item = true

/-- What stands directly before and after a document: nothing, or the fences of a code block. -/
inductive Fenced : Text → Text → Prop
  | bare : Fenced [] []
  | block {tag gap gap'} (htag : ∀ c ∈ tag, isTagChar c = true)
      (hgap : ∀ c ∈ gap, isWhitespace c = true) (hgap' : ∀ c ∈ gap', isWhitespace c = true) :
      Fenced (fence ++ tag ++ gap) (gap' ++ fence)

/-- Prose before the rest of a text: no value that starts in it extends beyond it, or holds a
finding. -/
structure Prose (limits : Limits) (prose rest : Text) : Prop where
  inside : ∀ c q value after, c :: q <:+ prose →
    Begins limits (c :: q ++ rest) (.ok (value, after)) → rest <:+ after
  noFindings : ∀ c q value after, c :: q <:+ prose →
    Begins limits (c :: q ++ rest) (.ok (value, after)) → ¬ HasFindingObject value

/-- Nothing is read at a bracket of the prose. -/
def NothingRead (limits : Limits) (prose rest : Text) : Prop :=
  ∀ c q, c :: q <:+ prose → opens (c :: q) = true → ∀ outcome, ¬ Begins limits (c :: q ++ rest) outcome

/-- `str.rstrip()`. -/
def rstrip (text : Text) : Text := text.rdropWhile isWhitespace

/-- A document stands out from the prose before it: it is within the limits, the text does not begin
beyond them, and nothing is read at a bracket of the prose, or else what is read first there is no
empty list of findings and nothing in the document is valid. -/
structure StandsOut (limits : Limits) (prose document rest : Text) (invalid : Prop) : Prop where
  document : ∀ failure, ¬ Begins limits (Json.skipSpace document) (.error failure)
  start : ∀ failure, ¬ Begins limits (strip (prose ++ rest)) (.error failure)
  prose : NothingRead limits prose (rstrip rest) ∨
    invalid ∧ ∃ value after, FirstRead limits (strip (prose ++ rest)) (.ok (value, after)) ∧
      ¬ EmptyFindings value

/-- The same list, or both times no list at all. -/
inductive SameFindings : Except Exc (List Finding) → Except Exc (List Finding) → Prop
  | list (findings : List Finding) : SameFindings (.ok findings) (.ok findings)
  | unparsed {e e' : Exc} (h : e.isInstance .responseParseError = true)
      (h' : e'.isInstance .responseParseError = true) : SameFindings (.error e) (.error e')

variable {limits : Limits} {text prose rest used before after : Text} {value : Value}
  {outcome : Except Failure (Value × Text)}

theorem NothingRead.tail {c : Json.CodePoint} (h : NothingRead limits (c :: prose) rest) :
    NothingRead limits prose rest :=
  fun d q hq => h d q (hq.trans (List.suffix_cons c prose))

theorem NothingRead.head {c : Json.CodePoint} (h : NothingRead limits (c :: prose) rest) :
    opens (c :: prose ++ rest) = true → ∀ outcome, ¬ Begins limits (c :: prose ++ rest) outcome :=
  h c prose List.suffix_rfl

/-- Prose in which nothing is read is passed over. -/
theorem NothingRead.firstRead_iff (h : NothingRead limits prose rest) :
    FirstRead limits (prose ++ rest) outcome ↔ FirstRead limits rest outcome := by
  induction prose with
  | nil => rfl
  | cons c prose ih =>
    exact (firstRead_cons_iff h.head).trans (ih h.tail)

/-- Otherwise what is read first stands in the prose. -/
theorem exists_firstRead_of_not (h : ¬ NothingRead limits prose rest) :
    ∃ outcome c q, FirstRead limits (prose ++ rest) outcome ∧ c :: q <:+ prose ∧
      Begins limits (c :: q ++ rest) outcome := by
  induction prose with
  | nil => exact absurd (fun c q hq => absurd (List.suffix_nil.mp hq) (by simp)) h
  | cons c prose ih =>
    by_cases hhere : opens (c :: prose) = true ∧ ∃ outcome, Begins limits (c :: prose ++ rest) outcome
    · obtain ⟨ho, outcome, hread⟩ := hhere
      exact ⟨outcome, c, prose, .here ho hread, List.suffix_rfl, hread⟩
    · have hlater : ¬ NothingRead limits prose rest := by
        intro hprose
        refine h fun d q hq ho outcome hread => ?_
        rcases List.suffix_cons_iff.mp hq with heq | hq
        · obtain ⟨rfl, rfl⟩ := List.cons.inj heq
          exact hhere ⟨ho, outcome, hread⟩
        · exact hprose d q hq ho outcome hread
      obtain ⟨outcome, d, q, hfirst, hq, hread⟩ := ih hlater
      exact ⟨outcome, d, q, .later (fun ho outcome' hread' => hhere ⟨ho, outcome', hread'⟩) hfirst,
        hq.trans (List.suffix_cons c prose), hread⟩

/-- A text without brackets is passed over. -/
theorem nothingRead_of_plain (h : ∀ c ∈ text, c ≠ Json.openBrace ∧ c ≠ Json.openBracket) :
    NothingRead limits text rest := by
  intro c q hq ho
  have hc := h c (hq.subset List.mem_cons_self)
  rcases opens_cons ho with rfl | rfl
  · exact absurd rfl hc.1
  · exact absurd rfl hc.2

theorem plain_of_isWhitespace {c : Json.CodePoint} (h : isWhitespace c = true) :
    c ≠ Json.openBrace ∧ c ≠ Json.openBracket := by
  constructor <;> rintro rfl <;> cases h

theorem Fenced.plain (h : Fenced before after) :
    ∀ c ∈ before, c ≠ Json.openBrace ∧ c ≠ Json.openBracket := by
  cases h with
  | bare => simp
  | block htag hgap hgap' =>
    intro c hc
    rcases List.mem_append.mp hc with hc | hc
    · rcases List.mem_append.mp hc with hc | hc
      · constructor <;> rintro rfl <;> simp [fence, Json.openBrace, Json.openBracket] at hc
      · have htag := htag c hc
        constructor <;> rintro rfl <;> cases htag
    · exact plain_of_isWhitespace (hgap c hc)

/-! The document in its text. -/

/-- A document with whitespace around it. -/
structure DocumentText (document left used right : Text) : Prop where
  split : document = left ++ (used ++ right)
  left : ∀ c ∈ left, Json.isSpace c = true
  right : ∀ c ∈ right, Json.isSpace c = true
  bracket : opens used = true
  closed : EndsClosed used

theorem closing_of_opens (ho : opens text = true) : Json.Closing .value text := by
  intro _
  cases text with
  | nil => cases ho
  | cons c text =>
    rcases opens_cons ho with rfl | rfl
    · exact Or.inr rfl
    · exact Or.inl rfl

theorem exists_documentText {document : Text} {items : List Value}
    (hdecode : Json.decode limits document = .ok value)
    (hitems : extractFindingDicts value = some items) :
    ∃ left used right, DocumentText document left used right ∧
      ∀ tail, Begins limits (used ++ tail) (.ok (value, tail)) := by
  obtain ⟨right, hbegins, hright⟩ := Json.decode_ok_iff.mp hdecode
  have ho : opens (Json.skipSpace document) = true := by
    by_contra ho
    rw [extractFindingDicts_of_not_opens (Bool.not_eq_true _ ▸ ho) hbegins] at hitems
    cases hitems
  have hclosing := closing_of_opens ho
  obtain ⟨used, hused, hclosed, hlocal⟩ := hbegins.local
  obtain ⟨left, hsplit, hleft⟩ := Json.exists_spaces document
  refine ⟨left, used, right, ⟨hused ▸ hsplit, hleft, ?_, ?_, hclosed hclosing⟩,
    fun tail => hlocal tail (Or.inl hclosing)⟩
  · intro c hc
    exact List.dropWhile_eq_nil_iff.mp hright c hc
  · obtain ⟨kept, close, rfl, -⟩ := hclosed hclosing
    rw [hused] at ho
    cases kept with
    | nil => exact ho
    | cons c kept => exact ho

theorem dropWhile_opens (ho : opens text = true) : text.dropWhile isWhitespace = text := by
  cases text with
  | nil => cases ho
  | cons c text =>
    have hwhite : ¬ isWhitespace c = true := by
      rcases opens_cons ho with rfl | rfl <;> decide
    exact List.dropWhile_cons_of_neg hwhite

theorem opens_append (ho : opens used = true) (tail : Text) : opens (used ++ tail) = true := by
  cases used with
  | nil => cases ho
  | cons c used => exact ho

/-- A closing bracket is not stripped. -/
theorem rstrip_append (h : EndsClosed used) (tail : Text) :
    rstrip (used ++ tail) = used ++ rstrip tail := by
  obtain ⟨kept, close, rfl, hclose⟩ := h
  have hwhite : ¬ isWhitespace close = true := by
    rcases hclose with rfl | rfl <;> decide
  rw [rstrip, rstrip, List.rdropWhile, List.rdropWhile, List.reverse_append, List.dropWhile_append]
  cases hdrop : tail.reverse.dropWhile isWhitespace with
  | nil => simp [hwhite]
  | cons c rest => simp

theorem strip_eq_rstrip (text : Text) : strip text = rstrip (text.dropWhile isWhitespace) := rfl

/-- A text with a document in it is stripped at its ends only. -/
theorem strip_around (ho : opens used = true) (h : EndsClosed used) (prose tail : Text) :
    strip (prose ++ (used ++ tail)) = prose.dropWhile isWhitespace ++ (used ++ rstrip tail) := by
  have hdrop : (prose ++ (used ++ tail)).dropWhile isWhitespace =
      prose.dropWhile isWhitespace ++ (used ++ tail) := by
    rw [List.dropWhile_append]
    cases hprose : prose.dropWhile isWhitespace with
    | nil => exact dropWhile_opens (opens_append ho tail)
    | cons c rest => rfl
  rw [strip_eq_rstrip, hdrop, ← List.append_assoc, rstrip_append (h.append _), List.append_assoc]

theorem exists_rstrip (text : Text) :
    ∃ spaces, text = rstrip text ++ spaces ∧ ∀ c ∈ spaces, isWhitespace c = true :=
  ⟨text.rtakeWhile isWhitespace, (List.rdropWhile_append_rtakeWhile ..).symm,
    fun _ hc => List.mem_rtakeWhile_imp hc⟩

theorem not_begins_fence : ¬ Begins limits (fence ++ text) outcome :=
  not_begins_cons rfl (by decide) (by decide) (by decide)

theorem firstRead_strip_iff (ho : opens used = true) (h : EndsClosed used) (prose tail : Text) :
    FirstRead limits (strip (prose ++ (used ++ tail))) outcome ↔
      FirstRead limits (prose ++ (used ++ rstrip tail)) outcome := by
  have hspaces : NothingRead limits (prose.takeWhile isWhitespace)
      (prose.dropWhile isWhitespace ++ (used ++ rstrip tail)) :=
    nothingRead_of_plain fun c hc => plain_of_isWhitespace (List.mem_takeWhile_imp hc)
  have hsplit : prose ++ (used ++ rstrip tail) = prose.takeWhile isWhitespace ++
      (prose.dropWhile isWhitespace ++ (used ++ rstrip tail)) := by
    rw [← List.append_assoc (prose.takeWhile isWhitespace), List.takeWhile_append_dropWhile]
  rw [strip_around ho h, hsplit, hspaces.firstRead_iff]

/-- What is read in a stripped text is read in the text. -/
theorem begins_of_rstrip (h : Begins limits (text ++ rstrip rest) (.ok (value, after))) :
    ∃ spaces, (∀ c ∈ spaces, isWhitespace c = true) ∧
      Begins limits (text ++ rest) (.ok (value, after ++ spaces)) := by
  obtain ⟨spaces, hsplit, hspaces⟩ := exists_rstrip rest
  have hapart : Apart spaces := by
    simpa using @apart_of_whitespace [] spaces hspaces Json.apart_nil
  have hread := h.append hapart
  rw [List.append_assoc, ← hsplit] at hread
  exact ⟨spaces, hspaces, hread⟩

section

variable {py : Interpreter} {modelValidate : ModelValidate} {agentType : AgentType}
  {document left right tail : Text} {items : List Value}

/-- The rest of a text from the prose on. -/
theorem DocumentText.rest_eq (h : DocumentText document left used right)
    (before after tail : Text) : before ++ (document ++ (after ++ tail)) =
      before ++ left ++ (used ++ (right ++ (after ++ tail))) := by
  rw [h.split]
  simp only [List.append_assoc]

theorem DocumentText.rstrip_eq (h : DocumentText document left used right)
    (before after tail : Text) : rstrip (before ++ (document ++ (after ++ tail))) =
      before ++ left ++ (used ++ rstrip (right ++ (after ++ tail))) := by
  rw [h.rest_eq, ← List.append_assoc (before ++ left), rstrip_append (h.closed.append _),
    List.append_assoc]

theorem DocumentText.strip_eq (h : DocumentText document left used right)
    (prose before after tail : Text) : strip (prose ++ (before ++ (document ++ (after ++ tail)))) =
      (prose ++ (before ++ left)).dropWhile isWhitespace ++
        (used ++ rstrip (right ++ (after ++ tail))) := by
  rw [h.rest_eq, ← List.append_assoc prose, strip_around h.bracket h.closed]

theorem DocumentText.plain_left (h : DocumentText document left used right)
    (hfenced : Fenced before after) :
    ∀ c ∈ before ++ left, c ≠ Json.openBrace ∧ c ≠ Json.openBracket := by
  intro c hc
  rcases List.mem_append.mp hc with hc | hc
  · exact hfenced.plain c hc
  · exact plain_of_isWhitespace (isWhitespace_of_isSpace (h.left c hc))

theorem DocumentText.exists_not_isWhitespace (h : DocumentText document left used right) :
    ∃ b ∈ document, ¬ isWhitespace b = true := by
  obtain ⟨kept, close, rfl, hclose⟩ := h.closed
  refine ⟨close, by simp [h.split], ?_⟩
  rcases hclose with rfl | rfl <;> decide

/-- What is read first in the text, as far as the prose goes. -/
theorem DocumentText.firstRead_iff (h : DocumentText document left used right) :
    FirstRead limits (strip (prose ++ (before ++ (document ++ (after ++ tail))))) outcome ↔
      FirstRead limits (prose ++ rstrip (before ++ (document ++ (after ++ tail)))) outcome := by
  rw [h.rstrip_eq, h.rest_eq, ← List.append_assoc prose, firstRead_strip_iff h.bracket h.closed,
    List.append_assoc prose]

/-- A value that takes up the whole text is the document's. -/
theorem DocumentText.not_isDocument (h : DocumentText document left used right)
    (hfenced : Fenced before after)
    (hprose : Prose limits prose (before ++ (document ++ (after ++ tail)))) :
    opens (strip (prose ++ (before ++ (document ++ (after ++ tail))))) = true ∨
      ¬ IsDocument limits (strip (prose ++ (before ++ (document ++ (after ++ tail))))) := by
  rw [or_iff_not_imp_right, not_not]
  rintro ⟨-, value, after', hbegins, hafter, -⟩
  rw [skipSpace_strip] at hbegins
  rw [h.strip_eq] at hbegins ⊢
  cases hdrop : prose.dropWhile isWhitespace with
  | cons c q =>
    -- the value starts in the prose, so all of the document is still to come after it
    have hq : c :: q <:+ prose := hdrop ▸ List.dropWhile_suffix _
    have hstripped : (prose ++ (before ++ left)).dropWhile isWhitespace ++
        (used ++ rstrip (right ++ (after ++ tail))) =
          c :: q ++ rstrip (before ++ (document ++ (after ++ tail))) := by
      rw [h.rstrip_eq, List.dropWhile_append, hdrop]
      exact List.append_assoc (c :: q) (before ++ left) _
    rw [hstripped] at hbegins
    obtain ⟨spaces, hspaces, hread⟩ := begins_of_rstrip hbegins
    obtain ⟨b, hb, hwhite⟩ := h.exists_not_isWhitespace
    have hmem : b ∈ after' ++ spaces :=
      (hprose.inside c q value _ hq hread).subset (by simp [hb])
    rcases List.mem_append.mp hmem with hb | hb
    · exact absurd (isWhitespace_of_isSpace (List.dropWhile_eq_nil_iff.mp hafter b hb)) hwhite
    · exact absurd (hspaces b hb) hwhite
  | nil =>
    have hskip : (prose ++ (before ++ left)).dropWhile isWhitespace =
        (before ++ left).dropWhile isWhitespace := by
      rw [List.dropWhile_append, hdrop]
      rfl
    rw [hskip] at hbegins ⊢
    cases hfenced with
    | bare =>
      have hleft : left.dropWhile isWhitespace = [] :=
        List.dropWhile_eq_nil_iff.mpr fun c hc => isWhitespace_of_isSpace (h.left c hc)
      rw [List.nil_append, hleft]
      exact opens_append h.bracket _
    | @block tag gap gap' htag hgap hgap' =>
      have hfence : (fence ++ tag ++ gap ++ left).dropWhile isWhitespace =
          fence ++ (tag ++ (gap ++ left)) := by
        rw [List.append_assoc, List.append_assoc]
        rfl
      rw [hfence, List.append_assoc] at hbegins
      exact absurd hbegins not_begins_fence

/-- A text that begins beyond the limits is an error of its own. -/
theorem payloadOf_strip_beyond {failure : Failure} (py : Interpreter)
    (h : Begins py.limits (strip text) (.error failure)) :
    ∃ e, payloadOf py (strip text) = .error e ∧ e.isInstance .responseParseError = false := by
  have hbom : (strip text).head? ≠ some 0xFEFF := fun hbom => not_begins_bom hbom h
  have hne : failure ≠ .syntaxError := by simpa using h.ne_syntaxError
  refine ⟨_, payloadOf_of_error ?_ hne, decoderError_escapes⟩
  rw [Json.loads, if_neg hbom, Json.decode_error_iff hne, skipSpace_strip]
  exact h

theorem payloadOf_strip_finds (py : Interpreter)
    (hstart : ∀ failure, ¬ Begins py.limits (strip text) (.error failure))
    (hpart : opens (strip text) = true ∨ ¬ IsDocument py.limits (strip text)) :
    Finds py.limits (strip text) (payloadOf py (strip text)) := by
  rcases hpart with ho | hdocument
  · exact payloadOf_finds py ho
  · rw [payloadOf_scans hdocument fun _ => (skipSpace_strip text).symm ▸ hstart]
    exact extractEmbeddedJson_finds py (strip text)

theorem finds_of_read {result : Except Exc (Option Value)} (h : Finds limits text result)
    (hfirst : FirstRead limits text (.ok (value, after))) : result = .ok (some value) := by
  rcases h with ⟨value', after', hfirst', hresult⟩ | ⟨failure, e, hfirst', -⟩ | ⟨hnone, -⟩
  · cases hfirst.unique hfirst'
    exact hresult
  · cases hfirst.unique hfirst'
  · exact absurd hfirst (hnone _)

theorem finds_of_failure {result : Except Exc (Option Value)} {failure : Failure}
    (h : Finds limits text result) (hfirst : FirstRead limits text (.error failure)) :
    ∃ e, result = .error e ∧ e.isInstance .responseParseError = false := by
  rcases h with ⟨value', after', hfirst', -⟩ | ⟨failure', e, -, hresult, he⟩ | ⟨hnone, -⟩
  · cases hfirst.unique hfirst'
  · exact ⟨e, hresult, he⟩
  · exact absurd hfirst (hnone _)

theorem parse_congr {rawText rawText' : Text}
    (h : extractJsonPayload py rawText = extractJsonPayload py rawText') :
    parseFindingsFromLlmResponse py modelValidate rawText agentType =
      parseFindingsFromLlmResponse py modelValidate rawText' agentType := by
  simp only [parseFindingsFromLlmResponse, h]

theorem parse_of_some {rawText : Text} (h : extractJsonPayload py rawText = .ok (some value))
    (hitems : extractFindingDicts value = some items) :
    parseFindingsFromLlmResponse py modelValidate rawText agentType =
      if (items.filterMap (findingOf modelValidate agentType)).isEmpty && !items.isEmpty then
        .error (responseParseError
          "no valid Finding objects could be extracted from the LLM response")
      else .ok (items.filterMap (findingOf modelValidate agentType)) := by
  simp only [parseFindingsFromLlmResponse, h, bind, Except.bind, hitems]
  rfl

theorem parse_valid {rawText : Text} (h : extractJsonPayload py rawText = .ok (some value))
    (hitems : extractFindingDicts value = some items)
    (hvalid : ¬ ∀ item ∈ items, findingOf modelValidate agentType item = none) :
    ∃ findings, parseFindingsFromLlmResponse py modelValidate rawText agentType = .ok findings ∧
      findings ≠ [] := by
  have hne : items.filterMap (findingOf modelValidate agentType) ≠ [] :=
    fun hnil => hvalid (List.filterMap_eq_nil_iff.mp hnil)
  refine ⟨_, (parse_of_some h hitems).trans (if_neg ?_), hne⟩
  simp [hne]

/-- Where nothing is valid the text is not parsed, unless the list is empty. -/
theorem parse_invalid {rawText : Text} (h : extractJsonPayload py rawText = .ok (some value))
    (hne : extractFindingDicts value ≠ some [])
    (hinvalid : ∀ items, extractFindingDicts value = some items →
      ∀ item ∈ items, findingOf modelValidate agentType item = none) :
    ∃ e, parseFindingsFromLlmResponse py modelValidate rawText agentType = .error e ∧
      e.isInstance .responseParseError = true := by
  rcases (notClean_iff_of_some h).mpr hne with herror | ⟨findings, hok, hnonempty⟩
  · exact herror
  · exfalso
    cases hitems : extractFindingDicts value with
    | none => simp [parseFindingsFromLlmResponse, h, bind, Except.bind, hitems] at hok
    | some items =>
      rw [parse_of_some h hitems] at hok
      split at hok
      · cases hok
      · obtain rfl := Except.ok.inj hok
        exact hnonempty (List.filterMap_eq_nil_iff.mpr (hinvalid items hitems))

theorem parse_empty {rawText : Text} (h : extractJsonPayload py rawText = .ok (some value))
    (hitems : extractFindingDicts value = some []) :
    parseFindingsFromLlmResponse py modelValidate rawText agentType = .ok [] :=
  parse_of_some h hitems

/-- Without an object among the items nothing is valid. -/
theorem invalid_of_not_hasFindingObject (h : ¬ HasFindingObject value) (modelValidate : ModelValidate)
    (agentType : AgentType) : ∀ items, extractFindingDicts value = some items →
      ∀ item ∈ items, findingOf modelValidate agentType item = none := by
  intro items hitems item hmem
  cases item with
  | object members => exact absurd ⟨items, hitems, _, hmem, rfl⟩ h
  | _ => rfl

theorem not_sameFindings_of_escape {e : Exc} (he : e.isInstance .responseParseError = false)
    (result : Except Exc (List Finding)) :
    ¬ SameFindings (.error e) result ∧ ¬ SameFindings result (.error e) := by
  constructor <;> intro h
  · cases h with
    | unparsed h => rw [he] at h; cases h
  · cases h with
    | unparsed _ h => rw [he] at h; cases h

theorem sameFindings_self {rawText : Text} (h : extractJsonPayload py rawText = .ok (some value)) :
    SameFindings (parseFindingsFromLlmResponse py modelValidate rawText agentType)
      (parseFindingsFromLlmResponse py modelValidate rawText agentType) := by
  by_cases hempty : extractFindingDicts value = some []
  · rw [parse_empty h hempty]
    exact .list []
  · rcases (notClean_iff_of_some h).mpr hempty with ⟨e, he, hclass⟩ | ⟨findings, hok, -⟩
    · rw [he]
      exact .unparsed hclass hclass
    · rw [hok]
      exact .list findings

theorem DocumentText.strip_document (h : DocumentText document left used right) :
    strip document = used := by
  have hleft : left.dropWhile isWhitespace = [] :=
    List.dropWhile_eq_nil_iff.mpr fun c hc => isWhitespace_of_isSpace (h.left c hc)
  have hright : rstrip right = [] := by
    obtain ⟨spaces, hsplit, hspaces⟩ := exists_rstrip right
    rw [rstrip, List.rdropWhile_eq_nil_iff]
    exact fun c hc => isWhitespace_of_isSpace (h.right c hc)
  rw [h.split, strip_around h.bracket h.closed, hleft, hright, List.append_nil, List.nil_append]

/-- The document as it stands within the limits. -/
theorem DocumentText.extractJsonPayload_eq (h : DocumentText document left used right)
    (hread : ∀ tail, Begins py.limits (used ++ tail) (.ok (value, tail))) :
    extractJsonPayload py document = .ok (some value) := by
  apply extractJsonPayload_of_some
  have hfirst : FirstRead py.limits used (.ok (value, [])) := by
    simpa using FirstRead.here (opens_append h.bracket []) (hread [])
  rw [h.strip_document]
  exact finds_of_read (payloadOf_finds py h.bracket) hfirst

/-- What comes of the document in its text: it is passed over to, or something is read before it. -/
theorem DocumentText.strip_skips (h : DocumentText document left used right)
    (hfenced : Fenced before after)
    (hread : ∀ tail, Begins limits (used ++ tail) (.ok (value, tail)))
    (hnothing : NothingRead limits prose (rstrip (before ++ (document ++ (after ++ tail))))) :
    FirstRead limits (strip (prose ++ (before ++ (document ++ (after ++ tail)))))
      (.ok (value, rstrip (right ++ (after ++ tail)))) := by
  have hplain : NothingRead limits (before ++ left) (used ++ rstrip (right ++ (after ++ tail))) :=
    nothingRead_of_plain (h.plain_left hfenced)
  rw [h.firstRead_iff, hnothing.firstRead_iff, h.rstrip_eq, hplain.firstRead_iff]
  exact .here (opens_append h.bracket _) (hread _)

/-- A document that is not within the limits cannot be read on its own either. -/
theorem DocumentText.escapes (h : DocumentText document left used right) {failure : Failure}
    (hbeyond : Begins py.limits used (.error failure)) :
    ∃ e, parseFindingsFromLlmResponse py modelValidate document agentType = .error e ∧
      e.isInstance .responseParseError = false := by
  obtain ⟨e, hpayload, he⟩ := payloadOf_strip_beyond py (h.strip_document.symm ▸ hbeyond)
  exact ⟨e, parse_of_error (extractJsonPayload_of_error hpayload), he⟩

theorem DocumentText.skipSpace_document (h : DocumentText document left used right) :
    Json.skipSpace document = used ++ right := by
  rw [h.split, Json.skipSpace_spaces h.left, skipSpace_of_opens (opens_append h.bracket right)]

/-- Under other limits the document is read as the same value, or goes beyond them. -/
theorem DocumentText.relimit (h : DocumentText document left used right)
    (hread : ∀ tail, Begins limits (used ++ tail) (.ok (value, tail))) (limits' : Limits) :
    (∀ tail, Begins limits' (used ++ tail) (.ok (value, tail))) ∨
      ∃ failure, Begins limits' used (.error failure) := by
  have hwhole := hread []
  rw [List.append_nil] at hwhole
  rcases hwhole.relimit limits' limits'.nesting with hsame | hbeyond
  · obtain ⟨used', hused, -, hlocal⟩ := hsame.local
    rw [List.append_nil] at hused
    subst hused
    exact Or.inl fun tail => hlocal tail (Or.inl (closing_of_opens h.bracket))
  · exact Or.inr hbeyond

theorem apart_of_isSpace (h : ∀ c ∈ text, Json.isSpace c = true) : Apart text := by
  simpa using apart_of_whitespace (fun c hc => isWhitespace_of_isSpace (h c hc)) Json.apart_nil

/-- A value without findings is parsed as a document is, if nothing is valid in that and the value
is no empty list. -/
theorem sameFindings_prose_iff {rawText : Text} {value' : Value}
    (hprose : extractJsonPayload py rawText = .ok (some value'))
    (hnone : ¬ HasFindingObject value')
    (hdocument : extractJsonPayload py document = .ok (some value))
    (hitems : extractFindingDicts value = some items) (hne : items ≠ []) :
    SameFindings (parseFindingsFromLlmResponse py modelValidate rawText agentType)
        (parseFindingsFromLlmResponse py modelValidate document agentType) ↔
      (∀ item ∈ items, findingOf modelValidate agentType item = none) ∧ ¬ EmptyFindings value' := by
  have hinvalid := invalid_of_not_hasFindingObject hnone modelValidate agentType
  by_cases hvalid : ∀ item ∈ items, findingOf modelValidate agentType item = none
  · obtain ⟨e, he, hclass⟩ := parse_invalid hdocument (by simpa [hitems] using hne)
      fun items' hitems' => by
        obtain rfl := Option.some.inj (hitems.symm.trans hitems')
        exact hvalid
    rw [he]
    by_cases hempty : extractFindingDicts value' = some []
    · rw [parse_empty hprose hempty]
      exact iff_of_false (by rintro ⟨⟩) fun h => h.2 (extractFindingDicts_eq_nil_iff.mp hempty)
    · obtain ⟨e', he', hclass'⟩ := parse_invalid hprose hempty hinvalid
      rw [he']
      exact iff_of_true (.unparsed hclass' hclass)
        ⟨hvalid, fun h => hempty (extractFindingDicts_eq_nil_iff.mpr h)⟩
  · obtain ⟨findings, hok, hfindings⟩ := parse_valid hdocument hitems hvalid
    rw [hok]
    refine iff_of_false (fun hsame => ?_) fun h => hvalid h.1
    by_cases hempty : extractFindingDicts value' = some []
    · rw [parse_empty hprose hempty] at hsame
      cases hsame
      exact hfindings rfl
    · obtain ⟨e', he', -⟩ := parse_invalid hprose hempty hinvalid
      rw [he'] at hsame
      cases hsame

/-- The findings of a document in its text are those of the document alone exactly if the document
stands out from the prose before it. -/
theorem surrounding_prose_iff (py : Interpreter) (modelValidate : ModelValidate)
    (agentType : AgentType) {limits : Limits} {value : Value} {items : List Value}
    {prose before document after tail : Text}
    (hdecode : Json.decode limits document = .ok value)
    (hitems : extractFindingDicts value = some items)
    (hobject : ∃ item ∈ items, isObject item = true) (hfenced : Fenced before after)
    (hprose : Prose py.limits prose (before ++ (document ++ (after ++ tail)))) :
    SameFindings
        (parseFindingsFromLlmResponse py modelValidate
          (prose ++ (before ++ (document ++ (after ++ tail)))) agentType)
        (parseFindingsFromLlmResponse py modelValidate document agentType) ↔
      StandsOut py.limits prose document (before ++ (document ++ (after ++ tail)))
        (∀ item ∈ items, findingOf modelValidate agentType item = none) := by
  obtain ⟨left, used, right, hdoc, hread⟩ := exists_documentText hdecode hitems
  have hne : items ≠ [] := by
    rintro rfl
    simp at hobject
  rcases hdoc.relimit hread py.limits with hread | ⟨failure, hbeyond⟩
  · have halone := hdoc.extractJsonPayload_eq hread
    have hwithin : ∀ failure, ¬ Begins py.limits (Json.skipSpace document) (.error failure) := by
      intro failure hfailure
      rw [hdoc.skipSpace_document] at hfailure
      cases ((Json.begins_iff (by simp)).mp (hread right)).symm.trans
        ((Json.begins_iff hfailure.ne_syntaxError).mp hfailure)
    by_cases hstart : ∀ failure, ¬ Begins py.limits
        (strip (prose ++ (before ++ (document ++ (after ++ tail))))) (.error failure)
    · have hfinds := payloadOf_strip_finds py hstart (hdoc.not_isDocument hfenced hprose)
      by_cases hnothing : NothingRead py.limits prose
          (rstrip (before ++ (document ++ (after ++ tail))))
      · -- the scan comes to the document
        have hfirst := hdoc.strip_skips hfenced hread hnothing
        have hpayload := finds_of_read hfinds hfirst
        refine iff_of_true ?_ ⟨hwithin, hstart, Or.inl hnothing⟩
        have hsame := (extractJsonPayload_of_some hpayload).trans halone.symm
        rw [parse_congr hsame]
        exact sameFindings_self halone
      · obtain ⟨outcome, c, q, hread', hq, hbegins⟩ := exists_firstRead_of_not hnothing
        have hfirst := hdoc.firstRead_iff.mpr hread'
        cases outcome with
        | error failure =>
          obtain ⟨e, hpayload, he⟩ := finds_of_failure hfinds hfirst
          rw [parse_of_error (extractJsonPayload_of_error hpayload)]
          refine iff_of_false (not_sameFindings_of_escape he _).1 fun hstands => ?_
          rcases hstands.prose with h | ⟨-, value', after', h, -⟩
          · exact hnothing h
          · cases h.unique hfirst
        | ok r =>
          obtain ⟨value', after'⟩ := r
          obtain ⟨spaces, -, hbegins⟩ := begins_of_rstrip hbegins
          have hpayload := extractJsonPayload_of_some (finds_of_read hfinds hfirst)
          rw [sameFindings_prose_iff hpayload (hprose.noFindings c q value' _ hq hbegins) halone
            hitems hne]
          constructor
          · exact fun h => ⟨hwithin, hstart, Or.inr ⟨h.1, value', after', hfirst, h.2⟩⟩
          · intro hstands
            rcases hstands.prose with h | ⟨hinvalid, value'', after'', h, hempty⟩
            · exact absurd h hnothing
            · cases h.unique hfirst
              exact ⟨hinvalid, hempty⟩
    · push Not at hstart
      obtain ⟨failure, hfailure⟩ := hstart
      obtain ⟨e, hpayload, he⟩ := payloadOf_strip_beyond py hfailure
      rw [parse_of_error (extractJsonPayload_of_error hpayload)]
      exact iff_of_false (not_sameFindings_of_escape he _).1 fun h => h.start failure hfailure
  · -- the document alone is beyond the limits
    obtain ⟨e, hparse, he⟩ := hdoc.escapes hbeyond
    rw [hparse]
    refine iff_of_false (not_sameFindings_of_escape he _).2 fun h => h.document failure ?_
    rw [hdoc.skipSpace_document]
    exact hbeyond.append (apart_of_isSpace hdoc.right)

end

/-! A document after a sentence. -/

/-- Prose is recognised by decoding from each of its characters on. -/
def isProse (limits : Limits) (prose rest : Text) : Bool :=
  prose.tails.all fun q => q.isEmpty ||
    match Json.rawDecode limits (q ++ rest) with
    | .ok (value, after) =>
      rest.isSuffixOf after && !(extractFindingDicts value).any (·.any isObject)
    | .error _ => true

theorem prose_of_check (h : isProse limits prose rest = true) : Prose limits prose rest := by
  have hfacts : ∀ c q value after, c :: q <:+ prose →
      Begins limits (c :: q ++ rest) (.ok (value, after)) →
      rest <:+ after ∧ ¬ HasFindingObject value := by
    intro c q value after hq hbegins
    have hcheck := List.all_eq_true.mp h (c :: q) ((List.mem_tails _ _).mpr hq)
    rw [(Json.begins_iff (by simp)).mp hbegins] at hcheck
    simp only [List.isEmpty_cons, Bool.false_or, Bool.and_eq_true, Bool.not_eq_true'] at hcheck
    refine ⟨List.isSuffixOf_iff_suffix.mp hcheck.1, ?_⟩
    rintro ⟨items, hitems, item, hmem, hobject⟩
    have hany : items.any isObject = true := List.any_eq_true.mpr ⟨item, hmem, hobject⟩
    simp [hitems, hany] at hcheck
  exact ⟨fun c q value after hq hbegins => (hfacts c q value after hq hbegins).1,
    fun c q value after hq hbegins => (hfacts c q value after hq hbegins).2⟩

theorem exists_findings_of_check {limits : Limits} {document : Text}
    (h : isFindingsDocument limits validateAsIs .quality document = true) :
    ∃ value items, Json.decode limits document = .ok value ∧
      extractFindingDicts value = some items ∧ ∃ item ∈ items, isObject item = true := by
  unfold isFindingsDocument at h
  split at h
  · rename_i value hdecode
    obtain ⟨items, hitems, hcheck⟩ := (Option.any_eq_true _ _).mp h
    simp only [Bool.and_eq_true, Bool.not_eq_true', List.all_eq_true] at hcheck
    obtain ⟨item, hmem⟩ := List.isEmpty_eq_false_iff_exists_mem.mp hcheck.1
    refine ⟨value, items, hdecode, hitems, item, hmem, ?_⟩
    have hvalid := hcheck.2 item hmem
    cases item with
    | object members => rfl
    | _ => cases hvalid
  · cases h

/-- The empty list in a sentence passes for the findings. -/
theorem empty_list_in_prose : ¬ ∀ (py : Interpreter) (modelValidate : ModelValidate)
    (agentType : AgentType) (limits : Limits) (value : Value) (items : List Value)
    (prose before document after tail : Text), Json.decode limits document = .ok value →
    extractFindingDicts value = some items → (∃ item ∈ items, isObject item = true) →
    Fenced before after → Prose py.limits prose (before ++ (document ++ (after ++ tail))) →
    SameFindings
      (parseFindingsFromLlmResponse py modelValidate
        (prose ++ (before ++ (document ++ (after ++ tail)))) agentType)
      (parseFindingsFromLlmResponse py modelValidate document agentType) := by
  intro h
  obtain ⟨value, items, hdecode, hitems, hobject⟩ :=
    @exists_findings_of_check ⟨1000, intMaxStrDigits⟩ mutableDefaultDocument (by decide +kernel)
  have hsame := h .sample validateAsIs .quality _ value items (points "See [] below: ") []
    mutableDefaultDocument [] [] hdecode hitems hobject .bare (prose_of_check (by decide +kernel))
  rw [eq_ok_nil (show isOkEmpty (parseFindingsFromLlmResponse .sample validateAsIs
    (points "See [] below: " ++ ([] ++ (mutableDefaultDocument ++ ([] ++ [])))) .quality) = true by
      decide +kernel)] at hsame
  have hnonempty : isOkEmpty (parseFindingsFromLlmResponse .sample validateAsIs
      mutableDefaultDocument .quality) = false := by
    decide +kernel
  cases hresult : parseFindingsFromLlmResponse .sample validateAsIs mutableDefaultDocument .quality with
  | error e =>
    rw [hresult] at hsame
    cases hsame
  | ok findings =>
    rw [hresult] at hsame hnonempty
    cases hsame
    cases hnonempty

/-- The fence and the tag of a code block. -/
def jsonFence : Text := fence ++ points "json" ++ [0x0A]

theorem surrounding_prose_iff_fenced :
    SameFindings
      (parseFindingsFromLlmResponse .sample validateAsIs
        (points "Here is my review: " ++ (jsonFence ++ (mutableDefaultDocument ++
          ([0x0A] ++ fence ++ points " Done.")))) .quality)
      (parseFindingsFromLlmResponse .sample validateAsIs mutableDefaultDocument .quality) := by
  obtain ⟨value, items, hdecode, hitems, hobject⟩ :=
    @exists_findings_of_check Interpreter.sample.limits mutableDefaultDocument (by decide +kernel)
  have hfenced : Fenced jsonFence ([0x0A] ++ fence) := .block (by decide) (by decide) (by decide)
  refine (surrounding_prose_iff .sample validateAsIs .quality hdecode hitems hobject hfenced
    (prose_of_check (by decide +kernel))).mpr ⟨?_, fun failure => ?_, Or.inl ?_⟩
  · intro failure hfailure
    have hne : failure ≠ .syntaxError := by simpa using hfailure.ne_syntaxError
    cases hdecode.symm.trans ((Json.decode_error_iff hne).mpr hfailure)
  · obtain ⟨rest, hstrip⟩ := List.head?_eq_some_iff.mp
      (show (strip (points "Here is my review: " ++ (jsonFence ++ (mutableDefaultDocument ++
        ([0x0A] ++ fence ++ points " Done."))))).head? = some 'H'.toNat by decide +kernel)
    have hnot : ¬ Begins Interpreter.sample.limits ('H'.toNat :: rest) (.error failure) :=
      not_begins_cons rfl (by decide) (by decide) (by decide)
    exact hstrip ▸ hnot
  · exact nothingRead_of_plain (by decide)

end ReviewAgent
