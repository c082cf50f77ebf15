import ReviewAgent.Interpreter
import ReviewAgent.Models.Findings
import ReviewAgent.WebhookReceiver.Parser

/-! The golden dataset: what its file says, and the cases that are loaded from it. -/
namespace ReviewAgent

open Json (Text Value lookup points)

/-- One finding a correct review is expected to surface. -/
structure ExpectedFinding where
  category : String
  severity : Severity
  filePath : String
  mustDetect : Bool
  notes : String
  category_length : 1 ≤ category.length
  filePath_length : 1 ≤ filePath.length

/-- A diff, and what a correct review of it must catch. -/
structure GoldenCase where
  caseId : String
  description : String
  diffPath : String
  expectedClean : Bool
  expectedFindings : List ExpectedFinding
  diffText : Text
  caseId_length : 1 ≤ caseId.length
  description_length : 1 ≤ description.length
  diffPath_length : 1 ≤ diffPath.length

def goldenDatasetErrorClass : ExcClass := .other "GoldenDatasetError" .exception

def goldenDatasetError (message : String) : Exc := .plain goldenDatasetErrorClass message

/-- The dataset's file and the files its cases name, as `is_file` and `read_text` see them, and what
`GoldenCase.model_validate` makes of an entry. -/
structure DatasetSource where
  path : String
  text : Option (Except Exc Text)
  diffFile : String → String
  diffText : String → Option (Except Exc Text)
  modelValidate : Value → Except Exc GoldenCase

namespace DatasetSource

variable (py : Interpreter) (source : DatasetSource)

/-- The entry of one case, validated, new, and with its diff. -/
def loadCase (seen : List String) (entry : Value) : Except Exc GoldenCase :=
  match source.modelValidate entry with
  | .error e =>
    .error (goldenDatasetError s!"invalid golden dataset entry: {py.repr entry}: {e.message}")
  | .ok case =>
    if case.caseId ∈ seen then
      .error (goldenDatasetError
        s!"duplicate case_id in golden dataset: {py.repr (.str (points case.caseId))}")
    else
      match source.diffText case.diffPath with
      | none => .error (goldenDatasetError
          (s!"golden case {py.repr (.str (points case.caseId))} references a diff_path " ++
            s!"that does not exist: {source.diffFile case.diffPath}"))
      | some (.error e) => .error e
      | some (.ok text) => .ok { case with diffText := text }

/-- The loop over the entries, with the ids it has seen. -/
def loadCases : List String → List Value → Except Exc (List GoldenCase)
  | _, [] => .ok []
  | seen, entry :: entries => do
    let case ← source.loadCase py seen entry
    let cases ← loadCases (case.caseId :: seen) entries
    pure (case :: cases)

/-- `raw.get("cases")`, if it is a list with something in it. -/
def rawCases (raw : Value) : Except Exc (List Value) :=
  match raw with
  | .object members =>
    match lookup (points "cases") members with
    | some (.array (entry :: entries)) => .ok (entry :: entries)
    | _ => .error (goldenDatasetError
        s!"golden dataset file has no non-empty 'cases' list: {source.path}")
  | raw => .error (.plain (.other "AttributeError" .exception)
      s!"'{typeName raw}' object has no attribute 'get'")

/-- `json.loads(dataset_path.read_text(...))`. -/
def decoded (text : Text) : Except Exc Value :=
  match Json.loads py.limits text with
  | .ok raw => .ok raw
  | .error .syntaxError =>
    .error (goldenDatasetError s!"golden dataset file is not valid JSON: {source.path}")
  | .error failure => .error (decoderError py text failure)

/-- `load_golden_dataset`. -/
def loadGoldenDataset : Except Exc (List GoldenCase) :=
  match source.text with
  | none => .error (goldenDatasetError s!"golden dataset file not found: {source.path}")
  | some (.error e) => .error e
  | some (.ok text) => do
    let raw ← source.decoded py text
    let entries ← source.rawCases raw
    source.loadCases py [] entries

/-- The case of an entry: as validated, with the text of the file that it names. -/
def CaseOf (entry : Value) (case : GoldenCase) : Prop :=
  ∃ validated text, source.modelValidate entry = .ok validated ∧
    source.diffText validated.diffPath = some (.ok text) ∧ case = { validated with diffText := text }

/-- The file is a JSON object with these entries. -/
def Lists (entries : List Value) : Prop :=
  ∃ text members, source.text = some (.ok text) ∧ Json.loads py.limits text = .ok (.object members) ∧
    lookup (points "cases") members = some (.array entries)

variable {py : Interpreter} {source : DatasetSource} {seen : List String} {entry : Value}
  {entries : List Value} {case : GoldenCase} {cases : List GoldenCase}

theorem loadCase_ok_iff : source.loadCase py seen entry = .ok case ↔
    source.CaseOf entry case ∧ case.caseId ∉ seen := by
  unfold loadCase CaseOf
  cases hvalidate : source.modelValidate entry with
  | error e => simp
  | ok validated =>
    by_cases hseen : validated.caseId ∈ seen
    · simp only [hseen, if_true]
      refine iff_of_false (by simp) ?_
      rintro ⟨⟨validated', text, hvalidated, -, rfl⟩, hnot⟩
      cases hvalidated
      exact hnot hseen
    · simp only [hseen, if_false]
      cases htext : source.diffText validated.diffPath with
      | none =>
        refine iff_of_false (by simp) ?_
        rintro ⟨⟨validated', text, hvalidated, hread, -⟩, -⟩
        cases hvalidated
        cases htext.symm.trans hread
      | some read =>
        cases read with
        | error e =>
          refine iff_of_false (by simp) ?_
          rintro ⟨⟨validated', text, hvalidated, hread, -⟩, -⟩
          cases hvalidated
          cases htext.symm.trans hread
        | ok text =>
          constructor
          · intro h
            obtain rfl := Except.ok.inj h
            exact ⟨⟨validated, text, rfl, htext, rfl⟩, hseen⟩
          · rintro ⟨⟨validated', text', hvalidated, hread, rfl⟩, -⟩
            cases hvalidated
            cases htext.symm.trans hread
            rfl

/-- The loop loads the case of every entry, in order, as long as no id comes twice. -/
theorem loadCases_ok_iff : source.loadCases py seen entries = .ok cases ↔
    List.Forall₂ source.CaseOf entries cases ∧ (cases.map GoldenCase.caseId).Nodup ∧
      ∀ case ∈ cases, case.caseId ∉ seen := by
  induction entries generalizing seen cases with
  | nil =>
    rw [loadCases, List.forall₂_nil_left_iff]
    constructor
    · intro h
      obtain rfl := Except.ok.inj h
      exact ⟨rfl, List.nodup_nil, by simp⟩
    · rintro ⟨rfl, -, -⟩
      rfl
  | cons entry entries ih =>
    simp only [loadCases, bind, Except.bind]
    constructor
    · intro h
      cases hcase : source.loadCase py seen entry with
      | error e => simp [hcase] at h
      | ok case =>
        cases hcases : source.loadCases py (case.caseId :: seen) entries with
        | error e => simp [hcase, hcases] at h
        | ok rest =>
          obtain rfl : case :: rest = cases := by simpa [hcase, hcases, pure, Except.pure] using h
          obtain ⟨hof, hnew⟩ := loadCase_ok_iff.mp hcase
          obtain ⟨hall, hnodup, hfresh⟩ := ih.mp hcases
          have hapart : ∀ case' ∈ rest, case'.caseId ≠ case.caseId ∧ case'.caseId ∉ seen := by
            intro case' hmem
            simpa using hfresh case' hmem
          refine ⟨.cons hof hall, ?_, ?_⟩
          · rw [List.map_cons, List.nodup_cons]
            refine ⟨fun hmem => ?_, hnodup⟩
            obtain ⟨case', hmem', heq⟩ := List.mem_map.mp hmem
            exact (hapart case' hmem').1 heq
          · intro case' hmem
            rcases List.mem_cons.mp hmem with rfl | hmem
            · exact hnew
            · exact (hapart case' hmem).2
    · rintro ⟨hall, hnodup, hfresh⟩
      obtain ⟨case, rest, hof, hothers, rfl⟩ := List.forall₂_cons_left_iff.mp hall
      rw [List.map_cons, List.nodup_cons] at hnodup
      have hcase : source.loadCase py seen entry = .ok case :=
        loadCase_ok_iff.mpr ⟨hof, hfresh case List.mem_cons_self⟩
      have hrest := (@ih (case.caseId :: seen) rest).mpr ⟨hothers, hnodup.2, fun case' hmem => by
        rw [List.mem_cons, not_or]
        exact ⟨fun heq => hnodup.1 (List.mem_map.mpr ⟨case', hmem, heq⟩),
          hfresh case' (List.mem_cons_of_mem _ hmem)⟩⟩
      simp only [hcase, hrest]
      rfl

theorem rawCases_ok_iff {raw : Value} : source.rawCases raw = .ok entries ↔
    entries ≠ [] ∧ ∃ members, raw = .object members ∧
      lookup (points "cases") members = some (.array entries) := by
  cases raw with
  | object members =>
    simp only [rawCases]
    split
    · rename_i entry rest hlookup
      constructor
      · intro h
        obtain rfl := Except.ok.inj h
        exact ⟨List.cons_ne_nil _ _, members, rfl, hlookup⟩
      · rintro ⟨-, members', hsame, hlookup'⟩
        cases hsame
        cases hlookup.symm.trans hlookup'
        rfl
    · rename_i hnone
      refine iff_of_false (by simp) ?_
      rintro ⟨hne, members', hsame, hlookup⟩
      cases hsame
      obtain ⟨entry, rest, rfl⟩ := List.exists_cons_of_ne_nil hne
      exact hnone entry rest hlookup
  | _ => simp [rawCases]

theorem decoded_ok_iff {text : Text} {raw : Value} :
    source.decoded py text = .ok raw ↔ Json.loads py.limits text = .ok raw := by
  unfold decoded
  cases Json.loads py.limits text with
  | ok value => simp
  | error failure => cases failure <;> simp

/-- Exactly a JSON object with a list of cases is loaded, each entry valid, under an id of its own
and with a diff file that can be read: in order, each with the text of that file. -/
theorem load_golden_dataset_iff (py : Interpreter) (source : DatasetSource)
    (cases : List GoldenCase) : source.loadGoldenDataset py = .ok cases ↔
      (cases.map GoldenCase.caseId).Nodup ∧ ∃ entries, entries ≠ [] ∧ source.Lists py entries ∧
        List.Forall₂ source.CaseOf entries cases := by
  unfold loadGoldenDataset Lists
  cases htext : source.text with
  | none => simp
  | some read =>
    cases read with
    | error e => simp
    | ok text =>
      simp only [bind, Except.bind]
      constructor
      · intro h
        cases hraw : source.decoded py text with
        | error e => simp [hraw] at h
        | ok raw =>
          cases hentries : source.rawCases raw with
          | error e => simp [hraw, hentries] at h
          | ok entries =>
            simp only [hraw, hentries] at h
            obtain ⟨hall, hnodup, -⟩ := loadCases_ok_iff.mp h
            obtain ⟨hne, members, rfl, hlookup⟩ := rawCases_ok_iff.mp hentries
            exact ⟨hnodup, entries, hne, ⟨text, members, rfl, decoded_ok_iff.mp hraw, hlookup⟩, hall⟩
      · rintro ⟨hnodup, entries, hne, ⟨text', members, hsame, hloads, hlookup⟩, hall⟩
        cases hsame
        have hraw : source.decoded py text = .ok (.object members) := decoded_ok_iff.mpr hloads
        have hentries : source.rawCases (.object members) = .ok entries :=
          rawCases_ok_iff.mpr ⟨hne, members, rfl, hlookup⟩
        simp only [hraw, hentries]
        exact loadCases_ok_iff.mpr ⟨hall, hnodup, fun case _ => List.not_mem_nil⟩

/-- Files that are there can be read. -/
structure Readable (source : DatasetSource) : Prop where
  dataset : ∀ e, source.text ≠ some (.error e)
  diff : ∀ path e, source.diffText path ≠ some (.error e)

end DatasetSource

end ReviewAgent
