import ReviewAgent.JsonFields
import ReviewAgent.Models.Findings

/-! Findings as JSON: what a finding is dumped as, and the finding read back. -/
namespace ReviewAgent

open Json (Text Value lookup points)

/-- Coefficient and decimal places of a number as `str` writes a nonnegative `Decimal`. -/
def decimalOf (text : List Char) : Option (ℕ × ℕ) :=
  let (whole, rest) := spanDigits text
  let (fraction, rest) := match rest with
    | '.' :: rest => spanDigits rest
    | rest => ([], rest)
  if whole = [] then none
  else match rest with
    | [] => some (numberOf (whole ++ fraction), fraction.length)
    | 'E' :: '-' :: rest =>
      match spanDigits rest with
      | (exponent, []) =>
        if exponent = [] then none
        else some (numberOf (whole ++ fraction), fraction.length + numberOf exponent)
      | _ => none
    | _ => none

/-- `Decimal(text)`, within the bounds of a confidence. -/
def Confidence.ofStr (text : String) : Option Confidence :=
  match decimalOf text.toList with
  | some (coefficient, scale) =>
    if h : coefficient ≤ 10 ^ scale ∧ 10 ^ scale ∣ coefficient * 1000 then
      some ⟨coefficient, scale, h.1, h.2⟩
    else none
  | none => none

section

variable {digits : List Char} {rest : List Char}

/-- The values of some digit characters. -/
def valuesOf (digits : List Char) : List ℕ := digits.map fun c => c.toNat - '0'.toNat

theorem isDigit_of_mem (n : ℕ) : ∀ c ∈ Nat.toDigits 10 n, c.isDigit = true :=
  fun _ hc => Nat.isDigit_of_mem_toDigits (by decide) (by decide) hc

theorem spanDigits_digits (hdigits : ∀ c ∈ digits, c.isDigit = true) :
    spanDigits digits = (valuesOf digits, []) := by
  have hspan := @spanDigits_append digits hdigits [] (by simp)
  rwa [List.append_nil] at hspan

theorem decimalOf_whole (hdigits : ∀ c ∈ digits, c.isDigit = true) (hne : digits ≠ []) :
    decimalOf digits = some (numberOf (valuesOf digits), 0) := by
  simp [decimalOf, spanDigits_digits hdigits, valuesOf, hne]

theorem decimalOf_point {whole fraction : List Char} (hwhole : ∀ c ∈ whole, c.isDigit = true)
    (hne : whole ≠ []) (hfraction : ∀ c ∈ fraction, c.isDigit = true) :
    decimalOf (whole ++ '.' :: fraction) =
      some (numberOf (valuesOf (whole ++ fraction)), fraction.length) := by
  have hspan : spanDigits (whole ++ '.' :: fraction) = (valuesOf whole, '.' :: fraction) :=
    spanDigits_append hwhole (by simpa using by decide)
  simp [decimalOf, hspan, spanDigits_digits hfraction, valuesOf, hne]

theorem decimalOf_exponent {mantissa : List Char} {whole fraction : List Char} (exponent : ℕ)
    (hmantissa : mantissa = whole ∧ fraction = [] ∨ mantissa = whole ++ '.' :: fraction)
    (hwhole : ∀ c ∈ whole, c.isDigit = true) (hne : whole ≠ [])
    (hfraction : ∀ c ∈ fraction, c.isDigit = true) :
    decimalOf (mantissa ++ 'E' :: '-' :: Nat.toDigits 10 exponent) =
      some (numberOf (valuesOf (whole ++ fraction)), fraction.length + exponent) := by
  have hexponent : spanDigits (Nat.toDigits 10 exponent) = (digitValues exponent, []) := by
    simpa using @spanDigits_toDigits exponent [] (by simp)
  have hmark : decimalDigit? 'E' = none := by decide
  rcases hmantissa with ⟨rfl, rfl⟩ | rfl
  · have hspan : spanDigits (mantissa ++ 'E' :: '-' :: Nat.toDigits 10 exponent) =
        (valuesOf mantissa, 'E' :: '-' :: Nat.toDigits 10 exponent) :=
      spanDigits_append hwhole (by simpa using hmark)
    simp [decimalOf, hspan, hexponent, valuesOf, hne, digitValues_ne_nil, numberOf_digitValues]
  · have hspan : spanDigits (whole ++ '.' :: (fraction ++ 'E' :: '-' :: Nat.toDigits 10 exponent)) =
        (valuesOf whole, '.' :: (fraction ++ 'E' :: '-' :: Nat.toDigits 10 exponent)) :=
      spanDigits_append hwhole (by simpa using by decide)
    have hspan' : spanDigits (fraction ++ 'E' :: '-' :: Nat.toDigits 10 exponent) =
        (valuesOf fraction, 'E' :: '-' :: Nat.toDigits 10 exponent) :=
      spanDigits_append hfraction (by simpa using hmark)
    rw [List.append_assoc, List.cons_append]
    simp [decimalOf, hspan, hspan', hexponent, valuesOf, hne, digitValues_ne_nil,
      numberOf_digitValues]

/-- Zeros in front do not count. -/
theorem numberOf_zeros (k : ℕ) (values : List ℕ) :
    numberOf (List.replicate k 0 ++ values) = numberOf values := by
  induction k with
  | zero => rfl
  | succ k ih => simpa [numberOf, List.replicate_succ] using ih

/-- Digits with the point moved `scale` places to the left. -/
theorem decimalOf_inside {scale : ℕ} (hdigits : ∀ c ∈ digits, c.isDigit = true)
    (hlong : scale < digits.length) :
    decimalOf (digits.take (digits.length - scale) ++ '.' :: digits.drop (digits.length - scale)) =
      some (numberOf (valuesOf digits), scale) := by
  have htake : digits.take (digits.length - scale) ≠ [] := by
    rw [← List.length_pos_iff, List.length_take]
    omega
  have hpoint := decimalOf_point (fun c hc => hdigits c (List.mem_of_mem_take hc)) htake
    (fun c hc => hdigits c (List.mem_of_mem_drop hc) :
      ∀ c ∈ digits.drop (digits.length - scale), _)
  rwa [List.take_append_drop, List.length_drop, Nat.sub_sub_self hlong.le] at hpoint

/-- Digits after the point, with zeros between. -/
theorem decimalOf_after {scale : ℕ} (hdigits : ∀ c ∈ digits, c.isDigit = true)
    (hshort : digits.length ≤ scale) :
    decimalOf ('0' :: '.' :: (List.replicate (scale - digits.length) '0' ++ digits)) =
      some (numberOf (valuesOf digits), scale) := by
  have hfraction : ∀ c ∈ List.replicate (scale - digits.length) '0' ++ digits,
      c.isDigit = true := by
    intro c hc
    rcases List.mem_append.mp hc with hzero | hdigit
    · rw [List.eq_of_mem_replicate hzero]
      decide
    · exact hdigits c hdigit
  have hzero : ∀ c ∈ ['0'], c.isDigit = true := fun c hc => by rw [List.mem_singleton.mp hc]; rfl
  have hpoint := decimalOf_point hzero (by simp) hfraction
  have hvalues : valuesOf (['0'] ++ (List.replicate (scale - digits.length) '0' ++ digits)) =
      List.replicate (scale - digits.length + 1) 0 ++ valuesOf digits := by
    simp [valuesOf, List.replicate_succ]
  rwa [hvalues, numberOf_zeros, List.length_append, List.length_replicate,
    Nat.sub_add_cancel hshort] at hpoint

/-- Digits with the point after the first, if there are more, and an exponent. -/
theorem decimalOf_scientific (hdigits : ∀ c ∈ digits, c.isDigit = true) (hne : digits ≠ [])
    (exponent : ℕ) :
    decimalOf ((match digits with
        | d :: e :: rest => String.ofList (d :: '.' :: e :: rest)
        | ds => String.ofList ds).toList ++ 'E' :: '-' :: Nat.toDigits 10 exponent) =
      some (numberOf (valuesOf digits), digits.length - 1 + exponent) := by
  cases digits with
  | nil => exact absurd rfl hne
  | cons d rest =>
    cases rest with
    | nil => simpa using decimalOf_exponent exponent (Or.inl ⟨rfl, rfl⟩) hdigits hne (by simp)
    | cons e rest =>
      rw [List.forall_mem_cons] at hdigits
      simpa using decimalOf_exponent exponent (Or.inr rfl)
        (by simpa using hdigits.1 : ∀ c ∈ [d], c.isDigit = true) (by simp) hdigits.2

end

/-- A decimal is read back as it is written. -/
theorem decimalOf_decimalStr (coefficient scale : ℕ) :
    decimalOf (decimalStr coefficient scale).toList = some (coefficient, scale) := by
  have hdigits := isDigit_of_mem coefficient
  have hne : Nat.toDigits 10 coefficient ≠ [] := Nat.toDigits_ne_nil
  have hpos := List.length_pos_iff.mpr hne
  have hnumber : numberOf (valuesOf (Nat.toDigits 10 coefficient)) = coefficient :=
    numberOf_digitValues coefficient
  have hlength : (Nat.repr coefficient).length = (Nat.toDigits 10 coefficient).length := by
    rw [← String.length_toList, Nat.toList_repr]
  simp only [decimalStr, Nat.toString_eq_repr, Nat.toList_repr, hlength]
  split
  · rename_i hscale
    rw [Nat.toList_repr, decimalOf_whole hdigits hne, hnumber, hscale]
  · split
    · rename_i hlong
      simpa [hnumber] using decimalOf_inside hdigits hlong
    · split
      · rename_i hlong hshort
        simpa [hnumber] using decimalOf_after hdigits (not_lt.mp hlong)
      · rename_i hlong hshort
        have hscientific := decimalOf_scientific hdigits hne
          (scale + 1 - (Nat.toDigits 10 coefficient).length)
        rw [hnumber] at hscientific
        rw [String.toList_append, String.toList_append, Nat.toList_repr]
        refine hscientific.trans ?_
        congr 2
        omega

theorem Confidence.ofStr_str (c : Confidence) : ofStr c.str = some c := by
  simp only [ofStr, str, decimalOf_decimalStr]
  rw [dif_pos ⟨c.le_one, c.three_places⟩]

def AgentType.all : List AgentType := [.security, .quality, .tests, .docs]

def Severity.all : List Severity := [.critical, .high, .medium, .low, .info]

/-- The fields of a finding, by name. -/
def Finding.members (finding : Finding) : List (Text × Value) :=
  [(points "agent_type", jsonString finding.agentType.value),
    (points "severity", jsonString finding.severity.value),
    (points "category", jsonString finding.category),
    (points "file_path", jsonString finding.filePath),
    (points "line_start", .int finding.lineStart),
    (points "line_end", .int finding.lineEnd),
    (points "confidence", jsonString finding.confidence.str),
    (points "rationale", jsonString finding.rationale)]

/-- `finding.model_dump(mode="json")`. -/
def Finding.modelDump (finding : Finding) : Value := .object finding.members

/-- A required field, as `read` takes it. -/
def findingField {α : Type} (read : Value → Option α) (members : List (Text × Value))
    (field : String) : Except Exc α :=
  match (lookup (points field) members).bind read with
  | some a => .ok a
  | none => .error (validationError "Finding" field)

def intField : Value → Option ℤ
  | .int n => some n
  | _ => none

def agentTypeField (value : Value) : Option AgentType :=
  (strField value).bind fun text => AgentType.all.find? fun agentType => agentType.value = text

def severityField (value : Value) : Option Severity :=
  (strField value).bind fun text => Severity.all.find? fun severity => severity.value = text

def confidenceField (value : Value) : Option Confidence := (strField value).bind Confidence.ofStr

/-- `Finding(**item)`, where the fields have the JSON types that a finding is dumped to. -/
def Finding.ofItem : Value → Except Exc Finding
  | .object members => do
    let agentType ← findingField agentTypeField members "agent_type"
    let severity ← findingField severityField members "severity"
    let category ← findingField strField members "category"
    let filePath ← findingField strField members "file_path"
    let lineStart ← findingField intField members "line_start"
    let lineEnd ← findingField intField members "line_end"
    let confidence ← findingField confidenceField members "confidence"
    let rationale ← findingField strField members "rationale"
    Finding.validate agentType severity category filePath lineStart lineEnd confidence rationale
  | _ => .error (.plain .typeError "argument after ** must be a mapping")

namespace Finding

variable {finding : Finding}

/-- A finding is validated from its own fields. -/
theorem validate_self (finding : Finding) :
    validate finding.agentType finding.severity finding.category finding.filePath
      finding.lineStart finding.lineEnd finding.confidence finding.rationale = .ok finding := by
  have hend : 0 < finding.lineEnd := finding.lineStart_pos.trans_le finding.lineStart_le
  simp [validate, finding.category_length, finding.filePath_length, finding.lineStart_pos,
    finding.lineStart_le, finding.rationale_length, hend]

theorem members_nodup : (finding.members.map Prod.fst).Nodup := by
  have hnames : ["agent_type", "severity", "category", "file_path", "line_start", "line_end",
      "confidence", "rationale"].Nodup := by decide
  exact (List.Nodup.map points_injective hnames :)

theorem findingField_members {α : Type} {read : Value → Option α} {field : String} {value : Value}
    {a : α} (h : (points field, value) ∈ finding.members) (hread : read value = some a) :
    findingField read finding.members field = .ok a := by
  rw [findingField, lookup_of_mem members_nodup h, Option.bind_some, hread]

/-- A dumped finding is read back as it was. -/
theorem ofItem_modelDump (finding : Finding) : ofItem finding.modelDump = .ok finding := by
  have hagentType : agentTypeField (jsonString finding.agentType.value) =
      some finding.agentType := by
    rw [agentTypeField, strField_jsonString]
    cases finding.agentType <;> rfl
  have hseverity : severityField (jsonString finding.severity.value) = some finding.severity := by
    rw [severityField, strField_jsonString]
    cases finding.severity <;> rfl
  have hconfidence : confidenceField (jsonString finding.confidence.str) =
      some finding.confidence := by
    rw [confidenceField, strField_jsonString, Option.bind_some, Confidence.ofStr_str]
  have hcategory := @findingField_members finding _ strField "category" _ _ (by simp [members])
    (strField_jsonString finding.category)
  have hfilePath := @findingField_members finding _ strField "file_path" _ _ (by simp [members])
    (strField_jsonString finding.filePath)
  have hrationale := @findingField_members finding _ strField "rationale" _ _ (by simp [members])
    (strField_jsonString finding.rationale)
  have hlineStart := @findingField_members finding _ intField "line_start" (.int finding.lineStart)
    _ (by simp [members]) rfl
  have hlineEnd := @findingField_members finding _ intField "line_end" (.int finding.lineEnd)
    _ (by simp [members]) rfl
  have hagent := @findingField_members finding _ agentTypeField "agent_type" _ _
    (by simp [members]) hagentType
  have hsev := @findingField_members finding _ severityField "severity" _ _
    (by simp [members]) hseverity
  have hconf := @findingField_members finding _ confidenceField "confidence" _ _
    (by simp [members]) hconfidence
  simp only [modelDump, ofItem, hagent, hsev, hcategory, hfilePath, hlineStart, hlineEnd, hconf,
    hrationale, bind, Except.bind]
  exact validate_self finding

end Finding

end ReviewAgent
