import ReviewAgent.Agents.Truncation

/-! What looking for JSON in a text ends with. -/
namespace ReviewAgent

open Json (Begins Limits Text Value)

/-- The whole text is a JSON document other than `null`. -/
def IsDocument (limits : Limits) (text : Text) : Prop :=
  text.head? ≠ some 0xFEFF ∧ ∃ value rest, Begins limits (Json.skipSpace text) (.ok (value, rest)) ∧
    Json.skipSpace rest = [] ∧ value ≠ .null

/-- Looking for JSON in a text goes beyond the decoder's limits: at its beginning, or, if it is no
document as a whole, at the first bracket at which anything can be read. -/
inductive BeyondLimits (limits : Limits) (text : Text) : Prop
  | whole {failure} (hbom : text.head? ≠ some 0xFEFF)
      (h : Begins limits (Json.skipSpace text) (.error failure))
  | embedded {failure} (hwhole : ¬ IsDocument limits text)
      (h : FirstRead limits text (.error failure))

/-- There is JSON in the text. -/
def HoldsJson (limits : Limits) (text : Text) : Prop :=
  IsDocument limits text ∨ ∃ value rest, FirstRead limits text (.ok (value, rest))

/-- A response within the limits: neither its text nor, where there is no JSON in that, its fenced
block goes beyond them. -/
def WithinLimits (limits : Limits) (text : Text) : Prop :=
  ¬ BeyondLimits limits text ∧ (¬ HoldsJson limits text →
    ∀ block, fenceSearch text = some block → ¬ BeyondLimits limits (strip block))

variable {py : Interpreter} {text : Text} {value : Value}

/-- A document is decoded as a whole, whatever stands in it. -/
theorem loads_of_isDocument (h : IsDocument py.limits text) :
    ∃ value, Json.loads py.limits text = .ok value ∧ value ≠ .null := by
  obtain ⟨hbom, value, rest, hbegins, hrest, hne⟩ := h
  refine ⟨value, ?_, hne⟩
  rw [Json.loads, if_neg hbom]
  exact Json.decode_ok_iff.mpr ⟨rest, hbegins, hrest⟩

/-- What is no document and within the limits at its beginning is left to the scan. -/
theorem payloadOf_scans (hdocument : ¬ IsDocument py.limits text)
    (hlimits : text.head? ≠ some 0xFEFF → ∀ failure,
      ¬ Begins py.limits (Json.skipSpace text) (.error failure)) :
    payloadOf py text = extractEmbeddedJson py text := by
  by_cases hbom : text.head? = some 0xFEFF
  · apply payloadOf_of_syntaxError
    rw [Json.loads, if_pos hbom]
  · have hloads : Json.loads py.limits text = Json.decode py.limits text := by
      rw [Json.loads, if_neg hbom]
    cases hdecode : Json.decode py.limits text with
    | ok value =>
      obtain ⟨rest, hbegins, hrest⟩ := Json.decode_ok_iff.mp hdecode
      by_cases hnull : value = .null
      · exact payloadOf_of_null (hloads.trans (hnull ▸ hdecode))
      · exact absurd ⟨hbom, value, rest, hbegins, hrest, hnull⟩ hdocument
    | error failure =>
      by_cases hmalformed : failure = .syntaxError
      · exact payloadOf_of_syntaxError (hloads.trans (hmalformed ▸ hdecode))
      · exact absurd ((Json.decode_error_iff hmalformed).mp hdecode) (hlimits hbom failure)

/-- What one candidate yields, by what stands in it. -/
theorem payloadOf_cases (py : Interpreter) (text : Text) :
    (BeyondLimits py.limits text ∧ ∃ e, payloadOf py text = .error e) ∨
      (¬ BeyondLimits py.limits text ∧ HoldsJson py.limits text ∧
        ∃ value, payloadOf py text = .ok (some value)) ∨
      (¬ BeyondLimits py.limits text ∧ ¬ HoldsJson py.limits text ∧
        payloadOf py text = .ok none) := by
  by_cases hdocument : IsDocument py.limits text
  · obtain ⟨value, hloads, hne⟩ := loads_of_isDocument hdocument
    refine Or.inr (Or.inl ⟨?_, Or.inl hdocument, value, payloadOf_of_ok hloads hne⟩)
    rintro (⟨hbom, hfailure⟩ | ⟨hwhole, -⟩)
    · rw [Json.loads, if_neg hbom, Json.decode_ok_iff] at hloads
      obtain ⟨rest, hbegins, -⟩ := hloads
      cases ((Json.begins_iff (by simp)).mp hbegins).symm.trans
        ((Json.begins_iff hfailure.ne_syntaxError).mp hfailure)
    · exact hwhole hdocument
  · by_cases hbeginning : text.head? ≠ some 0xFEFF ∧
        ∃ failure, Begins py.limits (Json.skipSpace text) (.error failure)
    · obtain ⟨hbom, failure, hbegins⟩ := hbeginning
      have hne : failure ≠ .syntaxError := by
        rintro rfl
        exact hbegins.ne_syntaxError rfl
      refine Or.inl ⟨.whole hbom hbegins, _, payloadOf_of_error ?_ hne⟩
      rw [Json.loads, if_neg hbom]
      exact (Json.decode_error_iff hne).mpr hbegins
    · have hscans := payloadOf_scans hdocument fun hbom failure hbegins =>
        hbeginning ⟨hbom, failure, hbegins⟩
      have hwithin : (∀ failure, ¬ FirstRead py.limits text (.error failure)) →
          ¬ BeyondLimits py.limits text := by
        rintro hnone (⟨hbom, hfailure⟩ | ⟨-, hfailure⟩)
        · exact hbeginning ⟨hbom, _, hfailure⟩
        · exact hnone _ hfailure
      rcases extractEmbeddedJson_finds py text with ⟨value, rest, hread, hresult⟩ |
          ⟨failure, e, hread, hresult, -⟩ | ⟨hnone, hresult⟩
      · refine Or.inr (Or.inl ⟨hwithin fun failure hfailure => ?_, Or.inr ⟨value, rest, hread⟩,
          value, hscans.trans hresult⟩)
        cases hread.unique hfailure
      · exact Or.inl ⟨.embedded hdocument hread, e, hscans.trans hresult⟩
      · refine Or.inr (Or.inr ⟨hwithin fun failure => hnone _, ?_, hscans.trans hresult⟩)
        rintro (h | ⟨value, rest, h⟩)
        · exact hdocument h
        · exact hnone _ h

end ReviewAgent
