import Mathlib.Tactic.ByContra
import Mathlib.Tactic.Cases
import ReviewAgent.Json.Decoder

/-! What is written at the start of a text, as a relation, and its agreement with the scanner. -/
namespace Json

/-- What is read: a value, or what follows an opening bracket or brace up to its end. -/
inductive Part where
  | value | items | members

def Value.consItem (item : Value) : Value → Value
  | .array items => .array (item :: items)
  | v => v

def Value.consMember (key : Text) (value : Value) : Value → Value
  | .object members => .object ((key, value) :: members)
  | v => v

/-- A text begins with a value, followed by the rest; or it begins with so much of one that the
limit on integers or on nesting is passed. Items are read as an array, members as an object. -/
inductive Reads (limits : Limits) :
    ℕ → Part → Text → Except Failure (Value × Text) → Prop
  | scalar {depth text outcome} (h : scanScalar limits text = outcome)
      (hne : outcome ≠ .error .syntaxError) : Reads limits depth .value text outcome
  | deepArray {rest} : Reads limits 0 .value (openBracket :: rest) (.error .nestedTooDeep)
  | emptyArray {depth rest rest'} (h : skipSpace rest = closeBracket :: rest') :
      Reads limits (depth + 1) .value (openBracket :: rest) (.ok (.array [], rest'))
  | array {depth rest outcome} (h : (skipSpace rest).head? ≠ some closeBracket)
      (hitems : Reads limits depth .items (skipSpace rest) outcome) :
      Reads limits (depth + 1) .value (openBracket :: rest) outcome
  | deepObject {rest} : Reads limits 0 .value (openBrace :: rest) (.error .nestedTooDeep)
  | emptyObject {depth rest rest'} (h : skipSpace rest = closeBrace :: rest') :
      Reads limits (depth + 1) .value (openBrace :: rest) (.ok (.object [], rest'))
  | object {depth rest outcome} (h : (skipSpace rest).head? ≠ some closeBrace)
      (hmembers : Reads limits depth .members (skipSpace rest) outcome) :
      Reads limits (depth + 1) .value (openBrace :: rest) outcome
  | itemFails {depth text failure} (hitem : Reads limits depth .value text (.error failure)) :
      Reads limits depth .items text (.error failure)
  | lastItem {depth text item rest rest'} (hitem : Reads limits depth .value text (.ok (item, rest)))
      (h : skipSpace rest = closeBracket :: rest') :
      Reads limits depth .items text (.ok (.array [item], rest'))
  | nextItem {depth text item rest rest' outcome}
      (hitem : Reads limits depth .value text (.ok (item, rest)))
      (h : skipSpace rest = comma :: rest')
      (hitems : Reads limits depth .items (skipSpace rest') outcome) :
      Reads limits depth .items text (outcome.map fun r => (item.consItem r.1, r.2))
  | memberFails {depth text key valueText failure} (hkey : scanKey text = .ok (key, valueText))
      (hvalue : Reads limits depth .value valueText (.error failure)) :
      Reads limits depth .members text (.error failure)
  | lastMember {depth text key valueText value rest rest'}
      (hkey : scanKey text = .ok (key, valueText))
      (hvalue : Reads limits depth .value valueText (.ok (value, rest)))
      (h : skipSpace rest = closeBrace :: rest') :
      Reads limits depth .members text (.ok (.object [(key, value)], rest'))
  | nextMember {depth text key valueText value rest rest' outcome}
      (hkey : scanKey text = .ok (key, valueText))
      (hvalue : Reads limits depth .value valueText (.ok (value, rest)))
      (h : skipSpace rest = comma :: rest')
      (hmembers : Reads limits depth .members (skipSpace rest') outcome) :
      Reads limits depth .members text (outcome.map fun r => (.consMember key value r.1, r.2))

variable {limits : Limits} {depth : ℕ} {part : Part} {text rest : Text} {value : Value}
  {outcome : Except Failure (Value × Text)}

/-- The characters that constants begin with. -/
def keywordStarts : List CodePoint := [0x6E, 0x74, 0x66, 0x4E, 0x49, minus]

theorem keyword?_eq_none {c : CodePoint} (h : c ∉ keywordStarts) : keyword? (c :: rest) = none := by
  simp only [keywordStarts, List.mem_cons, not_or] at h
  obtain ⟨hn, ht, hf, hN, hI, hminus, -⟩ := h
  simp [keyword?, keywords, points, Ne.symm hn, Ne.symm ht, Ne.symm hf, Ne.symm hN, Ne.symm hI,
    Ne.symm hminus]

theorem matchNumber_eq_none {c : CodePoint} (hminus : c ≠ minus) (hdigit : isDigit c = false) :
    matchNumber (c :: rest) = none := by
  have hzero : c ≠ zero := by
    rintro rfl
    cases hdigit
  simp [matchNumber, integerPart?, hminus, hzero, hdigit]

theorem scanScalar_eq_error {c : CodePoint} (hquote : c ≠ quote) (hkeyword : c ∉ keywordStarts)
    (hdigit : isDigit c = false) : scanScalar limits (c :: rest) = .error .syntaxError := by
  have hminus : c ≠ minus := by
    rintro rfl
    exact hkeyword (by decide)
  rw [scanScalar, if_neg (by simpa using hquote), keyword?_eq_none hkeyword,
    matchNumber_eq_none hminus hdigit]

theorem scanScalar_openBracket : scanScalar limits (openBracket :: rest) = .error .syntaxError :=
  scanScalar_eq_error (by decide) (by decide) (by decide)

theorem scanScalar_openBrace : scanScalar limits (openBrace :: rest) = .error .syntaxError :=
  scanScalar_eq_error (by decide) (by decide) (by decide)

theorem scanScalar_nil : scanScalar limits [] = .error .syntaxError := by
  simp [scanScalar, keyword?, keywords, points, matchNumber]

/-- Text that begins with neither bracket is scanned as a scalar. -/
theorem scanOnce_scalar (h : text.head? ≠ some openBracket) (h' : text.head? ≠ some openBrace) :
    scanOnce limits depth text = scanScalar limits text := by
  unfold scanOnce
  split <;> simp_all

theorem scanOnce_array (h : (skipSpace rest).head? ≠ some closeBracket) :
    scanOnce limits (depth + 1) (openBracket :: rest) =
      (scanItems (scanOnce limits depth) ((skipSpace rest).length + 1) (skipSpace rest)).map
        fun r => (.array r.1, r.2) := by
  rw [scanOnce]
  split
  · simp_all
  · rfl

theorem scanOnce_object (h : (skipSpace rest).head? ≠ some closeBrace) :
    scanOnce limits (depth + 1) (openBrace :: rest) =
      (scanMembers (scanOnce limits depth) ((skipSpace rest).length + 1) (skipSpace rest)).map
        fun r => (.object r.1, r.2) := by
  rw [scanOnce]
  split
  · simp_all
  · rfl

theorem map_eq_error {α β : Type} {r : Except Failure α} {f : α → β} {failure : Failure} :
    r.map f = .error failure ↔ r = .error failure := by
  cases r <;> simp [Except.map]

theorem map_eq_ok {α β : Type} {r : Except Failure α} {f : α → β} {b : β} :
    r.map f = .ok b ↔ ∃ a, r = .ok a ∧ f a = b := by
  cases r <;> simp [Except.map]

theorem scanUnits_error {failure : Failure} (h : scanUnits text = .error failure) :
    failure = .syntaxError := by
  fun_induction scanUnits text generalizing failure <;> simp_all [map_eq_error]

theorem scanString_error {failure : Failure} (h : scanString text = .error failure) :
    failure = .syntaxError := by
  unfold scanString at h
  cases hunits : scanUnits text with
  | error failure' =>
    rw [hunits] at h
    obtain rfl := Except.error.inj h
    exact scanUnits_error hunits
  | ok r => simp [hunits, Except.map] at h

/-- A key that is not read is a syntax error. -/
theorem scanKey_error {failure : Failure} (h : scanKey text = .error failure) :
    failure = .syntaxError := by
  unfold scanKey at h
  split at h
  · rename_i rest
    cases hs : scanString rest with
    | error failure' =>
      rw [hs] at h
      obtain rfl := Except.error.inj h
      exact scanString_error hs
    | ok r =>
      rw [hs] at h
      simp only [bind, Except.bind] at h
      split at h
      · cases h
      · exact (Except.error.inj h).symm
  · exact (Except.error.inj h).symm

/-- Whatever one value is scanned as is written there, if it is for each value inside. -/
theorem reads_items {scan : Text → Except Failure (Value × Text)}
    (hscan : ∀ text outcome, scan text = outcome → outcome ≠ .error .syntaxError →
      Reads limits depth .value text outcome) {fuel : ℕ}
    {outcome : Except Failure (List Value × Text)} (h : scanItems scan fuel text = outcome)
    (hne : outcome ≠ .error .syntaxError) :
    Reads limits depth .items text (outcome.map fun r => (.array r.1, r.2)) := by
  induction fuel generalizing text outcome with
  | zero => exact absurd h.symm hne
  | succ fuel ih =>
    rw [scanItems] at h
    cases hitem : scan text with
    | error failure =>
      rw [hitem] at h
      change .error failure = outcome at h
      subst h
      exact .itemFails (hscan _ _ hitem (by simpa using hne))
    | ok r =>
      obtain ⟨item, rest⟩ := r
      have hread := hscan _ _ hitem (by simp)
      rw [hitem] at h
      simp only [bind, Except.bind] at h
      split at h
      · rename_i rest' hspace
        obtain rfl := h
        exact .lastItem hread hspace
      · rename_i rest' hspace
        cases hitems : scanItems scan fuel (skipSpace rest') with
        | error failure =>
          rw [hitems] at h
          obtain rfl := h
          exact .nextItem hread hspace (ih hitems hne)
        | ok r' =>
          rw [hitems] at h
          obtain rfl := h
          exact .nextItem hread hspace (ih hitems (by simp))
      · exact absurd h.symm hne

theorem reads_members {scan : Text → Except Failure (Value × Text)}
    (hscan : ∀ text outcome, scan text = outcome → outcome ≠ .error .syntaxError →
      Reads limits depth .value text outcome) {fuel : ℕ}
    {outcome : Except Failure (List (Text × Value) × Text)}
    (h : scanMembers scan fuel text = outcome) (hne : outcome ≠ .error .syntaxError) :
    Reads limits depth .members text (outcome.map fun r => (.object r.1, r.2)) := by
  induction fuel generalizing text outcome with
  | zero => exact absurd h.symm hne
  | succ fuel ih =>
    rw [scanMembers] at h
    cases hkey : scanKey text with
    | error failure =>
      rw [hkey, scanKey_error hkey] at h
      exact absurd h.symm hne
    | ok k =>
      obtain ⟨key, valueText⟩ := k
      rw [hkey] at h
      simp only [bind, Except.bind] at h
      cases hvalue : scan valueText with
      | error failure =>
        rw [hvalue] at h
        obtain rfl := h
        exact .memberFails hkey (hscan _ _ hvalue (by simpa using hne))
      | ok r =>
        obtain ⟨value, rest⟩ := r
        have hread := hscan _ _ hvalue (by simp)
        rw [hvalue] at h
        simp only at h
        split at h
        · rename_i rest' hspace
          obtain rfl := h
          exact .lastMember hkey hread hspace
        · rename_i rest' hspace
          cases hmembers : scanMembers scan fuel (skipSpace rest') with
          | error failure =>
            rw [hmembers] at h
            obtain rfl := h
            exact .nextMember hkey hread hspace (ih hmembers hne)
          | ok r' =>
            rw [hmembers] at h
            obtain rfl := h
            exact .nextMember hkey hread hspace (ih hmembers (by simp))
        · exact absurd h.symm hne

/-- What the scanner reads is written there. -/
theorem reads_of_scanOnce (h : scanOnce limits depth text = outcome)
    (hne : outcome ≠ .error .syntaxError) : Reads limits depth .value text outcome := by
  induction depth generalizing text outcome with
  | zero =>
    by_cases harray : text.head? = some openBracket
    · obtain ⟨rest, rfl⟩ := List.head?_eq_some_iff.mp harray
      exact h ▸ .deepArray
    · by_cases hobject : text.head? = some openBrace
      · obtain ⟨rest, rfl⟩ := List.head?_eq_some_iff.mp hobject
        exact h ▸ .deepObject
      · exact .scalar (scanOnce_scalar harray hobject ▸ h) hne
  | succ depth ih =>
    have hscan : ∀ text outcome, scanOnce limits depth text = outcome →
        outcome ≠ .error .syntaxError → Reads limits depth .value text outcome :=
      fun text outcome h hne => ih h hne
    by_cases harray : text.head? = some openBracket
    · obtain ⟨rest, rfl⟩ := List.head?_eq_some_iff.mp harray
      by_cases hclose : (skipSpace rest).head? = some closeBracket
      · obtain ⟨rest', hrest⟩ := List.head?_eq_some_iff.mp hclose
        simp only [scanOnce, hrest] at h
        exact h ▸ .emptyArray hrest
      · rw [scanOnce_array hclose] at h
        refine h ▸ .array hclose (reads_items hscan rfl ?_)
        rintro herror
        rw [herror] at h
        exact hne h.symm
    · by_cases hobject : text.head? = some openBrace
      · obtain ⟨rest, rfl⟩ := List.head?_eq_some_iff.mp hobject
        by_cases hclose : (skipSpace rest).head? = some closeBrace
        · obtain ⟨rest', hrest⟩ := List.head?_eq_some_iff.mp hclose
          simp only [scanOnce, hrest] at h
          exact h ▸ .emptyObject hrest
        · rw [scanOnce_object hclose] at h
          refine h ▸ .object hclose (reads_members hscan rfl ?_)
          rintro herror
          rw [herror] at h
          exact hne h.symm
      · exact .scalar (scanOnce_scalar harray hobject ▸ h) hne

theorem length_skipSpace_le (text : Text) : (skipSpace text).length ≤ text.length :=
  (List.dropWhile_suffix _).length_le

theorem scanUnits_length {r : List StringUnit × Text} (h : scanUnits text = .ok r) :
    r.2.length < text.length := by
  fun_induction scanUnits text generalizing r with
  | case1 => cases h
  | case2 rest =>
    obtain rfl := Except.ok.inj h
    simp
  | case3 => cases h
  | case4 a b c d rest e he ih =>
    obtain ⟨r', hr', rfl⟩ := map_eq_ok.mp h
    have := ih hr'
    simp only [List.length_cons]
    omega
  | case5 => cases h
  | case6 e rest hne c hc ih =>
    obtain ⟨r', hr', rfl⟩ := map_eq_ok.mp h
    have := ih hr'
    simp only [List.length_cons]
    omega
  | case7 => cases h
  | case8 c rest _ _ _ _ ih =>
    obtain ⟨r', hr', rfl⟩ := map_eq_ok.mp h
    have := ih hr'
    simp only [List.length_cons]
    omega

theorem scanString_length {r : Text × Text} (h : scanString text = .ok r) :
    r.2.length < text.length := by
  obtain ⟨units, hunits, rfl⟩ := map_eq_ok.mp h
  exact scanUnits_length hunits

theorem integerPart?_length {r : Text × Text} (h : integerPart? text = some r) :
    r.2.length < text.length := by
  cases text with
  | nil => cases h
  | cons c rest =>
    have hdrop := (List.dropWhile_suffix (l := rest) isDigit).length_le
    simp only [integerPart?] at h
    split at h
    · obtain rfl := Option.some.inj h
      simp
    · split at h
      · obtain rfl := Option.some.inj h
        simp only [List.length_cons]
        omega
      · cases h

theorem fractionPart_length (text : Text) : (fractionPart text).2.length ≤ text.length := by
  fun_cases fractionPart text with
  | case1 d rest h =>
    have hdrop := (List.dropWhile_suffix (l := rest) isDigit).length_le
    simp
    omega
  | case2 d rest h => simp
  | case3 => simp

theorem signPart_length (text : Text) : (signPart text).2.length ≤ text.length := by
  fun_cases signPart text <;> simp

theorem exponentPart_length (text : Text) : (exponentPart text).2.length ≤ text.length := by
  cases text with
  | nil => simp [exponentPart]
  | cons e rest =>
    have hsign := signPart_length rest
    have hdrop := (List.dropWhile_suffix (l := (signPart rest).2) isDigit).length_le
    simp only [exponentPart]
    split
    · split
      · simp
      · simp only [List.length_cons]
        omega
    · simp

theorem finishNumber_length (negative : Bool) (digits rest : Text) :
    (finishNumber negative digits rest).2.length ≤ rest.length := by
  have hfraction := fractionPart_length rest
  have hexponent := exponentPart_length (fractionPart rest).2
  simp only [finishNumber]
  split <;> exact Nat.le_trans hexponent hfraction

theorem matchNumber_length {r : Number × Text} (h : matchNumber text = some r) :
    r.2.length < text.length := by
  cases text with
  | nil => cases h
  | cons c rest =>
    simp only [matchNumber] at h
    split at h <;> obtain ⟨⟨digits, rest'⟩, hdigits, rfl⟩ := Option.map_eq_some_iff.mp h
    · have hinteger := integerPart?_length hdigits
      have hfinish := finishNumber_length true digits rest'
      exact Nat.lt_of_le_of_lt hfinish (Nat.lt_succ_of_lt hinteger)
    · have hinteger := integerPart?_length hdigits
      have hfinish := finishNumber_length false digits rest'
      exact Nat.lt_of_le_of_lt hfinish hinteger

theorem keyword?_length {r : Value × Text} (h : keyword? text = some r) :
    r.2.length < text.length := by
  obtain ⟨keyword, hfind, rfl⟩ := Option.map_eq_some_iff.mp h
  have hlt : ∀ keyword ∈ keywords, 0 < keyword.1.length := by
    simp [keywords, points]
  have hprefix : keyword.1.isPrefixOf text = true := by simpa using List.find?_some hfind
  have hle := (List.isPrefixOf_iff_prefix.mp hprefix).length_le
  have hpos := hlt _ (List.mem_of_find?_eq_some hfind)
  simp only [List.length_drop]
  omega

theorem scanScalar_length {r : Value × Text} (h : scanScalar limits text = .ok r) :
    r.2.length < text.length := by
  unfold scanScalar at h
  split at h
  · rename_i hquote
    obtain ⟨rest, rfl⟩ := List.head?_eq_some_iff.mp hquote
    obtain ⟨s, hs, rfl⟩ := map_eq_ok.mp h
    exact Nat.lt_of_lt_of_le (scanString_length hs) (by simp)
  · split at h
    · rename_i r' hkeyword
      obtain rfl := Except.ok.inj h
      exact keyword?_length hkeyword
    · split at h
      · cases h
      · rename_i literal rest hnumber
        obtain rfl := Except.ok.inj h
        exact matchNumber_length hnumber
      · rename_i negative digits rest hnumber
        split at h
        · cases h
        · obtain rfl := Except.ok.inj h
          exact matchNumber_length hnumber

theorem scanKey_cases {key valueText : Text} (h : scanKey text = .ok (key, valueText)) :
    ∃ rest rest' rest'', text = quote :: rest ∧ scanString rest = .ok (key, rest') ∧
      skipSpace rest' = colon :: rest'' ∧ valueText = skipSpace rest'' := by
  unfold scanKey at h
  split at h
  · rename_i rest
    cases hs : scanString rest with
    | error failure =>
      rw [hs] at h
      cases h
    | ok r' =>
      obtain ⟨key, rest'⟩ := r'
      rw [hs] at h
      simp only [bind, Except.bind] at h
      split at h
      · rename_i rest'' hcolon
        obtain ⟨rfl, rfl⟩ := Prod.mk.inj (Except.ok.inj h)
        exact ⟨rest, rest', rest'', rfl, hs, hcolon, rfl⟩
      · cases h
  · cases h

theorem scanKey_length {key valueText : Text} (h : scanKey text = .ok (key, valueText)) :
    valueText.length < text.length := by
  obtain ⟨rest, rest', rest'', rfl, hs, hcolon, rfl⟩ := scanKey_cases h
  have hlen := scanString_length hs
  have hspace := length_skipSpace_le rest'
  have hspace' := length_skipSpace_le rest''
  simp only [hcolon, List.length_cons] at hspace hlen ⊢
  omega

/-- Something is read. -/
theorem Reads.length_lt (h : Reads limits depth part text (.ok (value, rest))) :
    rest.length < text.length := by
  generalize houtcome : Except.ok (value, rest) = outcome at h
  induction h generalizing value rest with
  | scalar h hne => exact scanScalar_length (h.trans houtcome.symm)
  | deepArray => cases houtcome
  | @emptyArray depth rest₀ rest' h =>
    have hspace := length_skipSpace_le rest₀
    obtain ⟨-, rfl⟩ := Prod.mk.inj (Except.ok.inj houtcome)
    simp only [h, List.length_cons] at hspace ⊢
    omega
  | @array depth rest₀ outcome h hitems ih =>
    have hspace := length_skipSpace_le rest₀
    have hlt := ih houtcome
    simp only [List.length_cons]
    omega
  | deepObject => cases houtcome
  | @emptyObject depth rest₀ rest' h =>
    have hspace := length_skipSpace_le rest₀
    obtain ⟨-, rfl⟩ := Prod.mk.inj (Except.ok.inj houtcome)
    simp only [h, List.length_cons] at hspace ⊢
    omega
  | @object depth rest₀ outcome h hmembers ih =>
    have hspace := length_skipSpace_le rest₀
    have hlt := ih houtcome
    simp only [List.length_cons]
    omega
  | itemFails hitem ih => cases houtcome
  | @lastItem depth text item rest₀ rest' hitem h ih =>
    have hspace := length_skipSpace_le rest₀
    have hlt := ih rfl
    obtain ⟨-, rfl⟩ := Prod.mk.inj (Except.ok.inj houtcome)
    simp only [h, List.length_cons] at hspace
    omega
  | @nextItem depth text item rest₀ rest' outcome hitem h hitems ih ih' =>
    have hspace := length_skipSpace_le rest₀
    have hspace' := length_skipSpace_le rest'
    have hlt := ih rfl
    obtain ⟨⟨items, rest''⟩, rfl, hr⟩ := map_eq_ok.mp houtcome.symm
    obtain ⟨-, rfl⟩ := Prod.mk.inj hr
    have hlt' := ih' rfl
    simp only [h, List.length_cons] at hspace ⊢
    omega
  | memberFails hkey hvalue ih => cases houtcome
  | @lastMember depth text key valueText value rest₀ rest' hkey hvalue h ih =>
    have hspace := length_skipSpace_le rest₀
    have hkeylt := scanKey_length hkey
    have hlt := ih rfl
    obtain ⟨-, rfl⟩ := Prod.mk.inj (Except.ok.inj houtcome)
    simp only [h, List.length_cons] at hspace
    omega
  | @nextMember depth text key valueText value rest₀ rest' outcome hkey hvalue h hmembers ih ih' =>
    have hspace := length_skipSpace_le rest₀
    have hspace' := length_skipSpace_le rest'
    have hkeylt := scanKey_length hkey
    have hlt := ih rfl
    obtain ⟨⟨members, rest''⟩, rfl, hr⟩ := map_eq_ok.mp houtcome.symm
    obtain ⟨-, rfl⟩ := Prod.mk.inj hr
    have hlt' := ih' rfl
    simp only [h, List.length_cons] at hspace ⊢
    omega

/-- How a part is scanned. -/
def scanPart (limits : Limits) (depth : ℕ) (part : Part) (fuel : ℕ) (text : Text) :
    Except Failure (Value × Text) :=
  match part with
  | .value => scanOnce limits depth text
  | .items => (scanItems (scanOnce limits depth) fuel text).map fun r => (.array r.1, r.2)
  | .members => (scanMembers (scanOnce limits depth) fuel text).map fun r => (.object r.1, r.2)

/-- What is written is what the scanner reads, given fuel for every character. -/
theorem Reads.scanPart_eq (h : Reads limits depth part text outcome) {fuel : ℕ}
    (hfuel : text.length < fuel) : scanPart limits depth part fuel text = outcome := by
  induction h generalizing fuel with
  | @scalar depth text outcome h hne =>
    refine (scanOnce_scalar ?_ ?_).trans h
    · intro hbracket
      obtain ⟨rest, rfl⟩ := List.head?_eq_some_iff.mp hbracket
      exact hne (h.symm.trans scanScalar_openBracket)
    · intro hbrace
      obtain ⟨rest, rfl⟩ := List.head?_eq_some_iff.mp hbrace
      exact hne (h.symm.trans scanScalar_openBrace)
  | deepArray => rfl
  | emptyArray h => simp only [scanPart, scanOnce, h]
  | @array depth rest outcome h hitems ih =>
    exact (scanOnce_array h).trans (ih (by omega))
  | deepObject => rfl
  | emptyObject h => simp only [scanPart, scanOnce, h]
  | @object depth rest outcome h hmembers ih =>
    exact (scanOnce_object h).trans (ih (by omega))
  | @itemFails depth text failure hitem ih =>
    obtain ⟨fuel, rfl⟩ := Nat.exists_eq_add_of_lt hfuel
    have hscan : scanOnce limits depth text = .error failure := ih hfuel
    simp only [scanPart, scanItems, hscan]
    rfl
  | @lastItem depth text item rest rest' hitem h ih =>
    obtain ⟨fuel, rfl⟩ := Nat.exists_eq_add_of_lt hfuel
    have hscan : scanOnce limits depth text = .ok (item, rest) := ih hfuel
    simp only [scanPart, scanItems, hscan, bind, Except.bind, h]
    rfl
  | @nextItem depth text item rest rest' outcome hitem h hitems ih ih' =>
    obtain ⟨fuel, rfl⟩ := Nat.exists_eq_add_of_lt hfuel
    have hscan : scanOnce limits depth text = .ok (item, rest) := ih hfuel
    have hlt := hitem.length_lt
    have hspace := length_skipSpace_le rest
    have hspace' := length_skipSpace_le rest'
    simp only [h, List.length_cons] at hspace
    have hrest := @ih' (text.length + fuel) (by omega)
    simp only [scanPart] at hrest ⊢
    simp only [scanItems, hscan, bind, Except.bind, h, ← hrest]
    cases scanItems (scanOnce limits depth) (text.length + fuel) (skipSpace rest') <;> rfl
  | @memberFails depth text key valueText failure hkey hvalue ih =>
    obtain ⟨fuel, rfl⟩ := Nat.exists_eq_add_of_lt hfuel
    have hscan : scanOnce limits depth valueText = .error failure := ih (Nat.lt_succ_self _)
    simp only [scanPart, scanMembers, hkey, bind, Except.bind, hscan]
    rfl
  | @lastMember depth text key valueText value rest rest' hkey hvalue h ih =>
    obtain ⟨fuel, rfl⟩ := Nat.exists_eq_add_of_lt hfuel
    have hscan : scanOnce limits depth valueText = .ok (value, rest) := ih (Nat.lt_succ_self _)
    simp only [scanPart, scanMembers, hkey, bind, Except.bind, hscan, h]
    rfl
  | @nextMember depth text key valueText value rest rest' outcome hkey hvalue h hmembers ih ih' =>
    obtain ⟨fuel, rfl⟩ := Nat.exists_eq_add_of_lt hfuel
    have hscan : scanOnce limits depth valueText = .ok (value, rest) := ih (Nat.lt_succ_self _)
    have hkeylt := scanKey_length hkey
    have hlt := hvalue.length_lt
    have hspace := length_skipSpace_le rest
    have hspace' := length_skipSpace_le rest'
    simp only [h, List.length_cons] at hspace
    have hrest := @ih' (text.length + fuel) (by omega)
    simp only [scanPart] at hrest ⊢
    simp only [scanMembers, hkey, hscan, bind, Except.bind, h, ← hrest]
    cases scanMembers (scanOnce limits depth) (text.length + fuel) (skipSpace rest') <;> rfl

/-- Items are read as an array, members as an object. -/
theorem Reads.part_shape (h : Reads limits depth part text (.ok (value, rest))) :
    (part = .items → ∃ items, value = .array items) ∧
      (part = .members → ∃ members, value = .object members) := by
  generalize houtcome : Except.ok (value, rest) = outcome at h
  induction h generalizing value rest with
  | lastItem =>
    obtain ⟨rfl, -⟩ := Prod.mk.inj (Except.ok.inj houtcome)
    exact ⟨fun _ => ⟨_, rfl⟩, by simp⟩
  | nextItem _ _ _ _ ih' =>
    obtain ⟨⟨v, rest'⟩, rfl, hr⟩ := map_eq_ok.mp houtcome.symm
    obtain ⟨rfl, -⟩ := Prod.mk.inj hr
    obtain ⟨items, rfl⟩ := (ih' rfl).1 rfl
    exact ⟨fun _ => ⟨_, rfl⟩, by simp⟩
  | lastMember =>
    obtain ⟨rfl, -⟩ := Prod.mk.inj (Except.ok.inj houtcome)
    exact ⟨by simp, fun _ => ⟨_, rfl⟩⟩
  | nextMember _ _ _ _ _ ih' =>
    obtain ⟨⟨v, rest'⟩, rfl, hr⟩ := map_eq_ok.mp houtcome.symm
    obtain ⟨rfl, -⟩ := Prod.mk.inj hr
    obtain ⟨members, rfl⟩ := (ih' rfl).2 rfl
    exact ⟨by simp, fun _ => ⟨_, rfl⟩⟩
  | itemFails | memberFails => cases houtcome
  | _ => simp

/-- What is read at a bracket or a brace is an array or an object. -/
theorem Reads.ne_null {c : CodePoint} (hc : c = openBrace ∨ c = openBracket)
    (h : Reads limits depth .value (c :: text) (.ok (value, rest))) : value ≠ .null := by
  rintro rfl
  cases h with
  | scalar hscalar =>
    rcases hc with rfl | rfl
    · rw [scanScalar_openBrace] at hscalar
      cases hscalar
    · rw [scanScalar_openBracket] at hscalar
      cases hscalar
  | array _ hitems =>
    obtain ⟨items, hnull⟩ := hitems.part_shape.1 rfl
    cases hnull
  | object _ hmembers =>
    obtain ⟨members, hnull⟩ := hmembers.part_shape.2 rfl
    cases hnull

theorem scanScalar_shape (h : scanScalar limits text = .ok (value, rest)) :
    (∀ items, value ≠ .array items) ∧ ∀ members, value ≠ .object members := by
  have hkeywords : ∀ keyword ∈ keywords,
      (∀ items, keyword.2 ≠ .array items) ∧ ∀ members, keyword.2 ≠ .object members := by
    simp [keywords]
  unfold scanScalar at h
  split at h
  · obtain ⟨s, -, hs⟩ := map_eq_ok.mp h
    obtain ⟨rfl, -⟩ := Prod.mk.inj hs
    simp
  · split at h
    · rename_i r hkeyword
      obtain rfl := Except.ok.inj h
      obtain ⟨keyword, hfind, hr⟩ := Option.map_eq_some_iff.mp hkeyword
      obtain ⟨rfl, -⟩ := Prod.mk.inj hr
      exact hkeywords keyword (List.mem_of_find?_eq_some hfind)
    · split at h
      · cases h
      · obtain ⟨rfl, -⟩ := Prod.mk.inj (Except.ok.inj h)
        simp
      · split at h
        · cases h
        · obtain ⟨rfl, -⟩ := Prod.mk.inj (Except.ok.inj h)
          simp

/-- Away from brackets and braces no array and no object is read. -/
theorem Reads.scalar_shape (h : Reads limits depth .value text (.ok (value, rest)))
    (hbracket : text.head? ≠ some openBracket) (hbrace : text.head? ≠ some openBrace) :
    (∀ items, value ≠ .array items) ∧ ∀ members, value ≠ .object members := by
  cases h with
  | scalar hscalar => exact scanScalar_shape hscalar
  | emptyArray | array => simp at hbracket
  | emptyObject | object => simp at hbrace

/-- A syntax error is not written. -/
theorem Reads.ne_syntaxError (h : Reads limits depth part text outcome) :
    outcome ≠ .error .syntaxError := by
  induction h with
  | scalar h hne => exact hne
  | array _ _ ih | object _ _ ih => exact ih
  | itemFails _ ih | memberFails _ _ ih => simpa using ih
  | nextItem _ _ _ _ ih' => exact fun herror => ih' (map_eq_error.mp herror)
  | nextMember _ _ _ _ _ ih' => exact fun herror => ih' (map_eq_error.mp herror)
  | _ => simp

/-- The scanner reads exactly what is written. -/
theorem reads_iff (hne : outcome ≠ .error .syntaxError) :
    Reads limits depth .value text outcome ↔ scanOnce limits depth text = outcome :=
  ⟨fun h => h.scanPart_eq (Nat.lt_succ_self _), fun h => reads_of_scanOnce h hne⟩

/-- What a text begins with, from no depth on. -/
abbrev Begins (limits : Limits) (text : Text) (outcome : Except Failure (Value × Text)) : Prop :=
  Reads limits limits.nesting .value text outcome

theorem begins_iff (hne : outcome ≠ .error .syntaxError) :
    Begins limits text outcome ↔ rawDecode limits text = outcome := reads_iff hne

theorem rawDecode_syntaxError_iff :
    rawDecode limits text = .error .syntaxError ↔ ∀ outcome, ¬ Begins limits text outcome := by
  constructor
  · intro h outcome hbegins
    exact hbegins.ne_syntaxError (((begins_iff hbegins.ne_syntaxError).mp hbegins).symm.trans h)
  · intro h
    by_contra hne
    exact h _ ((begins_iff hne).mpr rfl)

theorem decode_eq : decode limits text =
    (rawDecode limits (skipSpace text) >>= fun r =>
      if (skipSpace r.2).isEmpty then .ok r.1 else .error .syntaxError) := rfl

theorem decode_ok_iff : decode limits text = .ok value ↔
    ∃ rest, Begins limits (skipSpace text) (.ok (value, rest)) ∧ skipSpace rest = [] := by
  have hbegins : ∀ rest, Begins limits (skipSpace text) (.ok (value, rest)) ↔
      rawDecode limits (skipSpace text) = .ok (value, rest) := fun rest => begins_iff (by simp)
  simp only [hbegins, decode_eq]
  cases rawDecode limits (skipSpace text) with
  | error failure => simp [bind, Except.bind]
  | ok r =>
    obtain ⟨v, rest⟩ := r
    by_cases hrest : skipSpace rest = []
    · simp [bind, Except.bind, hrest, and_assoc]
    · simp [bind, Except.bind, hrest, and_assoc]

theorem decode_error_iff {failure : Failure} (hne : failure ≠ .syntaxError) :
    decode limits text = .error failure ↔ Begins limits (skipSpace text) (.error failure) := by
  rw [begins_iff (by simpa using hne), decode_eq]
  cases rawDecode limits (skipSpace text) with
  | error failure => simp [bind, Except.bind]
  | ok r => by_cases hrest : skipSpace r.2 = [] <;> simp [bind, Except.bind, hrest, hne.symm]

end Json
