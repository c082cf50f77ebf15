import ReviewAgent.Json.Reads

/-! What a text begins with is unchanged by what is written after it. -/
namespace Json

/-- The characters a number may go on with. -/
def continuesNumber (c : CodePoint) : Bool :=
  isDigit c || c == dot || c == 0x65 || c == 0x45 || c == 0x2B || c == minus

/-- A text that a number before it does not run into. -/
def Apart (tail : Text) : Prop := ∀ c ∈ tail.head?, continuesNumber c = false

variable {limits : Limits} {depth : ℕ} {part : Part} {text rest tail : Text} {value : Value}
  {outcome : Except Failure (Value × Text)}

theorem scanUnits_append {units : List StringUnit} (h : scanUnits text = .ok (units, rest)) :
    scanUnits (text ++ tail) = .ok (units, rest ++ tail) := by
  fun_induction scanUnits text generalizing units rest with
  | case1 => cases h
  | case2 rest =>
    obtain ⟨rfl, rfl⟩ := Prod.mk.inj (Except.ok.inj h)
    rfl
  | case3 => cases h
  | case4 a b c d rest e he ih =>
    obtain ⟨⟨units, rest⟩, hr, hcons⟩ := map_eq_ok.mp h
    obtain ⟨rfl, rfl⟩ := Prod.mk.inj hcons
    simp [scanUnits, he, ih hr, Except.map]
  | case5 => cases h
  | case6 e rest hunicode c hc ih =>
    obtain ⟨⟨units, rest⟩, hr, hcons⟩ := map_eq_ok.mp h
    obtain ⟨rfl, rfl⟩ := Prod.mk.inj hcons
    have he : e ≠ letterU := by
      rintro rfl
      cases hc
    simp [scanUnits, he, hc, ih hr, Except.map]
  | case7 => cases h
  | case8 c rest _ _ _ hcontrol ih =>
    obtain ⟨⟨units, rest⟩, hr, hcons⟩ := map_eq_ok.mp h
    obtain ⟨rfl, rfl⟩ := Prod.mk.inj hcons
    simp_all [scanUnits, Except.map]

theorem scanString_append {s : Text} (h : scanString text = .ok (s, rest)) :
    scanString (text ++ tail) = .ok (s, rest ++ tail) := by
  obtain ⟨⟨units, rest'⟩, hunits, hr⟩ := map_eq_ok.mp h
  obtain ⟨rfl, rfl⟩ := Prod.mk.inj hr
  simp [scanString, scanUnits_append hunits, Except.map]

theorem skipSpace_append {c : CodePoint} (h : skipSpace text = c :: rest) :
    skipSpace (text ++ tail) = c :: rest ++ tail := by
  rw [skipSpace, List.dropWhile_append, ← skipSpace, h]
  rfl

theorem Apart.not_isDigit {c : CodePoint} (h : Apart (c :: tail)) : isDigit c = false := by
  have := h c rfl
  simp only [continuesNumber, Bool.or_eq_false_iff] at this
  exact this.1.1.1.1.1

theorem takeWhile_isDigit_append (ht : Apart tail) (text : Text) :
    (text ++ tail).takeWhile isDigit = text.takeWhile isDigit := by
  induction text with
  | nil =>
    cases tail with
    | nil => rfl
    | cons c tail => simp [ht.not_isDigit]
  | cons c text ih => by_cases hc : isDigit c = true <;> simp [hc, ih]

theorem dropWhile_isDigit_append (ht : Apart tail) (text : Text) :
    (text ++ tail).dropWhile isDigit = text.dropWhile isDigit ++ tail := by
  induction text with
  | nil =>
    cases tail with
    | nil => rfl
    | cons c tail => simp [ht.not_isDigit]
  | cons c text ih => by_cases hc : isDigit c = true <;> simp [hc, ih]

theorem integerPart?_append (ht : Apart tail) {digits : Text}
    (h : integerPart? text = some (digits, rest)) :
    integerPart? (text ++ tail) = some (digits, rest ++ tail) := by
  cases text with
  | nil => cases h
  | cons c text =>
    simp only [integerPart?, List.cons_append] at h ⊢
    by_cases hzero : c = zero
    · simp_all
    · by_cases hdigit : isDigit c = true
      · simp only [hzero, hdigit, if_true, if_false, Option.some.injEq, Prod.mk.injEq] at h ⊢
        rw [takeWhile_isDigit_append ht, dropWhile_isDigit_append ht]
        exact ⟨h.1, by rw [h.2]⟩
      · simp [hzero, hdigit] at h

theorem fractionPart_of_ne {c : CodePoint} (h : c ≠ dot) (text : Text) :
    fractionPart (c :: text) = ([], c :: text) := by
  unfold fractionPart
  split <;> simp_all

theorem fractionPart_nil (ht : Apart tail) : fractionPart tail = ([], tail) := by
  cases tail with
  | nil => rfl
  | cons c tail =>
    apply fractionPart_of_ne
    rintro rfl
    exact absurd (ht dot rfl) (by decide)

theorem fractionPart_append (ht : Apart tail) (text : Text) :
    fractionPart (text ++ tail) = ((fractionPart text).1, (fractionPart text).2 ++ tail) := by
  match text with
  | [] => exact fractionPart_nil ht
  | c :: text =>
    by_cases hdot : c = dot
    · subst hdot
      cases text with
      | nil =>
        cases tail with
        | nil => rfl
        | cons d tail => simp [fractionPart, ht.not_isDigit]
      | cons d text =>
        by_cases hd : isDigit d = true
        · simp [fractionPart, hd, takeWhile_isDigit_append ht, dropWhile_isDigit_append ht]
        · simp [fractionPart, hd]
    · simp [fractionPart_of_ne hdot]

theorem signPart_append (ht : Apart tail) (text : Text) :
    signPart (text ++ tail) = ((signPart text).1, (signPart text).2 ++ tail) := by
  cases text with
  | nil =>
    cases tail with
    | nil => rfl
    | cons c tail =>
      have hc : ¬(c = 0x2B ∨ c = minus) := by
        rintro (rfl | rfl) <;> exact absurd (ht _ rfl) (by decide)
      simp [signPart, hc]
  | cons c text =>
    simp only [signPart, List.cons_append]
    split <;> simp

theorem exponentPart_append (ht : Apart tail) (text : Text) :
    exponentPart (text ++ tail) = ((exponentPart text).1, (exponentPart text).2 ++ tail) := by
  cases text with
  | nil =>
    cases tail with
    | nil => rfl
    | cons c tail =>
      have hc : ¬(c = 0x65 ∨ c = 0x45) := by
        rintro (rfl | rfl) <;> exact absurd (ht _ rfl) (by decide)
      simp [exponentPart, hc]
  | cons e text =>
    simp only [exponentPart, List.cons_append, signPart_append ht, takeWhile_isDigit_append ht,
      dropWhile_isDigit_append ht]
    split
    · split <;> simp
    · simp

theorem finishNumber_append (ht : Apart tail) (negative : Bool) (digits rest : Text) :
    finishNumber negative digits (rest ++ tail) =
      ((finishNumber negative digits rest).1, (finishNumber negative digits rest).2 ++ tail) := by
  simp only [finishNumber, fractionPart_append ht, exponentPart_append ht]
  split <;> rfl

theorem matchNumber_append (ht : Apart tail) {number : Number}
    (h : matchNumber text = some (number, rest)) :
    matchNumber (text ++ tail) = some (number, rest ++ tail) := by
  cases text with
  | nil => cases h
  | cons c text =>
    simp only [matchNumber, List.cons_append] at h ⊢
    split at h
    all_goals
      obtain ⟨⟨digits, rest'⟩, hdigits, hfinish⟩ := Option.map_eq_some_iff.mp h
      have happend := integerPart?_append ht hdigits
      simp_all [finishNumber_append ht]

theorem keyword?_iff : keyword? text = some (value, rest) ↔
    ∃ keyword ∈ keywords, keyword.2 = value ∧ text = keyword.1 ++ rest := by
  constructor
  · intro h
    obtain ⟨keyword, hfind, hr⟩ := Option.map_eq_some_iff.mp h
    obtain ⟨rfl, rfl⟩ := Prod.mk.inj hr
    have hprefix : keyword.1.isPrefixOf text = true := by simpa using List.find?_some hfind
    obtain ⟨rest, rfl⟩ := List.isPrefixOf_iff_prefix.mp hprefix
    exact ⟨keyword, List.mem_of_find?_eq_some hfind, rfl, by simp⟩
  · rintro ⟨keyword, hmem, rfl, rfl⟩
    simp only [keywords, points, List.mem_cons, List.not_mem_nil, or_false] at hmem
    rcases hmem with rfl | rfl | rfl | rfl | rfl | rfl <;> simp [keyword?, keywords, points]

theorem keyword?_append (h : keyword? text = some (value, rest)) :
    keyword? (text ++ tail) = some (value, rest ++ tail) := by
  obtain ⟨keyword, hmem, hvalue, rfl⟩ := keyword?_iff.mp h
  exact keyword?_iff.mpr ⟨keyword, hmem, hvalue, by simp⟩

/-- What begins with a number does not begin with a constant. -/
theorem keyword?_of_matchNumber {r : Number × Text} (h : matchNumber text = some r) :
    keyword? text = none := by
  cases hkeyword : keyword? text with
  | none => rfl
  | some r' =>
    obtain ⟨keyword, hmem, -, rfl⟩ := keyword?_iff.mp hkeyword
    simp only [keywords, points, List.mem_cons, List.not_mem_nil, or_false] at hmem
    rcases hmem with rfl | rfl | rfl | rfl | rfl | rfl <;>
      simp [matchNumber, integerPart?, isDigit, minus, zero] at h

theorem scanScalar_append (ht : Apart tail) (h : scanScalar limits text = outcome)
    (hne : outcome ≠ .error .syntaxError) :
    scanScalar limits (text ++ tail) = outcome.map fun r => (r.1, r.2 ++ tail) := by
  cases text with
  | nil => exact absurd (h.symm.trans scanScalar_nil) hne
  | cons c text =>
    by_cases hquote : c = quote
    · subst hquote
      change (scanString text).map _ = outcome at h
      change (scanString (text ++ tail)).map _ = _
      cases hs : scanString text with
      | error failure =>
        rw [hs, scanString_error hs] at h
        exact absurd h.symm hne
      | ok r =>
        rw [hs] at h
        obtain rfl := h
        rw [scanString_append hs]
        rfl
    · have hhead : ∀ rest : Text, ¬ (c :: rest).head? = some quote := by simp [hquote]
      rw [scanScalar, if_neg (hhead _)] at h
      rw [scanScalar, List.cons_append, if_neg (hhead _), ← List.cons_append]
      cases hkeyword : keyword? (c :: text) with
      | some r =>
        rw [hkeyword] at h
        obtain rfl := h
        rw [keyword?_append hkeyword]
        rfl
      | none =>
        rw [hkeyword] at h
        cases hnumber : matchNumber (c :: text) with
        | none =>
          rw [hnumber] at h
          exact absurd h.symm hne
        | some r =>
          obtain ⟨number, rest⟩ := r
          have happend := matchNumber_append ht hnumber
          rw [hnumber] at h
          rw [keyword?_of_matchNumber happend, happend]
          subst h
          cases number with
          | float literal => rfl
          | int negative digits =>
            simp only
            split <;> rfl

theorem scanKey_append {key valueText : Text} (h : scanKey text = .ok (key, valueText))
    (hvalue : valueText ≠ []) : scanKey (text ++ tail) = .ok (key, valueText ++ tail) := by
  obtain ⟨rest, rest', rest'', rfl, hs, hcolon, rfl⟩ := scanKey_cases h
  cases hspace : skipSpace rest'' with
  | nil => exact absurd hspace hvalue
  | cons c text =>
    simp only [scanKey, List.cons_append, scanString_append hs, bind, Except.bind,
      skipSpace_append hcolon, skipSpace_append hspace]
    rfl

/-- Nothing is written at the start of an empty text. -/
theorem Reads.ne_nil (h : Reads limits depth part text outcome) : text ≠ [] := by
  induction h with
  | scalar h hne =>
    rintro rfl
    exact hne (h.symm.trans scanScalar_nil)
  | itemFails _ ih | lastItem _ _ ih | nextItem _ _ _ ih => exact ih
  | memberFails hkey | lastMember hkey | nextMember hkey =>
    rintro rfl
    cases hkey
  | _ => simp

/-- What is written at the start of a text is still there when the text goes on. -/
theorem Reads.append (h : Reads limits depth part text outcome) (ht : Apart tail) :
    Reads limits depth part (text ++ tail) (outcome.map fun r => (r.1, r.2 ++ tail)) := by
  have hspaced : ∀ text : Text, skipSpace text ≠ [] →
      skipSpace (text ++ tail) = skipSpace text ++ tail := by
    intro text hne
    obtain ⟨c, rest, hspace⟩ := List.exists_cons_of_ne_nil hne
    rw [skipSpace_append hspace, hspace]
  have hhead : ∀ {text : Text} {c : CodePoint}, skipSpace text ≠ [] →
      (skipSpace text).head? ≠ some c → (skipSpace (text ++ tail)).head? ≠ some c := by
    intro text c hne h
    obtain ⟨d, rest, hspace⟩ := List.exists_cons_of_ne_nil hne
    rw [hspaced text hne]
    simpa [hspace] using h
  induction h with
  | scalar h hne =>
    refine .scalar (scanScalar_append ht h hne) ?_
    intro herror
    exact hne (map_eq_error.mp herror)
  | deepArray => exact .deepArray
  | emptyArray h => exact .emptyArray (skipSpace_append h)
  | @array depth rest outcome h hitems ih =>
    exact .array (hhead hitems.ne_nil h) (hspaced rest hitems.ne_nil ▸ ih)
  | deepObject => exact .deepObject
  | emptyObject h => exact .emptyObject (skipSpace_append h)
  | @object depth rest outcome h hmembers ih =>
    exact .object (hhead hmembers.ne_nil h) (hspaced rest hmembers.ne_nil ▸ ih)
  | itemFails hitem ih => exact .itemFails ih
  | lastItem hitem h ih => exact .lastItem ih (skipSpace_append h)
  | @nextItem depth text item rest rest' outcome hitem h hitems ih ih' =>
    have hrest := Reads.nextItem ih (skipSpace_append h) (hspaced rest' hitems.ne_nil ▸ ih')
    cases outcome <;> exact hrest
  | memberFails hkey hvalue ih => exact .memberFails (scanKey_append hkey hvalue.ne_nil) ih
  | lastMember hkey hvalue h ih =>
    exact .lastMember (scanKey_append hkey hvalue.ne_nil) ih (skipSpace_append h)
  | @nextMember depth text key valueText value rest rest' outcome hkey hvalue h hmembers ih ih' =>
    have hrest := Reads.nextMember (scanKey_append hkey hvalue.ne_nil) ih (skipSpace_append h)
      (hspaced rest' hmembers.ne_nil ▸ ih')
    cases outcome <;> exact hrest

end Json
