import Mathlib.Data.List.DropRight
import ReviewAgent.Json.Extend

/-! What is read depends on the characters it is read from alone. -/
namespace Json

variable {limits : Limits} {depth : ℕ} {part : Part} {text rest tail : Text} {value : Value}

theorem skipSpace_spaces {spaces : Text} (h : ∀ c ∈ spaces, isSpace c = true) :
    skipSpace (spaces ++ text) = skipSpace text := List.dropWhile_append_of_pos h

/-- A text is the space it begins with, and what that is skipped to. -/
theorem exists_spaces (text : Text) :
    ∃ spaces, text = spaces ++ skipSpace text ∧ ∀ c ∈ spaces, isSpace c = true :=
  ⟨text.takeWhile isSpace, List.takeWhile_append_dropWhile.symm, fun _ h => List.mem_takeWhile_imp h⟩

theorem takeWhile_append_of_head {ds : Text} (hds : ∀ c ∈ ds, isDigit c = true)
    (htail : ∀ c ∈ tail.head?, isDigit c = false) : (ds ++ tail).takeWhile isDigit = ds := by
  rw [List.takeWhile_append_of_pos hds]
  cases tail with
  | nil => simp
  | cons c tail => simp [htail c rfl]

theorem dropWhile_append_of_head {ds : Text} (hds : ∀ c ∈ ds, isDigit c = true)
    (htail : ∀ c ∈ tail.head?, isDigit c = false) : (ds ++ tail).dropWhile isDigit = tail := by
  rw [List.dropWhile_append_of_pos hds]
  cases tail with
  | nil => simp
  | cons c tail => simp [htail c rfl]

theorem digits_takeWhile (text : Text) : ∀ c ∈ text.takeWhile isDigit, isDigit c = true :=
  fun _ h => List.mem_takeWhile_imp h

theorem integerPart?_local {digits : Text} (h : integerPart? text = some (digits, rest)) :
    text = digits ++ rest ∧ ∀ tail, (∀ c ∈ tail.head?, isDigit c = false) →
      integerPart? (digits ++ tail) = some (digits, tail) := by
  cases text with
  | nil => cases h
  | cons c text =>
    simp only [integerPart?] at h
    by_cases hzero : c = zero
    · rw [if_pos hzero] at h
      obtain ⟨rfl, rfl⟩ := Prod.mk.inj (Option.some.inj h)
      exact ⟨by rw [hzero]; rfl, fun _ _ => rfl⟩
    · by_cases hdigit : isDigit c = true
      · rw [if_neg hzero, if_pos hdigit] at h
        obtain ⟨rfl, rfl⟩ := Prod.mk.inj (Option.some.inj h)
        refine ⟨by simp, fun tail htail => ?_⟩
        have htake := takeWhile_append_of_head (digits_takeWhile text) htail
        have hdrop := dropWhile_append_of_head (digits_takeWhile text) htail
        simp only [List.cons_append, integerPart?, hzero, hdigit, if_true, if_false, htake, hdrop]
      · rw [if_neg hzero, if_neg hdigit] at h
        cases h

theorem fractionPart_local (text : Text) : text = (fractionPart text).1 ++ (fractionPart text).2 ∧
    ∀ tail, (∀ c ∈ tail.head?, isDigit c = false ∧ c ≠ dot) →
      fractionPart ((fractionPart text).1 ++ tail) = ((fractionPart text).1, tail) := by
  have hnone : ∀ tail : Text, (∀ c ∈ tail.head?, isDigit c = false ∧ c ≠ dot) →
      fractionPart ([] ++ tail) = ([], tail) := by
    intro tail htail
    cases tail with
    | nil => rfl
    | cons c tail => exact fractionPart_of_ne (htail c rfl).2 tail
  fun_cases fractionPart text with
  | case1 d rest hd =>
    refine ⟨by simp, fun tail htail => ?_⟩
    have hhead : ∀ c ∈ tail.head?, isDigit c = false := fun c hc => (htail c hc).1
    have htake := takeWhile_append_of_head (digits_takeWhile rest) hhead
    have hdrop := dropWhile_append_of_head (digits_takeWhile rest) hhead
    simp [fractionPart, hd, htake, hdrop]
  | case2 d rest hd => exact ⟨rfl, hnone⟩
  | case3 => exact ⟨rfl, hnone⟩

theorem signPart_local (text : Text) : text = (signPart text).1 ++ (signPart text).2 ∧
    ∀ tail : Text, (∀ c ∈ tail.head?, c ≠ 0x2B ∧ c ≠ minus) →
      signPart ((signPart text).1 ++ tail) = ((signPart text).1, tail) := by
  have hnone : ∀ tail : Text, (∀ c ∈ tail.head?, c ≠ 0x2B ∧ c ≠ minus) →
      signPart ([] ++ tail) = ([], tail) := by
    intro tail htail
    cases tail with
    | nil => rfl
    | cons c tail => simp [signPart, (htail c rfl).1, (htail c rfl).2]
  cases text with
  | nil => exact ⟨rfl, hnone⟩
  | cons c text =>
    by_cases hsign : c = 0x2B ∨ c = minus
    · have hpart : signPart (c :: text) = ([c], text) := if_pos hsign
      rw [hpart]
      exact ⟨rfl, fun tail _ => if_pos hsign⟩
    · have hpart : signPart (c :: text) = ([], c :: text) := if_neg hsign
      rw [hpart]
      exact ⟨rfl, hnone⟩

theorem exponentPart_nil (htail : Apart tail) : exponentPart tail = ([], tail) := by
  cases tail with
  | nil => rfl
  | cons c tail =>
    have hc : ¬(c = 0x65 ∨ c = 0x45) := by
      rintro (rfl | rfl) <;> exact absurd (htail _ rfl) (by decide)
    exact if_neg hc

/-- The exponent begins with its letter, if there is one. -/
theorem exponentPart_local (text : Text) : text = (exponentPart text).1 ++ (exponentPart text).2 ∧
    (∀ c ∈ (exponentPart text).1.head?, isDigit c = false ∧ c ≠ dot) ∧
    ∀ tail, Apart tail → exponentPart ((exponentPart text).1 ++ tail) = ((exponentPart text).1, tail) := by
  cases text with
  | nil => exact ⟨rfl, by simp [exponentPart], fun tail => exponentPart_nil⟩
  | cons e text =>
    by_cases hletter : e = 0x65 ∨ e = 0x45
    · obtain ⟨hsigned, hsign⟩ := signPart_local text
      cases hdigits : (signPart text).2.takeWhile isDigit with
      | nil =>
        have hpart : exponentPart (e :: text) = ([], e :: text) := by
          simp [exponentPart, hletter, hdigits]
        rw [hpart]
        exact ⟨rfl, by simp, fun tail => exponentPart_nil⟩
      | cons d ds =>
        have hpart : exponentPart (e :: text) =
            (e :: (signPart text).1 ++ d :: ds, (signPart text).2.dropWhile isDigit) := by
          simp [exponentPart, hletter, hdigits]
        have hall : ∀ c ∈ d :: ds, isDigit c = true := hdigits ▸ digits_takeWhile _
        rw [hpart]
        refine ⟨?_, ?_, fun tail htail => ?_⟩
        · show e :: text = e :: (signPart text).1 ++ d :: ds ++ _
          rw [List.append_assoc, ← hdigits, List.takeWhile_append_dropWhile, List.cons_append,
            ← hsigned]
        · intro c hc
          obtain rfl : e = c := Option.some.inj hc
          rcases hletter with rfl | rfl <;> decide
        · have hd := hall d List.mem_cons_self
          have hunsigned : ∀ c ∈ (d :: ds ++ tail).head?, c ≠ 0x2B ∧ c ≠ minus := by
            intro c hc
            obtain rfl : d = c := Option.some.inj hc
            constructor <;> rintro rfl <;> cases hd
          have hhead : ∀ c ∈ tail.head?, isDigit c = false := by
            intro c hc
            have hapart := htail c hc
            simp only [continuesNumber, Bool.or_eq_false_iff] at hapart
            exact hapart.1.1.1.1.1
          have htake := takeWhile_append_of_head hall hhead
          have hdrop := dropWhile_append_of_head hall hhead
          have hsigns := hsign _ hunsigned
          simp only [List.cons_append] at htake hdrop hsigns ⊢
          simp [exponentPart, hletter, hsigns, htake, hdrop]
    · have hpart : exponentPart (e :: text) = ([], e :: text) := if_neg hletter
      rw [hpart]
      exact ⟨rfl, by simp, fun tail => exponentPart_nil⟩

theorem Apart.head (htail : Apart tail) : ∀ c ∈ tail.head?, isDigit c = false ∧ c ≠ dot := by
  intro c hc
  have hapart := htail c hc
  refine ⟨?_, ?_⟩
  · simp only [continuesNumber, Bool.or_eq_false_iff] at hapart
    exact hapart.1.1.1.1.1
  · rintro rfl
    exact absurd hapart (by decide)

theorem head_fractionPart (text : Text) : ∀ c ∈ (fractionPart text).1.head?, isDigit c = false := by
  fun_cases fractionPart text with
  | case1 d rest hd =>
    intro c hc
    obtain rfl : dot = c := Option.some.inj hc
    rfl
  | case2 d rest hd => simp
  | case3 => simp

theorem head_append {first : Text} {P : CodePoint → Prop} (h : ∀ c ∈ first.head?, P c)
    (htail : ∀ c ∈ tail.head?, P c) : ∀ c ∈ (first ++ tail).head?, P c := by
  cases first with
  | nil => exact htail
  | cons c first => exact h

theorem finishNumber_local (negative : Bool) (digits text : Text) :
    ∃ used, text = used ++ (finishNumber negative digits text).2 ∧ ∀ tail, Apart tail →
      (∀ c ∈ (used ++ tail).head?, isDigit c = false) ∧
      finishNumber negative digits (used ++ tail) =
        ((finishNumber negative digits text).1, tail) := by
  obtain ⟨hsplit, hfraction⟩ := fractionPart_local text
  obtain ⟨hsplit', hletter, hexponent⟩ := exponentPart_local (fractionPart text).2
  have hrest : (finishNumber negative digits text).2 = (exponentPart (fractionPart text).2).2 := by
    simp only [finishNumber]
    split <;> rfl
  refine ⟨(fractionPart text).1 ++ (exponentPart (fractionPart text).2).1, ?_, fun tail htail => ?_⟩
  · rw [hrest, List.append_assoc, ← hsplit', ← hsplit]
  · have hhead := head_append hletter htail.head
    rw [List.append_assoc]
    refine ⟨head_append (head_fractionPart text) fun c hc => (hhead c hc).1, ?_⟩
    simp only [finishNumber, hfraction _ hhead, hexponent tail htail]
    split <;> rfl

theorem matchNumber_local {number : Number} (h : matchNumber text = some (number, rest)) :
    ∃ used, text = used ++ rest ∧ ∀ tail, Apart tail →
      matchNumber (used ++ tail) = some (number, tail) := by
  cases text with
  | nil => cases h
  | cons c text =>
    rw [matchNumber] at h
    by_cases hminus : c = minus
    · rw [if_pos hminus] at h
      obtain ⟨⟨digits, after⟩, hdigits, hfinish⟩ := Option.map_eq_some_iff.mp h
      obtain ⟨rfl, hinteger⟩ := integerPart?_local hdigits
      obtain ⟨used, hused, hnumber⟩ := finishNumber_local true digits after
      rw [hfinish] at hused hnumber
      refine ⟨c :: digits ++ used, by rw [hused]; simp, fun tail htail => ?_⟩
      obtain ⟨hhead, hfinished⟩ := hnumber tail htail
      rw [List.cons_append, List.cons_append, List.append_assoc, matchNumber, if_pos hminus,
        hinteger _ hhead, Option.map_some, hfinished]
    · rw [if_neg hminus] at h
      obtain ⟨⟨digits, after⟩, hdigits, hfinish⟩ := Option.map_eq_some_iff.mp h
      obtain ⟨hsplit, hinteger⟩ := integerPart?_local hdigits
      obtain ⟨used, hused, hnumber⟩ := finishNumber_local false digits after
      rw [hfinish] at hused hnumber
      refine ⟨digits ++ used, by rw [hsplit, hused]; simp, fun tail htail => ?_⟩
      obtain ⟨hhead, hfinished⟩ := hnumber tail htail
      cases digits with
      | nil => cases (hinteger [] (by simp) : none = _)
      | cons d digits =>
        obtain ⟨rfl, -⟩ := List.cons.inj hsplit
        have hscan := hinteger _ hhead
        rw [List.append_assoc, List.cons_append] at *
        rw [matchNumber, if_neg hminus, hscan, Option.map_some, hfinished]

theorem scanUnits_local {units : List StringUnit} (h : scanUnits text = .ok (units, rest)) :
    ∃ used, text = used ++ rest ∧ ∀ tail, scanUnits (used ++ tail) = .ok (units, tail) := by
  fun_induction scanUnits text generalizing units rest with
  | case1 => cases h
  | case2 rest =>
    obtain ⟨rfl, rfl⟩ := Prod.mk.inj (Except.ok.inj h)
    exact ⟨[quote], rfl, fun tail => rfl⟩
  | case3 => cases h
  | case4 a b c d rest e he ih =>
    obtain ⟨⟨units, rest⟩, hr, hcons⟩ := map_eq_ok.mp h
    obtain ⟨rfl, rfl⟩ := Prod.mk.inj hcons
    obtain ⟨used, rfl, hused⟩ := ih hr
    refine ⟨backslash :: letterU :: a :: b :: c :: d :: used, rfl, fun tail => ?_⟩
    simp [scanUnits, he, hused tail, Except.map]
  | case5 => cases h
  | case6 e rest hunicode c hc ih =>
    obtain ⟨⟨units, rest⟩, hr, hcons⟩ := map_eq_ok.mp h
    obtain ⟨rfl, rfl⟩ := Prod.mk.inj hcons
    obtain ⟨used, rfl, hused⟩ := ih hr
    have he : e ≠ letterU := by
      rintro rfl
      cases hc
    refine ⟨backslash :: e :: used, rfl, fun tail => ?_⟩
    simp [scanUnits, he, hc, hused tail, Except.map]
  | case7 => cases h
  | case8 c rest hquote hescape hescape' hcontrol ih =>
    obtain ⟨⟨units, rest⟩, hr, hcons⟩ := map_eq_ok.mp h
    obtain ⟨rfl, rfl⟩ := Prod.mk.inj hcons
    obtain ⟨used, rfl, hused⟩ := ih hr
    refine ⟨c :: used, rfl, fun tail => ?_⟩
    simp_all [scanUnits, Except.map]

theorem scanString_local {s : Text} (h : scanString text = .ok (s, rest)) :
    ∃ used, text = used ++ rest ∧ ∀ tail, scanString (used ++ tail) = .ok (s, tail) := by
  obtain ⟨⟨units, rest'⟩, hunits, hr⟩ := map_eq_ok.mp h
  obtain ⟨rfl, rfl⟩ := Prod.mk.inj hr
  obtain ⟨used, hused, hlocal⟩ := scanUnits_local hunits
  exact ⟨used, hused, fun tail => by simp [scanString, hlocal tail, Except.map]⟩

/-- A keyword or a number does not begin with a quote. -/
theorem head_ne_quote (h : keyword? text ≠ none ∨ matchNumber text ≠ none) :
    text.head? ≠ some quote := by
  intro hquote
  obtain ⟨rest, rfl⟩ := List.head?_eq_some_iff.mp hquote
  rcases h with h | h
  · exact h (keyword?_eq_none (by decide))
  · exact h (matchNumber_eq_none (by decide) (by decide))

theorem scanScalar_local (h : scanScalar limits text = .ok (value, rest)) :
    ∃ used, text = used ++ rest ∧ ∀ tail, Apart tail →
      scanScalar limits (used ++ tail) = .ok (value, tail) := by
  by_cases hquote : text.head? = some quote
  · obtain ⟨text, rfl⟩ := List.head?_eq_some_iff.mp hquote
    rw [scanScalar, if_pos hquote] at h
    obtain ⟨⟨s, rest'⟩, hs, hr⟩ := map_eq_ok.mp h
    obtain ⟨rfl, rfl⟩ := Prod.mk.inj hr
    obtain ⟨used, rfl, hused⟩ := scanString_local hs
    refine ⟨quote :: used, rfl, fun tail _ => ?_⟩
    change (scanString (used ++ tail)).map _ = _
    rw [hused tail]
    rfl
  · rw [scanScalar, if_neg hquote] at h
    cases hkeyword : keyword? text with
    | some r =>
      rw [hkeyword] at h
      obtain rfl := Except.ok.inj h
      obtain ⟨keyword, hmem, hvalue, rfl⟩ := keyword?_iff.mp hkeyword
      refine ⟨keyword.1, rfl, fun tail _ => ?_⟩
      have hagain : keyword? (keyword.1 ++ tail) = some (value, tail) :=
        keyword?_iff.mpr ⟨keyword, hmem, hvalue, rfl⟩
      rw [scanScalar, if_neg (head_ne_quote (Or.inl (by simp [hagain]))), hagain]
    | none =>
      rw [hkeyword] at h
      cases hnumber : matchNumber text with
      | none =>
        rw [hnumber] at h
        cases h
      | some r =>
        obtain ⟨number, rest'⟩ := r
        rw [hnumber] at h
        obtain ⟨used, rfl, hlocal⟩ := matchNumber_local hnumber
        have hsame : rest' = rest := by
          cases number with
          | float literal => exact (Prod.mk.inj (Except.ok.inj h)).2
          | int negative digits =>
            simp only at h
            split at h
            · cases h
            · exact (Prod.mk.inj (Except.ok.inj h)).2
        subst hsame
        refine ⟨used, rfl, fun tail htail => ?_⟩
        have hagain := hlocal tail htail
        rw [scanScalar, if_neg (head_ne_quote (Or.inr (by simp [hagain]))),
          keyword?_of_matchNumber hagain, hagain]
        cases number with
        | float literal =>
          obtain ⟨rfl, -⟩ := Prod.mk.inj (Except.ok.inj h)
          rfl
        | int negative digits =>
          simp only at h ⊢
          split at h
          · cases h
          · rename_i hdigits
            obtain ⟨rfl, -⟩ := Prod.mk.inj (Except.ok.inj h)
            rw [if_neg hdigits]

theorem scanKey_local {key valueText : Text} (h : scanKey text = .ok (key, valueText)) :
    ∃ used, text = used ++ valueText ∧ ∀ tail, skipSpace tail = tail →
      scanKey (used ++ tail) = .ok (key, tail) := by
  obtain ⟨rest, rest', rest'', rfl, hs, hcolon, rfl⟩ := scanKey_cases h
  obtain ⟨used, rfl, hused⟩ := scanString_local hs
  obtain ⟨spaces, hsplit, hspaces⟩ := exists_spaces rest'
  obtain ⟨spaces', hsplit', hspaces'⟩ := exists_spaces rest''
  refine ⟨quote :: used ++ spaces ++ colon :: spaces', ?_, fun tail htail => ?_⟩
  · conv_lhs => rw [hsplit, hcolon, hsplit']
    simp
  · have hbefore : skipSpace (spaces ++ colon :: (spaces' ++ tail)) = colon :: (spaces' ++ tail) := by
      rw [skipSpace_spaces hspaces]
      rfl
    have hafter : skipSpace (spaces' ++ tail) = tail := (skipSpace_spaces hspaces').trans htail
    have hassoc : quote :: used ++ spaces ++ colon :: spaces' ++ tail =
        quote :: (used ++ (spaces ++ colon :: (spaces' ++ tail))) := by simp
    rw [hassoc]
    simp only [scanKey, hused, bind, Except.bind, hbefore, hafter]
    rfl

/-- The character that is skipped to stays the one whatever follows it. -/
theorem exists_before {c : CodePoint} (h : skipSpace text = c :: rest) :
    ∃ spaces, text = spaces ++ c :: rest ∧
      (∀ tail, skipSpace (spaces ++ c :: tail) = c :: tail) ∧
      (continuesNumber c = false → ∀ tail, Apart (spaces ++ c :: tail)) := by
  obtain ⟨spaces, hsplit, hspaces⟩ := exists_spaces text
  have hc : isSpace c = false := by
    have hdrop : text.dropWhile isSpace = c :: rest := h
    have hstop := List.head_dropWhile_not isSpace (l := text) (by simp [hdrop])
    simpa [hdrop] using hstop
  refine ⟨spaces, h ▸ hsplit, fun tail => ?_, fun hapart tail => ?_⟩
  · rw [skipSpace_spaces hspaces]
    simp [skipSpace, hc]
  · refine head_append (fun d hd => ?_) (fun d hd => Option.some.inj hd ▸ hapart)
    have hspace := hspaces d (List.mem_of_mem_head? hd)
    simp only [isSpace, Bool.or_eq_true, beq_iff_eq] at hspace
    rcases hspace with ((rfl | rfl) | rfl) | rfl <;> rfl

theorem exists_before_used {used : Text} (h : skipSpace text = used ++ rest) (hne : used ≠ []) :
    ∃ spaces, text = spaces ++ (used ++ rest) ∧
      ∀ tail, skipSpace (spaces ++ (used ++ tail)) = used ++ tail := by
  obtain ⟨c, used, rfl⟩ := List.exists_cons_of_ne_nil hne
  obtain ⟨spaces, hsplit, hskip, -⟩ := exists_before h
  exact ⟨spaces, hsplit, fun tail => hskip (used ++ tail)⟩

theorem skipSpace_used {used : Text} (h : skipSpace (used ++ rest) = used ++ rest) (hne : used ≠ [])
    (tail : Text) : skipSpace (used ++ tail) = used ++ tail := by
  obtain ⟨spaces, hsplit, hskip⟩ := exists_before_used h hne
  obtain rfl := List.self_eq_append_left.mp hsplit
  exact hskip tail

/-- The space after a colon is skipped. -/
theorem scanKey_skips {key valueText : Text} (h : scanKey text = .ok (key, valueText)) :
    skipSpace valueText = valueText := by
  obtain ⟨_, _, _, -, -, -, rfl⟩ := scanKey_cases h
  exact List.dropWhile_idempotent isSpace _

/-- What is read up to a closing bracket or brace. -/
def Closing (part : Part) (text : Text) : Prop :=
  part = .value → text.head? = some openBracket ∨ text.head? = some openBrace

/-- A text that ends with a closing bracket or brace. -/
def EndsClosed (text : Text) : Prop :=
  ∃ before close, text = before ++ [close] ∧ (close = closeBracket ∨ close = closeBrace)

theorem EndsClosed.append (first : Text) (h : EndsClosed text) : EndsClosed (first ++ text) := by
  obtain ⟨before, close, rfl, hclose⟩ := h
  exact ⟨first ++ before, close, by simp, hclose⟩

theorem endsClosed_bracket (before : Text) : EndsClosed (before ++ [closeBracket]) :=
  ⟨before, _, rfl, Or.inl rfl⟩

theorem endsClosed_brace (before : Text) : EndsClosed (before ++ [closeBrace]) :=
  ⟨before, _, rfl, Or.inr rfl⟩

/-- A part of a text is read from the characters up to its end, whatever follows that does not run
into it. -/
def ReadFrom (limits : Limits) (depth : ℕ) (part : Part) (text : Text) (value : Value)
    (rest : Text) : Prop :=
  ∃ used, text = used ++ rest ∧ (Closing part text → EndsClosed used) ∧
    ∀ tail, Closing part text ∨ Apart tail →
      Reads limits depth part (used ++ tail) (.ok (value, tail))

theorem closing_items : Closing .items text := by
  rintro ⟨⟩

theorem closing_members : Closing .members text := by
  rintro ⟨⟩

theorem apart_nil : Apart [] := by
  simp [Apart]

theorem used_ne_nil {used : Text} (h : ∀ tail, Closing part text ∨ Apart tail →
    Reads limits depth part (used ++ tail) (.ok (value, tail))) : used ≠ [] := by
  simpa using (h [] (Or.inr apart_nil)).ne_nil

/-- What stands before a bracket or a brace in the source text. -/
theorem head_used {used : Text} {c : CodePoint} (h : (used ++ rest).head? ≠ some c)
    (hne : used ≠ []) (tail : Text) : (used ++ tail).head? ≠ some c := by
  obtain ⟨d, used, rfl⟩ := List.exists_cons_of_ne_nil hne
  exact h

/-- What is read does not depend on what comes after it. -/
theorem Reads.local (h : Reads limits depth part text (.ok (value, rest))) :
    ReadFrom limits depth part text value rest := by
  generalize houtcome : Except.ok (value, rest) = outcome at h
  induction h generalizing value rest with
  | scalar h hne =>
    subst houtcome
    obtain ⟨used, hused, hlocal⟩ := scanScalar_local h
    have hopen : ∀ {text}, Closing .value text → scanScalar limits text ≠ .ok (value, rest) := by
      intro text hclosing h
      rcases hclosing rfl with hhead | hhead <;> obtain ⟨rest', rfl⟩ := List.head?_eq_some_iff.mp hhead
      · cases scanScalar_openBracket.symm.trans h
      · cases scanScalar_openBrace.symm.trans h
    refine ⟨used, hused, fun hclosing => absurd h (hopen hclosing), fun tail htail => ?_⟩
    rcases htail with hclosing | htail
    · exact absurd h (hopen hclosing)
    · exact .scalar (hlocal tail htail) (by simp)
  | deepArray | deepObject | itemFails | memberFails => cases houtcome
  | emptyArray h =>
    obtain ⟨rfl, rfl⟩ := Prod.mk.inj (Except.ok.inj houtcome)
    obtain ⟨spaces, rfl, hskip, -⟩ := exists_before h
    refine ⟨openBracket :: spaces ++ [closeBracket], by simp, fun _ => endsClosed_bracket _,
      fun tail _ => ?_⟩
    simpa using Reads.emptyArray (hskip tail)
  | emptyObject h =>
    obtain ⟨rfl, rfl⟩ := Prod.mk.inj (Except.ok.inj houtcome)
    obtain ⟨spaces, rfl, hskip, -⟩ := exists_before h
    refine ⟨openBrace :: spaces ++ [closeBrace], by simp, fun _ => endsClosed_brace _,
      fun tail _ => ?_⟩
    simpa using Reads.emptyObject (hskip tail)
  | @array depth rest₀ outcome h hitems ih =>
    obtain ⟨used, hused, hclosed, hlocal⟩ := ih houtcome
    have hne := used_ne_nil hlocal
    obtain ⟨spaces, hsplit, hskip⟩ := exists_before_used hused hne
    refine ⟨openBracket :: spaces ++ used, by rw [hsplit]; simp,
      fun _ => (hclosed closing_items).append _, fun tail _ => ?_⟩
    rw [hused] at h
    have hread : Reads limits (depth + 1) .value (openBracket :: (spaces ++ (used ++ tail)))
        (.ok (value, tail)) :=
      .array (by rw [hskip]; exact head_used h hne tail)
        (by rw [hskip]; exact hlocal tail (Or.inl closing_items))
    simpa using hread
  | @object depth rest₀ outcome h hmembers ih =>
    obtain ⟨used, hused, hclosed, hlocal⟩ := ih houtcome
    have hne := used_ne_nil hlocal
    obtain ⟨spaces, hsplit, hskip⟩ := exists_before_used hused hne
    refine ⟨openBrace :: spaces ++ used, by rw [hsplit]; simp,
      fun _ => (hclosed closing_members).append _, fun tail _ => ?_⟩
    rw [hused] at h
    have hread : Reads limits (depth + 1) .value (openBrace :: (spaces ++ (used ++ tail)))
        (.ok (value, tail)) :=
      .object (by rw [hskip]; exact head_used h hne tail)
        (by rw [hskip]; exact hlocal tail (Or.inl closing_members))
    simpa using hread
  | lastItem hitem h ih =>
    obtain ⟨rfl, rfl⟩ := Prod.mk.inj (Except.ok.inj houtcome)
    obtain ⟨used, rfl, -, hlocal⟩ := ih rfl
    obtain ⟨spaces, rfl, hskip, hapart⟩ := exists_before h
    refine ⟨used ++ spaces ++ [closeBracket], by simp, fun _ => endsClosed_bracket _,
      fun tail _ => ?_⟩
    simpa using Reads.lastItem (hlocal _ (Or.inr (hapart rfl tail))) (hskip tail)
  | nextItem hitem h hitems ih ih' =>
    obtain ⟨⟨items, rest₂⟩, rfl, hr⟩ := map_eq_ok.mp houtcome.symm
    obtain ⟨rfl, rfl⟩ := Prod.mk.inj hr
    obtain ⟨used, rfl, -, hlocal⟩ := ih rfl
    obtain ⟨used', hused', hclosed, hlocal'⟩ := ih' rfl
    obtain ⟨spaces', rfl, hskip'⟩ := exists_before_used hused' (used_ne_nil hlocal')
    obtain ⟨spaces, rfl, hskip, hapart⟩ := exists_before h
    refine ⟨used ++ spaces ++ comma :: spaces' ++ used', by simp,
      fun _ => (hclosed closing_items).append _, fun tail _ => ?_⟩
    have hread := Reads.nextItem (hlocal _ (Or.inr (hapart rfl _))) (hskip (spaces' ++ (used' ++ tail)))
      (by rw [hskip']; exact hlocal' tail (Or.inl closing_items))
    simpa [Except.map] using hread
  | lastMember hkey hvalue h ih =>
    obtain ⟨rfl, rfl⟩ := Prod.mk.inj (Except.ok.inj houtcome)
    obtain ⟨used, rfl, -, hlocal⟩ := ih rfl
    obtain ⟨spaces, rfl, hskip, hapart⟩ := exists_before h
    obtain ⟨usedKey, rfl, hkeys⟩ := scanKey_local hkey
    have hstays := skipSpace_used (scanKey_skips hkey) (used_ne_nil hlocal)
    refine ⟨usedKey ++ used ++ spaces ++ [closeBrace], by simp, fun _ => endsClosed_brace _,
      fun tail _ => ?_⟩
    simpa using Reads.lastMember (hkeys _ (hstays _)) (hlocal _ (Or.inr (hapart rfl tail)))
      (hskip tail)
  | nextMember hkey hvalue h hmembers ih ih' =>
    obtain ⟨⟨members, rest₂⟩, rfl, hr⟩ := map_eq_ok.mp houtcome.symm
    obtain ⟨rfl, rfl⟩ := Prod.mk.inj hr
    obtain ⟨used, rfl, -, hlocal⟩ := ih rfl
    obtain ⟨used', hused', hclosed, hlocal'⟩ := ih' rfl
    obtain ⟨spaces', rfl, hskip'⟩ := exists_before_used hused' (used_ne_nil hlocal')
    obtain ⟨spaces, rfl, hskip, hapart⟩ := exists_before h
    obtain ⟨usedKey, rfl, hkeys⟩ := scanKey_local hkey
    have hstays := skipSpace_used (scanKey_skips hkey) (used_ne_nil hlocal)
    refine ⟨usedKey ++ used ++ spaces ++ comma :: spaces' ++ used', by simp,
      fun _ => (hclosed closing_members).append _, fun tail _ => ?_⟩
    have hread := Reads.nextMember (hkeys _ (hstays _)) (hlocal _ (Or.inr (hapart rfl _)))
      (hskip (spaces' ++ (used' ++ tail)))
      (by rw [hskip']; exact hlocal' tail (Or.inl closing_members))
    simpa [Except.map] using hread

theorem scanScalar_relimit (limits' : Limits) (h : scanScalar limits text = .ok (value, rest)) :
    scanScalar limits' text = .ok (value, rest) ∨
      ∃ failure ≠ .syntaxError, scanScalar limits' text = .error failure := by
  unfold scanScalar at h ⊢
  split at h
  · rename_i hquote
    rw [if_pos hquote]
    exact Or.inl h
  · rename_i hquote
    rw [if_neg hquote]
    split at h
    · exact Or.inl h
    · split at h
      · cases h
      · exact Or.inl h
      · rename_i negative digits rest' hnumber
        split at h
        · cases h
        · by_cases hlong : limits'.digits < digits.length
          · exact Or.inr ⟨.integerTooLong digits.length, by simp, if_pos hlong⟩
          · exact Or.inl ((if_neg hlong).trans h)

/-- Under other limits the same is read, or it goes beyond them. -/
theorem Reads.relimit (h : Reads limits depth part text (.ok (value, rest))) (limits' : Limits)
    (depth' : ℕ) : Reads limits' depth' part text (.ok (value, rest)) ∨
      ∃ failure, Reads limits' depth' part text (.error failure) := by
  generalize houtcome : Except.ok (value, rest) = outcome at h
  induction h generalizing value rest depth' with
  | scalar h hne =>
    subst houtcome
    rcases scanScalar_relimit limits' h with hsame | ⟨failure, hfailure, hbeyond⟩
    · exact Or.inl (.scalar hsame hne)
    · exact Or.inr ⟨failure, .scalar hbeyond (by simpa using hfailure)⟩
  | deepArray | deepObject | itemFails | memberFails => cases houtcome
  | emptyArray h =>
    obtain ⟨rfl, rfl⟩ := Prod.mk.inj (Except.ok.inj houtcome)
    cases depth' with
    | zero => exact Or.inr ⟨_, .deepArray⟩
    | succ depth' => exact Or.inl (.emptyArray h)
  | emptyObject h =>
    obtain ⟨rfl, rfl⟩ := Prod.mk.inj (Except.ok.inj houtcome)
    cases depth' with
    | zero => exact Or.inr ⟨_, .deepObject⟩
    | succ depth' => exact Or.inl (.emptyObject h)
  | array h hitems ih =>
    cases depth' with
    | zero => exact Or.inr ⟨_, .deepArray⟩
    | succ depth' =>
      rcases ih depth' houtcome with hsame | ⟨failure, hbeyond⟩
      · exact Or.inl (.array h hsame)
      · exact Or.inr ⟨failure, .array h hbeyond⟩
  | object h hmembers ih =>
    cases depth' with
    | zero => exact Or.inr ⟨_, .deepObject⟩
    | succ depth' =>
      rcases ih depth' houtcome with hsame | ⟨failure, hbeyond⟩
      · exact Or.inl (.object h hsame)
      · exact Or.inr ⟨failure, .object h hbeyond⟩
  | lastItem hitem h ih =>
    obtain ⟨rfl, rfl⟩ := Prod.mk.inj (Except.ok.inj houtcome)
    rcases ih depth' rfl with hsame | ⟨failure, hbeyond⟩
    · exact Or.inl (.lastItem hsame h)
    · exact Or.inr ⟨failure, .itemFails hbeyond⟩
  | nextItem hitem h hitems ih ih' =>
    obtain ⟨⟨items, rest₂⟩, rfl, hr⟩ := map_eq_ok.mp houtcome.symm
    obtain ⟨rfl, rfl⟩ := Prod.mk.inj hr
    rcases ih depth' rfl with hitem' | ⟨failure, hbeyond⟩
    · rcases ih' depth' rfl with hsame | ⟨failure, hbeyond⟩
      · exact Or.inl (.nextItem hitem' h hsame)
      · exact Or.inr ⟨failure, .nextItem hitem' h hbeyond⟩
    · exact Or.inr ⟨failure, .itemFails hbeyond⟩
  | lastMember hkey hvalue h ih =>
    obtain ⟨rfl, rfl⟩ := Prod.mk.inj (Except.ok.inj houtcome)
    rcases ih depth' rfl with hsame | ⟨failure, hbeyond⟩
    · exact Or.inl (.lastMember hkey hsame h)
    · exact Or.inr ⟨failure, .memberFails hkey hbeyond⟩
  | nextMember hkey hvalue h hmembers ih ih' =>
    obtain ⟨⟨members, rest₂⟩, rfl, hr⟩ := map_eq_ok.mp houtcome.symm
    obtain ⟨rfl, rfl⟩ := Prod.mk.inj hr
    rcases ih depth' rfl with hvalue' | ⟨failure, hbeyond⟩
    · rcases ih' depth' rfl with hsame | ⟨failure, hbeyond⟩
      · exact Or.inl (.nextMember hkey hvalue' h hsame)
      · exact Or.inr ⟨failure, .nextMember hkey hvalue' h hbeyond⟩
    · exact Or.inr ⟨failure, .memberFails hkey hbeyond⟩

end Json
