import ReviewAgent.Json.Local

/-! Python's JSON encoder, with its ASCII escapes and its two layouts, and what it writes is read
back. -/
namespace Json

/-- A digit of `\uXXXX`. -/
def hexDigit (n : ℕ) : CodePoint := if n < 10 then 0x30 + n else 0x61 + (n - 10)

/-- `'\\u{0:04x}'.format(n)`. -/
def unicodeEscape (n : ℕ) : Text :=
  [backslash, letterU, hexDigit (n / 0x1000 % 0x10), hexDigit (n / 0x100 % 0x10),
    hexDigit (n / 0x10 % 0x10), hexDigit (n % 0x10)]

/-- `ESCAPE_DCT`: the letter after the backslash. -/
def shortEscape? : CodePoint → Option CodePoint
  | 0x5C => some 0x5C
  | 0x22 => some 0x22
  | 0x08 => some 0x62
  | 0x0C => some 0x66
  | 0x0A => some 0x6E
  | 0x0D => some 0x72
  | 0x09 => some 0x74
  | _ => none

/-- A character as `py_encode_basestring_ascii` writes it. -/
def encodeChar (c : CodePoint) : Text :=
  match shortEscape? c with
  | some e => [backslash, e]
  | none =>
    if 0x20 ≤ c ∧ c ≤ 0x7E then [c]
    else if c < 0x10000 then unicodeEscape c
    else
      unicodeEscape (0xD800 + (c - 0x10000) / 0x400 % 0x400) ++
        unicodeEscape (0xDC00 + (c - 0x10000) % 0x400)

/-- `encode_basestring_ascii`. -/
def encodeString (s : Text) : Text := quote :: (s.flatMap encodeChar ++ [quote])

/-- The decimal digits of a number. -/
def digitsOf (n : ℕ) : Text := (Nat.toDigits 10 n).map Char.toNat

/-- `int.__repr__`. -/
def encodeInt (n : ℤ) : Text := (if n < 0 then [minus] else []) ++ digitsOf n.natAbs

/-- How arrays and objects are laid out: on one line, or an item a line, this much further in. -/
structure Layout where
  indent : Option ℕ

namespace Layout

variable (layout : Layout)

/-- What stands after an opening bracket, and before a closing one: a new line, if any. -/
def newLine (level : ℕ) : Text :=
  match layout.indent with
  | none => []
  | some indent => 0x0A :: List.replicate (indent * level) 0x20

/-- What stands between two items: a comma, and a blank or a new line. -/
def separator (level : ℕ) : Text :=
  match layout.indent with
  | none => [comma, 0x20]
  | some _ => comma :: layout.newLine level

end Layout

mutual

/-- `json.dumps`, at a level of nesting. Floats, which no dumped value has here, stay as they were
written. -/
def dumpsAt (layout : Layout) (level : ℕ) : Value → Text
  | .null => points "null"
  | .bool b => points (if b then "true" else "false")
  | .int n => encodeInt n
  | .float literal => literal
  | .str s => encodeString s
  | .array [] => [openBracket, closeBracket]
  | .array (item :: items) =>
    openBracket :: layout.newLine (level + 1) ++ dumpsAt layout (level + 1) item ++
      dumpsItems layout (level + 1) items ++ layout.newLine level ++ [closeBracket]
  | .object [] => [openBrace, closeBrace]
  | .object ((key, value) :: members) =>
    openBrace :: layout.newLine (level + 1) ++ encodeString key ++ [colon, 0x20] ++
      dumpsAt layout (level + 1) value ++ dumpsMembers layout (level + 1) members ++
      layout.newLine level ++ [closeBrace]

/-- The items after the first. -/
def dumpsItems (layout : Layout) (level : ℕ) : List Value → Text
  | [] => []
  | item :: items =>
    layout.separator level ++ dumpsAt layout level item ++ dumpsItems layout level items

/-- The members after the first. -/
def dumpsMembers (layout : Layout) (level : ℕ) : List (Text × Value) → Text
  | [] => []
  | (key, value) :: members =>
    layout.separator level ++ encodeString key ++ [colon, 0x20] ++ dumpsAt layout level value ++
      dumpsMembers layout level members

end

/-- `json.dumps(value, indent=...)`. -/
def dumps (layout : Layout) (value : Value) : Text := dumpsAt layout 0 value

mutual

/-- Arrays and objects inside each other. -/
def nesting : Value → ℕ
  | .array items => nestingOfItems items + 1
  | .object members => nestingOfMembers members + 1
  | _ => 0

def nestingOfItems : List Value → ℕ
  | [] => 0
  | item :: items => max (nesting item) (nestingOfItems items)

def nestingOfMembers : List (Text × Value) → ℕ
  | [] => 0
  | (_, value) :: members => max (nesting value) (nestingOfMembers members)

end

/-- Code points, and no two of them the halves of a surrogate pair next to each other: these would
be read back as one. -/
def Separable : Text → Prop
  | [] => True
  | c :: rest => c < 0x110000 ∧
      (isHighSurrogate c = true → ∀ d ∈ rest.head?, isLowSurrogate d = false) ∧ Separable rest

mutual

/-- Values without floats, whose integers print and whose strings are read back. -/
def Dumpable (limits : Limits) : Value → Prop
  | .null => True
  | .bool _ => True
  | .int n => (digitsOf n.natAbs).length ≤ limits.digits
  | .float _ => False
  | .str s => Separable s
  | .array items => DumpableItems limits items
  | .object members => DumpableMembers limits members

def DumpableItems (limits : Limits) : List Value → Prop
  | [] => True
  | item :: items => Dumpable limits item ∧ DumpableItems limits items

def DumpableMembers (limits : Limits) : List (Text × Value) → Prop
  | [] => True
  | (key, value) :: members =>
    Separable key ∧ Dumpable limits value ∧ DumpableMembers limits members

end

/-! ### Strings -/

theorem hexDigit?_hexDigit {n : ℕ} (h : n < 0x10) : hexDigit? (hexDigit n) = some n := by
  have hall : ∀ n < 0x10, hexDigit? (hexDigit n) = some n := by decide
  exact hall n h

theorem hex4?_unicodeEscape {n : ℕ} (h : n < 0x10000) :
    hex4? (hexDigit (n / 0x1000 % 0x10)) (hexDigit (n / 0x100 % 0x10)) (hexDigit (n / 0x10 % 0x10))
      (hexDigit (n % 0x10)) = some n := by
  have hdigits : ((n / 0x1000 % 0x10 * 16 + n / 0x100 % 0x10) * 16 + n / 0x10 % 0x10) * 16 +
      n % 0x10 = n := by
    omega
  simp only [hex4?, hexDigit?_hexDigit (Nat.mod_lt _ (by decide : 0 < 0x10)), bind, Option.bind,
    pure, hdigits]

variable {limits : Limits} {layout : Layout} {text rest : Text} {units : List StringUnit}

theorem scanUnits_unicodeEscape {n : ℕ} (h : n < 0x10000)
    (hrest : scanUnits text = .ok (units, rest)) :
    scanUnits (unicodeEscape n ++ text) = .ok (.escaped n :: units, rest) := by
  simp only [unicodeEscape, List.cons_append, List.nil_append, scanUnits, hex4?_unicodeEscape h,
    hrest]
  rfl

/-- The units that a character is read back as. -/
def unitsOf (c : CodePoint) : List StringUnit :=
  match shortEscape? c with
  | some _ => [.plain c]
  | none =>
    if 0x20 ≤ c ∧ c ≤ 0x7E then [.plain c]
    else if c < 0x10000 then [.escaped c]
    else [.escaped (0xD800 + (c - 0x10000) / 0x400 % 0x400), .escaped (0xDC00 + (c - 0x10000) % 0x400)]

theorem scanUnits_plain {c : CodePoint} (hquote : c ≠ quote) (hbackslash : c ≠ backslash)
    (hc : 0x20 ≤ c) (hrest : scanUnits text = .ok (units, rest)) :
    scanUnits (c :: text) = .ok (.plain c :: units, rest) := by
  have hvisible : ¬(c = backslash ∨ c < 0x20) := by
    rintro (rfl | hcontrol)
    · exact hbackslash rfl
    · exact absurd hc (Nat.not_le.mpr hcontrol)
  rw [scanUnits]
  · rw [if_neg hvisible, hrest]
    rfl
  · exact hquote
  · rintro _ _ _ _ _ rfl
    exact fun _ => hbackslash rfl
  · rintro _ _ rfl
    exact fun _ => hbackslash rfl

theorem scanUnits_encodeChar (c : CodePoint) (hrest : scanUnits text = .ok (units, rest)) :
    scanUnits (encodeChar c ++ text) = .ok (unitsOf c ++ units, rest) := by
  unfold encodeChar unitsOf
  split
  · rename_i e he
    unfold shortEscape? at he
    split at he <;> cases he <;> simp [scanUnits, escape?, hrest, Except.map]
  · rename_i hshort
    split
    · rename_i hc
      have hquote : c ≠ quote := by
        rintro rfl
        cases hshort
      have hbackslash : c ≠ backslash := by
        rintro rfl
        cases hshort
      exact scanUnits_plain hquote hbackslash hc.1 hrest
    · split
      · rename_i hc
        exact scanUnits_unicodeEscape hc hrest
      · rename_i hc
        rw [List.append_assoc]
        exact scanUnits_unicodeEscape (by omega) (scanUnits_unicodeEscape (by omega) hrest)

theorem scanUnits_flatMap (s : Text) :
    scanUnits (s.flatMap encodeChar ++ quote :: rest) = .ok (s.flatMap unitsOf, rest) := by
  induction s with
  | nil => rfl
  | cons c s ih =>
    rw [List.flatMap_cons, List.append_assoc]
    exact scanUnits_encodeChar c ih

/-- The halves of the pair for a character beyond the basic plane. -/
theorem surrogate_halves (n : ℕ) :
    (0xD800 ≤ 0xD800 + n / 0x400 % 0x400 ∧ 0xD800 + n / 0x400 % 0x400 ≤ 0xDBFF) ∧
      0xDC00 ≤ 0xDC00 + n % 0x400 ∧ 0xDC00 + n % 0x400 ≤ 0xDFFF := by
  omega

theorem join_halves (n : ℕ) (h : n < 0x100000) :
    0x10000 + (0xD800 + n / 0x400 % 0x400 - 0xD800) * 0x400 + (0xDC00 + n % 0x400 - 0xDC00) =
      n + 0x10000 := by
  omega

/-- What a unit starts with, as the join of escapes sees it. -/
theorem joinEscapes_escaped {c : CodePoint} {units : List StringUnit}
    (h : isHighSurrogate c = true → ∀ d, units.head? = some (.escaped d) → isLowSurrogate d = false) :
    joinEscapes (.escaped c :: units) = c :: joinEscapes units := by
  cases units with
  | nil => rfl
  | cons unit units =>
    cases unit with
    | plain d => rfl
    | escaped d =>
      rw [joinEscapes, if_neg]
      rintro hpair
      obtain ⟨hhigh, hlow⟩ := Bool.and_eq_true_iff.mp hpair
      simp [h hhigh d rfl] at hlow

theorem joinEscapes_unitsOf {c : CodePoint} {units : List StringUnit} (hc : c < 0x110000)
    (h : isHighSurrogate c = true → ∀ d, units.head? = some (.escaped d) → isLowSurrogate d = false) :
    joinEscapes (unitsOf c ++ units) = c :: joinEscapes units := by
  unfold unitsOf
  split
  · rfl
  · split
    · rfl
    · split
      · exact joinEscapes_escaped h
      · rename_i hbig
        obtain ⟨n, rfl⟩ := Nat.exists_eq_add_of_le (Nat.not_lt.mp hbig)
        have hn : n < 0x100000 := Nat.lt_of_add_lt_add_left hc
        have hpair : (isHighSurrogate (0xD800 + n / 0x400 % 0x400) &&
            isLowSurrogate (0xDC00 + n % 0x400)) = true := by
          simp only [isHighSurrogate, isLowSurrogate, Bool.and_eq_true, decide_eq_true_eq]
          exact surrogate_halves n
        have hjoin : joinSurrogates (0xD800 + n / 0x400 % 0x400) (0xDC00 + n % 0x400) =
            0x10000 + n :=
          (join_halves n hn).trans (Nat.add_comm _ _)
        rw [Nat.add_sub_cancel_left, List.cons_append, List.cons_append, List.nil_append,
          joinEscapes, if_pos hpair, hjoin]

/-- The first unit of a character, if it is an escape, is the character itself or a high half. -/
theorem head_unitsOf {c d : CodePoint} {units : List StringUnit}
    (h : (unitsOf c ++ units).head? = some (.escaped d)) : isLowSurrogate d = true → d = c := by
  unfold unitsOf at h
  split at h
  · cases h
  · split at h
    · cases h
    · split at h
      · obtain rfl := StringUnit.escaped.inj (Option.some.inj h)
        exact fun _ => rfl
      · obtain rfl := StringUnit.escaped.inj (Option.some.inj h)
        intro hlow
        simp only [isLowSurrogate, Bool.and_eq_true, decide_eq_true_eq] at hlow
        exact absurd (Nat.le_trans hlow.1 (surrogate_halves (c - 0x10000)).1.2) (by decide)

theorem joinEscapes_flatMap {s : Text} (h : Separable s) :
    joinEscapes (s.flatMap unitsOf) = s := by
  induction s with
  | nil => rfl
  | cons c s ih =>
    obtain ⟨hc, hapart, hs⟩ := h
    rw [List.flatMap_cons, joinEscapes_unitsOf hc, ih hs]
    intro hhigh d hd
    cases s with
    | nil => cases hd
    | cons e s =>
      rw [List.flatMap_cons] at hd
      by_contra hlow
      rw [Bool.not_eq_false] at hlow
      obtain rfl := head_unitsOf hd hlow
      simp [hapart hhigh _ rfl] at hlow

/-- A string is read back as it was. -/
theorem scanString_encodeString {s : Text} (h : Separable s) :
    scanString (s.flatMap encodeChar ++ quote :: rest) = .ok (s, rest) := by
  rw [scanString, scanUnits_flatMap]
  simp [Except.map, joinEscapes_flatMap h]

/-! ### Integers -/

theorem isDigit_digitsOf (n : ℕ) : ∀ c ∈ digitsOf n, isDigit c = true := by
  intro c hc
  obtain ⟨d, hd, rfl⟩ := List.mem_map.mp hc
  have hdigit := Nat.isDigit_of_mem_toDigits (by decide : 0 < 10) (by decide) hd
  rw [Char.isDigit, Bool.and_eq_true, decide_eq_true_eq, decide_eq_true_eq] at hdigit
  rw [isDigit, Bool.and_eq_true, decide_eq_true_eq, decide_eq_true_eq]
  exact hdigit

theorem foldl_digitsOf (n : ℕ) :
    (digitsOf n).foldl (fun n d => 10 * n + (d - zero)) 0 = n := by
  rw [digitsOf, List.foldl_map]
  exact Nat.ofDigitChars_ten_toDigits

/-- A number begins with a zero only if it is zero. -/
theorem digitsOf_head (n : ℕ) : digitsOf n = [zero] ∨ ∃ d ds, digitsOf n = d :: ds ∧ d ≠ zero := by
  induction n using Nat.strongRecOn with
  | ind n ih =>
    by_cases hn : n < 10
    · rw [digitsOf, Nat.toDigits_of_lt_base hn]
      by_cases hzero : n = 0
      · exact Or.inl (by rw [hzero]; rfl)
      · refine Or.inr ⟨n.digitChar.toNat, [], rfl, ?_⟩
        have hall : ∀ n < 10, n ≠ 0 → n.digitChar.toNat ≠ 0x30 := by decide
        exact hall n hn hzero
    · have hsplit : digitsOf n = digitsOf (n / 10) ++ [(n % 10).digitChar.toNat] := by
        rw [digitsOf, Nat.toDigits_of_base_le (by decide) (Nat.not_lt.mp hn), List.map_append]
        rfl
      have hne : n / 10 ≠ 0 := by omega
      rcases ih (n / 10) (by omega) with h | ⟨d, ds, h, hd⟩
      · have hvalue := foldl_digitsOf (n / 10)
        rw [h] at hvalue
        exact absurd hvalue.symm hne
      · exact Or.inr ⟨d, ds ++ [(n % 10).digitChar.toNat], by rw [hsplit, h]; rfl, hd⟩

variable {depth : ℕ}

theorem integerPart?_digitsOf (n : ℕ) (hrest : Apart rest) :
    integerPart? (digitsOf n ++ rest) = some (digitsOf n, rest) := by
  rcases digitsOf_head n with h | ⟨d, ds, h, hd⟩
  · rw [h]
    rfl
  · have hdigits := isDigit_digitsOf n
    rw [h] at hdigits ⊢
    have hds : ∀ c ∈ ds, isDigit c = true := fun c hc => hdigits c (List.mem_cons_of_mem _ hc)
    have hhead : ∀ c ∈ rest.head?, isDigit c = false := fun c hc => (hrest.head c hc).1
    rw [List.cons_append, integerPart?, if_neg hd, if_pos (hdigits d List.mem_cons_self),
      takeWhile_append_of_head hds hhead, dropWhile_append_of_head hds hhead]

theorem finishNumber_apart (hrest : Apart rest) (negative : Bool) (digits : Text) :
    finishNumber negative digits rest = (.int negative digits, rest) := by
  have hfraction : fractionPart rest = ([], rest) := fractionPart_nil hrest
  rw [finishNumber, hfraction, exponentPart_nil hrest]
  rfl

theorem matchNumber_encodeInt (n : ℤ) (hrest : Apart rest) :
    matchNumber (encodeInt n ++ rest) = some (.int (n < 0) (digitsOf n.natAbs), rest) := by
  by_cases hn : n < 0
  · rw [encodeInt, if_pos hn, List.append_assoc, List.cons_append, List.nil_append, matchNumber,
      if_pos rfl, integerPart?_digitsOf _ hrest, Option.map_some, finishNumber_apart hrest]
    simp [hn]
  · rw [encodeInt, if_neg hn, List.nil_append]
    have hpart := integerPart?_digitsOf n.natAbs hrest
    obtain ⟨d, ds, h⟩ : ∃ d ds, digitsOf n.natAbs = d :: ds := by
      rcases digitsOf_head n.natAbs with h | ⟨d, ds, h, -⟩
      · exact ⟨_, _, h⟩
      · exact ⟨d, ds, h⟩
    have hminus : d ≠ minus := by
      rintro rfl
      have hdigit := isDigit_digitsOf n.natAbs minus (h ▸ List.mem_cons_self)
      cases hdigit
    rw [h, List.cons_append] at hpart ⊢
    rw [matchNumber, if_neg hminus, hpart, Option.map_some, finishNumber_apart hrest]
    simp [hn]

theorem intOfDigits_digitsOf (n : ℤ) : intOfDigits (n < 0) (digitsOf n.natAbs) = n := by
  rw [intOfDigits, foldl_digitsOf]
  by_cases hn : n < 0
  · have habs : (n.natAbs : ℤ) = -n := by omega
    simp only [hn, decide_true, if_true, habs, Int.neg_neg]
  · have habs : (n.natAbs : ℤ) = n := by omega
    simp only [hn, decide_false, habs]
    rfl

/-! ### Values -/

theorem scanScalar_encodeInt {n : ℤ} (hn : (digitsOf n.natAbs).length ≤ limits.digits)
    (hrest : Apart rest) : scanScalar limits (encodeInt n ++ rest) = .ok (.int n, rest) := by
  have hnumber := matchNumber_encodeInt n hrest
  have hquote : (encodeInt n ++ rest).head? ≠ some quote := by
    intro h
    obtain ⟨tail, htail⟩ := List.head?_eq_some_iff.mp h
    rw [htail, matchNumber_eq_none (by decide) (by decide)] at hnumber
    cases hnumber
  rw [scanScalar, if_neg hquote, keyword?_of_matchNumber hnumber, hnumber]
  simp only [if_neg (Nat.not_lt.mpr hn), intOfDigits_digitsOf]

theorem scanScalar_encodeString {s : Text} (hs : Separable s) :
    scanScalar limits (encodeString s ++ rest) = .ok (.str s, rest) := by
  have htext : encodeString s ++ rest = quote :: (s.flatMap encodeChar ++ quote :: rest) := by
    simp [encodeString]
  rw [htext, scanScalar, if_pos List.head?_cons, List.tail_cons, scanString_encodeString hs]
  rfl

theorem scanScalar_keyword {word : Text} {value : Value} (hword : (word, value) ∈ keywords)
    (hquote : (word ++ rest).head? ≠ some quote) :
    scanScalar limits (word ++ rest) = .ok (value, rest) := by
  rw [scanScalar, if_neg hquote, keyword?_iff.mpr ⟨(word, value), hword, rfl, rfl⟩]

/-- What a value begins with: no space, no closing bracket, no byte order mark. -/
def Opening (c : CodePoint) : Prop :=
  isSpace c = false ∧ c ≠ closeBracket ∧ c ≠ closeBrace ∧ c ≠ 0xFEFF

theorem opening_digit {c : CodePoint} (h : isDigit c = true) : Opening c := by
  refine ⟨?_, ?_, ?_, ?_⟩
  · rw [← Bool.not_eq_true]
    intro hspace
    simp only [isSpace, Bool.or_eq_true, beq_iff_eq] at hspace
    rcases hspace with ((rfl | rfl) | rfl) | rfl <;> cases h
  all_goals
    rintro rfl
    cases h

theorem dumpsAt_head (layout : Layout) (level : ℕ) {value : Value} (h : Dumpable limits value) :
    ∃ c tail, dumpsAt layout level value = c :: tail ∧ Opening c := by
  have hopening : ∀ c ∈ [0x6E, 0x74, 0x66, minus, quote, openBracket, openBrace], Opening c := by
    unfold Opening
    decide
  cases value with
  | null => exact ⟨0x6E, _, rfl, hopening _ (by decide)⟩
  | bool b =>
    cases b
    · exact ⟨0x66, _, rfl, hopening _ (by decide)⟩
    · exact ⟨0x74, _, rfl, hopening _ (by decide)⟩
  | int n =>
    by_cases hn : n < 0
    · exact ⟨minus, _, by rw [dumpsAt, encodeInt, if_pos hn]; rfl, hopening _ (by decide)⟩
    · have hdigits := isDigit_digitsOf n.natAbs
      rw [dumpsAt, encodeInt, if_neg hn, List.nil_append]
      rcases digitsOf_head n.natAbs with hd | ⟨d, ds, hd, -⟩
      · exact ⟨zero, [], hd, opening_digit rfl⟩
      · exact ⟨d, ds, hd, opening_digit (hdigits d (hd ▸ List.mem_cons_self))⟩
  | float literal => exact h.elim
  | str s => exact ⟨quote, _, rfl, hopening _ (by decide)⟩
  | array items =>
    cases items with
    | nil => exact ⟨openBracket, _, rfl, hopening _ (by decide)⟩
    | cons item items => exact ⟨openBracket, _, by rw [dumpsAt]; rfl, hopening _ (by decide)⟩
  | object members =>
    cases members with
    | nil => exact ⟨openBrace, _, rfl, hopening _ (by decide)⟩
    | cons member members => exact ⟨openBrace, _, by rw [dumpsAt]; rfl, hopening _ (by decide)⟩

theorem isSpace_newLine (level : ℕ) : ∀ c ∈ layout.newLine level, isSpace c = true := by
  unfold Layout.newLine
  split
  · simp
  · intro c hc
    rcases List.mem_cons.mp hc with rfl | hc
    · rfl
    · obtain ⟨-, rfl⟩ := List.mem_replicate.mp hc
      rfl

theorem skipSpace_newLine (level : ℕ) (text : Text) :
    skipSpace (layout.newLine level ++ text) = skipSpace text :=
  skipSpace_spaces (isSpace_newLine level)

theorem skipSpace_opening {c : CodePoint} {tail : Text} (hc : Opening c) :
    skipSpace (c :: tail) = c :: tail := by
  simp [skipSpace, hc.1]

/-- A separator is a comma and space. -/
theorem exists_separator (layout : Layout) (level : ℕ) :
    ∃ spaces, layout.separator level = comma :: spaces ∧ ∀ c ∈ spaces, isSpace c = true := by
  unfold Layout.separator
  split
  · exact ⟨[0x20], rfl, by decide⟩
  · exact ⟨_, rfl, isSpace_newLine level⟩

theorem apart_newLine (level : ℕ) {c : CodePoint} (hc : continuesNumber c = false) :
    Apart (layout.newLine level ++ c :: text) := by
  unfold Layout.newLine
  split
  · intro d hd
    obtain rfl := Option.some.inj hd
    exact hc
  · intro d hd
    obtain rfl := Option.some.inj hd
    rfl

/-- The values among these are read back, from a depth. -/
def ReadBack (limits : Limits) (layout : Layout) (depth : ℕ) (value : Value) : Prop :=
  ∀ level rest, Apart rest →
    Reads limits depth .value (dumpsAt layout level value ++ rest) (.ok (value, rest))

theorem reads_dumpsItems (level level' : ℕ) (rest : Text) (item : Value) (items : List Value)
    (hdumpable : DumpableItems limits (item :: items))
    (hread : ∀ value ∈ item :: items, ReadBack limits layout depth value) :
    Reads limits depth .items (dumpsAt layout level item ++ (dumpsItems layout level items ++
      (layout.newLine level' ++ closeBracket :: rest))) (.ok (.array (item :: items), rest)) := by
  induction items generalizing item with
  | nil =>
    refine .lastItem (hread item List.mem_cons_self level _ ?_) ?_
    · exact apart_newLine level' rfl
    · rw [dumpsItems, List.nil_append, skipSpace_newLine]
      rfl
  | cons item' items ih =>
    obtain ⟨spaces, hseparator, hspaces⟩ := exists_separator layout level
    have htext : dumpsItems layout level (item' :: items) ++
        (layout.newLine level' ++ closeBracket :: rest) = comma :: (spaces ++
          (dumpsAt layout level item' ++ (dumpsItems layout level items ++
            (layout.newLine level' ++ closeBracket :: rest)))) := by
      rw [dumpsItems, hseparator]
      simp
    rw [htext]
    obtain ⟨c, tail, hc, hopening⟩ := dumpsAt_head layout level hdumpable.2.1
    have hrest := ih item' hdumpable.2 fun value hmem => hread value (List.mem_cons_of_mem _ hmem)
    refine .nextItem (hread item List.mem_cons_self level _ fun d hd => ?_) rfl
      (?_ : Reads limits depth .items _ (.ok (.array (item' :: items), rest)))
    · obtain rfl := Option.some.inj hd
      rfl
    · rw [skipSpace_spaces hspaces, hc, List.cons_append, skipSpace_opening hopening,
        ← List.cons_append, ← hc]
      exact hrest

theorem scanKey_encodeString {key : Text} (hs : Separable key) {c : CodePoint} {tail : Text}
    (hc : Opening c) (text : Text) :
    scanKey (encodeString key ++ (colon :: 0x20 :: (c :: tail ++ text))) =
      .ok (key, c :: tail ++ text) := by
  have htext : encodeString key ++ (colon :: 0x20 :: (c :: tail ++ text)) =
      quote :: (key.flatMap encodeChar ++ quote :: (colon :: 0x20 :: (c :: tail ++ text))) := by
    simp [encodeString]
  have hspace : skipSpace (0x20 :: (c :: tail ++ text)) = c :: tail ++ text :=
    skipSpace_opening hc
  rw [htext, scanKey, scanString_encodeString hs]
  show Except.ok (key, skipSpace (0x20 :: (c :: tail ++ text))) = _
  rw [hspace]

theorem reads_dumpsMembers (level level' : ℕ) (rest : Text) (key : Text) (value : Value)
    (members : List (Text × Value)) (hdumpable : DumpableMembers limits ((key, value) :: members))
    (hread : ∀ member ∈ (key, value) :: members, ReadBack limits layout depth member.2) :
    Reads limits depth .members (encodeString key ++ (colon :: 0x20 ::
      (dumpsAt layout level value ++ (dumpsMembers layout level members ++
        (layout.newLine level' ++ closeBrace :: rest)))))
      (.ok (.object ((key, value) :: members), rest)) := by
  induction members generalizing key value with
  | nil =>
    obtain ⟨hkey, hvalue, -⟩ := hdumpable
    obtain ⟨c, tail, hc, hopening⟩ := dumpsAt_head layout level hvalue
    refine .lastMember ?_ (hread _ List.mem_cons_self level (layout.newLine level' ++
      closeBrace :: rest) ?_) ?_
    · rw [dumpsMembers, List.nil_append, hc]
      exact scanKey_encodeString hkey hopening _
    · exact apart_newLine level' rfl
    · rw [skipSpace_newLine]
      rfl
  | cons member members ih =>
    obtain ⟨key', value'⟩ := member
    obtain ⟨hkey, hvalue, hmembers⟩ := hdumpable
    obtain ⟨c, tail, hc, hopening⟩ := dumpsAt_head layout level hvalue
    obtain ⟨spaces, hseparator, hspaces⟩ := exists_separator layout level
    have htext : dumpsMembers layout level ((key', value') :: members) ++
        (layout.newLine level' ++ closeBrace :: rest) = comma :: (spaces ++
          (encodeString key' ++ (colon :: 0x20 :: (dumpsAt layout level value' ++
            (dumpsMembers layout level members ++
              (layout.newLine level' ++ closeBrace :: rest)))))) := by
      rw [dumpsMembers, hseparator]
      simp
    have hrest := ih key' value' hmembers fun member hmem => hread member
      (List.mem_cons_of_mem _ hmem)
    rw [htext]
    refine .nextMember ?_ (hread _ List.mem_cons_self level (comma :: (spaces ++
      (encodeString key' ++ (colon :: 0x20 :: (dumpsAt layout level value' ++
        (dumpsMembers layout level members ++ (layout.newLine level' ++ closeBrace :: rest)))))))
      fun d hd => ?_) rfl
      (?_ : Reads limits depth .members _ (.ok (.object ((key', value') :: members), rest)))
    · rw [hc]
      exact scanKey_encodeString hkey hopening _
    · obtain rfl := Option.some.inj hd
      rfl
    · have hquote : Opening quote := by
        unfold Opening
        decide
      rw [skipSpace_spaces hspaces, encodeString, List.cons_append, skipSpace_opening hquote]
      exact hrest

theorem nesting_le_items {items : List Value} {item : Value} (h : item ∈ items) :
    nesting item ≤ nestingOfItems items := by
  induction items with
  | nil => cases h
  | cons item' items ih =>
    rw [nestingOfItems]
    rcases List.mem_cons.mp h with rfl | h
    · exact Nat.le_max_left _ _
    · exact (ih h).trans (Nat.le_max_right _ _)

theorem nesting_le_members {members : List (Text × Value)} {member : Text × Value}
    (h : member ∈ members) : nesting member.2 ≤ nestingOfMembers members := by
  induction members with
  | nil => cases h
  | cons member' members ih =>
    obtain ⟨key, value⟩ := member'
    rw [nestingOfMembers]
    rcases List.mem_cons.mp h with rfl | h
    · exact Nat.le_max_left _ _
    · exact (ih h).trans (Nat.le_max_right _ _)

theorem DumpableItems.dumpable {items : List Value} {item : Value}
    (h : DumpableItems limits items) (hmem : item ∈ items) : Dumpable limits item := by
  induction items with
  | nil => cases hmem
  | cons item' items ih =>
    rcases List.mem_cons.mp hmem with rfl | hmem
    · exact h.1
    · exact ih h.2 hmem

theorem DumpableMembers.dumpable {members : List (Text × Value)} {member : Text × Value}
    (h : DumpableMembers limits members) (hmem : member ∈ members) :
    Dumpable limits member.2 := by
  induction members with
  | nil => cases hmem
  | cons member' members ih =>
    rcases List.mem_cons.mp hmem with rfl | hmem
    · exact h.2.1
    · exact ih h.2.2 hmem

theorem readBack_scalar {value : Value} (hdumpable : Dumpable limits value)
    (harray : ∀ items, value ≠ .array items) (hobject : ∀ members, value ≠ .object members) :
    ReadBack limits layout depth value := by
  intro level rest hrest
  refine .scalar ?_ (by simp)
  cases value with
  | null =>
    have hword : (points "null", .null) ∈ keywords := by simp [keywords]
    exact scanScalar_keyword hword fun h => absurd (Option.some.inj h) (by decide)
  | bool b =>
    cases b
    · have hword : (points "false", .bool false) ∈ keywords := by simp [keywords]
      exact scanScalar_keyword hword fun h => absurd (Option.some.inj h) (by decide)
    · have hword : (points "true", .bool true) ∈ keywords := by simp [keywords]
      exact scanScalar_keyword hword fun h => absurd (Option.some.inj h) (by decide)
  | int n => exact scanScalar_encodeInt hdumpable hrest
  | float literal => exact hdumpable.elim
  | str s => exact scanScalar_encodeString hdumpable
  | array items => exact absurd rfl (harray items)
  | object members => exact absurd rfl (hobject members)

theorem readBack_array {items : List Value} (hdumpable : DumpableItems limits items)
    (hread : ∀ value ∈ items, ReadBack limits layout depth value) :
    ReadBack limits layout (depth + 1) (.array items) := by
  intro level rest hrest
  cases items with
  | nil => exact .emptyArray rfl
  | cons item items =>
    obtain ⟨c, tail, hc, hopening⟩ := dumpsAt_head layout (level + 1) hdumpable.1
    have hitems := reads_dumpsItems (level + 1) level rest item items hdumpable hread
    have htext : dumpsAt layout level (.array (item :: items)) ++ rest =
        openBracket :: (layout.newLine (level + 1) ++ (dumpsAt layout (level + 1) item ++
          (dumpsItems layout (level + 1) items ++
            (layout.newLine level ++ closeBracket :: rest)))) := by
      rw [dumpsAt]
      simp
    have hskip : skipSpace (layout.newLine (level + 1) ++ (dumpsAt layout (level + 1) item ++
          (dumpsItems layout (level + 1) items ++ (layout.newLine level ++ closeBracket :: rest)))) =
        dumpsAt layout (level + 1) item ++ (dumpsItems layout (level + 1) items ++
          (layout.newLine level ++ closeBracket :: rest)) := by
      rw [skipSpace_newLine, hc]
      exact skipSpace_opening hopening
    rw [htext]
    refine .array ?_ (by rwa [hskip])
    rw [hskip, hc]
    exact fun h => hopening.2.1 (Option.some.inj h)

theorem readBack_object {members : List (Text × Value)} (hdumpable : DumpableMembers limits members)
    (hread : ∀ member ∈ members, ReadBack limits layout depth member.2) :
    ReadBack limits layout (depth + 1) (.object members) := by
  intro level rest hrest
  cases members with
  | nil => exact .emptyObject rfl
  | cons member members =>
    obtain ⟨key, value⟩ := member
    have hmembers := reads_dumpsMembers (level + 1) level rest key value members hdumpable
      hread
    have htext : dumpsAt layout level (.object ((key, value) :: members)) ++ rest =
        openBrace :: (layout.newLine (level + 1) ++ (encodeString key ++ (colon :: 0x20 ::
          (dumpsAt layout (level + 1) value ++ (dumpsMembers layout (level + 1) members ++
            (layout.newLine level ++ closeBrace :: rest)))))) := by
      rw [dumpsAt]
      simp
    have hquote : Opening quote := by
      unfold Opening
      decide
    have hskip : ∀ text, skipSpace (layout.newLine (level + 1) ++ (encodeString key ++ text)) =
        encodeString key ++ text := by
      intro text
      rw [skipSpace_newLine]
      exact skipSpace_opening hquote
    rw [htext]
    refine .object ?_ (by rwa [hskip])
    rw [hskip]
    exact fun h => absurd (Option.some.inj h) (by decide)

/-- A value is read back, wherever it stands in a text, if the nesting limit takes it. -/
theorem readBack (layout : Layout) {value : Value} (hdumpable : Dumpable limits value)
    (hdepth : nesting value ≤ depth) : ReadBack limits layout depth value := by
  induction depth generalizing value with
  | zero =>
    refine readBack_scalar hdumpable ?_ ?_
    · rintro items rfl
      exact absurd hdepth (Nat.not_succ_le_zero _)
    · rintro members rfl
      exact absurd hdepth (Nat.not_succ_le_zero _)
  | succ depth ih =>
    cases value with
    | array items =>
      have hle : nestingOfItems items ≤ depth := Nat.le_of_succ_le_succ hdepth
      exact readBack_array hdumpable fun value hmem =>
        ih (hdumpable.dumpable hmem) ((nesting_le_items hmem).trans hle)
    | object members =>
      have hle : nestingOfMembers members ≤ depth := Nat.le_of_succ_le_succ hdepth
      exact readBack_object hdumpable fun member hmem =>
        ih (hdumpable.dumpable hmem) ((nesting_le_members hmem).trans hle)
    | _ => exact readBack_scalar hdumpable (by simp) (by simp)

/-- `json.loads(json.dumps(value))` is the value. -/
theorem loads_dumps (layout : Layout) {value : Value} (hdumpable : Dumpable limits value)
    (hdepth : nesting value ≤ limits.nesting) : loads limits (dumps layout value) = .ok value := by
  obtain ⟨c, tail, hc, hopening⟩ := dumpsAt_head layout 0 hdumpable
  have hread := readBack layout hdumpable hdepth 0 [] (by intro c hc; cases hc)
  have hmark : (dumps layout value).head? ≠ some 0xFEFF := by
    rw [dumps, hc]
    exact fun h => hopening.2.2.2 (Option.some.inj h)
  rw [loads, if_neg hmark, decode_ok_iff]
  refine ⟨[], ?_, rfl⟩
  rw [dumps, hc, skipSpace_opening hopening, ← hc]
  simpa using hread

end Json
