import Mathlib.Data.List.Infix
import Mathlib.Data.Nat.Notation
import ReviewAgent.Python

/-! The operations on Python strings that the code relies on. -/
namespace ReviewAgent

/-- `needle in text`. -/
def strIn (needle text : String) : Bool := decide (needle.toList <:+: text.toList)

theorem strIn_append (before needle after : String) :
    strIn needle (before ++ needle ++ after) = true := by
  simp only [strIn, String.toList_append, decide_eq_true_eq]
  exact List.infix_append _ _ _

theorem length_append_append (a b c : String) :
    (a ++ b ++ c).length = a.length + b.length + c.length := by
  rw [String.length_append, String.length_append]

/-- The code points at which `str.splitlines` ends a line; CR LF counts as one end. -/
def lineBoundaries : List ℕ :=
  [0x0A, 0x0B, 0x0C, 0x0D, 0x1C, 0x1D, 0x1E, 0x85, 0x2028, 0x2029]

def isLineBoundary (c : Char) : Bool := lineBoundaries.contains c.toNat

/-- `str.splitlines()`. -/
def splitLines : List Char → List (List Char)
  | [] => []
  | '\r' :: '\n' :: cs => [] :: splitLines cs
  | c :: cs =>
    if isLineBoundary c then [] :: splitLines cs
    else match splitLines cs with
      | [] => [[c]]
      | line :: lines => (c :: line) :: lines

/-- The zero digits of Unicode's decimal systems; the other nine digits follow each of them. -/
def decimalZeros : List ℕ :=
  [0x30, 0x660, 0x6F0, 0x7C0, 0x966, 0x9E6, 0xA66, 0xAE6, 0xB66, 0xBE6, 0xC66, 0xCE6, 0xD66,
    0xDE6, 0xE50, 0xED0, 0xF20, 0x1040, 0x1090, 0x17E0, 0x1810, 0x1946, 0x19D0, 0x1A80, 0x1A90,
    0x1B50, 0x1BB0, 0x1C40, 0x1C50, 0xA620, 0xA8D0, 0xA900, 0xA9D0, 0xA9F0, 0xAA50, 0xABF0,
    0xFF10, 0x104A0, 0x10D30, 0x11066, 0x110F0, 0x11136, 0x111D0, 0x112F0, 0x11450, 0x114D0,
    0x11650, 0x116C0, 0x11730, 0x118E0, 0x11950, 0x11C50, 0x11D50, 0x11DA0, 0x11F50, 0x16A60,
    0x16AC0, 0x16B50, 0x1D7CE, 0x1D7D8, 0x1D7E2, 0x1D7EC, 0x1D7F6, 0x1E140, 0x1E2F0, 0x1E4F0,
    0x1E950, 0x1FBF0]

/-- The value of a character that `\d` matches. -/
def decimalDigit? (c : Char) : Option ℕ :=
  (decimalZeros.find? fun start => start ≤ c.toNat && c.toNat < start + 10).map fun start =>
    c.toNat - start

/-- The longest run of decimal digits in front, with what follows it. -/
def spanDigits : List Char → List ℕ × List Char
  | [] => ([], [])
  | c :: cs =>
    match decimalDigit? c with
    | none => ([], c :: cs)
    | some d => (d :: (spanDigits cs).1, (spanDigits cs).2)

/-- `sys.get_int_max_str_digits()`. -/
def intMaxStrDigits : ℕ := 4300

/-- `int` of a string of decimal digits. -/
def intOfDigits (digits : List ℕ) : Except Exc ℕ :=
  if intMaxStrDigits < digits.length then
    .error (.plain .valueError
      (s!"Exceeds the limit ({intMaxStrDigits} digits) for integer string conversion: " ++
        s!"value has {digits.length} digits; " ++
        "use sys.set_int_max_str_digits() to increase the limit"))
  else .ok (digits.foldl (fun n d => 10 * n + d) 0)

/-- What `str.splitlines` cuts off a text behind its first line. -/
def strays (text : List Char) : List (List Char) := (splitLines text).tail

/-- The first line of a text. -/
def firstLine (text : List Char) : List Char := (splitLines text).headD []

theorem splitLines_cons {c : Char} (hc : isLineBoundary c = false) (text : List Char) :
    splitLines (c :: text) = (c :: firstLine text) :: strays text := by
  have hr : c ≠ '\r' := by
    rintro rfl
    exact absurd hc (by decide)
  unfold splitLines firstLine strays
  split
  · contradiction
  · rename_i heq
    cases heq
    exact absurd rfl hr
  · rename_i heq
    cases heq
    rw [if_neg (by simp [hc])]
    split
    · rename_i hnil
      rw [hnil]
      rfl
    · rename_i line lines hlines
      rw [hlines]
      rfl

theorem splitLines_append {front : List Char} (hne : front ≠ [])
    (hfront : ∀ c ∈ front, isLineBoundary c = false) (text : List Char) :
    splitLines (front ++ text) = (front ++ firstLine text) :: strays text := by
  induction front with
  | nil => exact absurd rfl hne
  | cons c front ih =>
    have hc := hfront c (by simp)
    rw [List.cons_append, splitLines_cons hc]
    cases front with
    | nil => rfl
    | cons d front =>
      have hrest := ih (by simp) (fun x hx => hfront x (by simp [hx]))
      rw [firstLine, strays, hrest]
      rfl

theorem splitLines_ne_nil (c : Char) (text : List Char) : splitLines (c :: text) ≠ [] := by
  cases hc : isLineBoundary c with
  | false => simp [splitLines_cons hc]
  | true =>
    unfold splitLines
    split
    · contradiction
    · simp
    · rename_i heq
      cases heq
      simp [hc]

/-- A line feed ends what stands in front of it, or the empty line behind its last end. -/
theorem splitLines_lineFeed {front : List Char} (hfront : '\n' ∉ front) (rest : List Char) :
    ∃ blank, (∀ line ∈ blank, line = []) ∧
      splitLines (front ++ '\n' :: rest) = splitLines front ++ blank ++ splitLines rest := by
  have hfeed : splitLines ('\n' :: rest) = [] :: splitLines rest := by
    rw [splitLines, if_pos (by decide)]
    simp
  induction front with
  | nil => exact ⟨[[]], by simp, hfeed⟩
  | cons c cs ih =>
    obtain ⟨blank, hblank, ih⟩ := ih (fun h => hfront (by simp [h]))
    by_cases hc : isLineBoundary c = true
    · by_cases hcr : c = '\r' ∧ cs = []
      · obtain ⟨rfl, rfl⟩ := hcr
        exact ⟨[], by simp, by simp [splitLines, show isLineBoundary '\r' = true by decide]⟩
      · have hends : ∀ tail, (c = '\r' → ∀ more, tail ≠ '\n' :: more) →
            splitLines (c :: tail) = [] :: splitLines tail := by
          intro tail htail
          rw [splitLines, if_pos hc]
          intro more h
          exact htail h more
        refine ⟨blank, hblank, ?_⟩
        rw [List.cons_append, hends, hends, ih]
        · simp
        · rintro - more rfl
          exact hfront (by simp)
        · rintro rfl more h
          cases cs with
          | nil => exact hcr ⟨rfl, rfl⟩
          | cons d cs =>
            cases h
            exact hfront (by simp)
    · rw [Bool.not_eq_true] at hc
      rw [List.cons_append, splitLines_cons hc, splitLines_cons hc]
      cases cs with
      | nil => exact ⟨[], by simp, by simp [firstLine, strays, hfeed, splitLines]⟩
      | cons d cs =>
        refine ⟨blank, hblank, ?_⟩
        obtain ⟨line, lines, hlines⟩ := List.exists_cons_of_ne_nil (splitLines_ne_nil d cs)
        simp [firstLine, strays, hlines,
          show splitLines (d :: (cs ++ '\n' :: rest)) = _ from ih]

theorem decimalDigit?_of_isDigit {c : Char} (h : c.isDigit = true) :
    decimalDigit? c = some (c.toNat - '0'.toNat) := by
  simp only [Char.isDigit, Bool.and_eq_true, decide_eq_true_eq] at h
  have hlo : 48 ≤ c.toNat := h.1
  have hhi : c.toNat ≤ 57 := h.2
  have hfind : decimalZeros.find? (fun start => start ≤ c.toNat && c.toNat < start + 10) =
      some 0x30 := by
    unfold decimalZeros
    rw [List.find?_cons_of_pos]
    simp only [Bool.and_eq_true, decide_eq_true_eq]
    omega
  rw [decimalDigit?, hfind]
  rfl

theorem spanDigits_append {digits : List Char} (hdigits : ∀ c ∈ digits, c.isDigit = true)
    {rest : List Char} (hrest : ∀ c ∈ rest.head?, decimalDigit? c = none) :
    spanDigits (digits ++ rest) = (digits.map fun c => c.toNat - '0'.toNat, rest) := by
  induction digits with
  | nil =>
    cases rest with
    | nil => rfl
    | cons c rest =>
      rw [List.nil_append, spanDigits, hrest c rfl]
      rfl
  | cons c digits ih =>
    have hc := decimalDigit?_of_isDigit (hdigits c (by simp))
    have ih := ih fun d hd => hdigits d (by simp [hd])
    rw [List.cons_append, spanDigits, hc, ih]
    rfl

/-- The decimal digits of a number, as the values of its characters. -/
def digitValues (n : ℕ) : List ℕ := (Nat.toDigits 10 n).map fun c => c.toNat - '0'.toNat

theorem spanDigits_toDigits (n : ℕ) {rest : List Char}
    (hrest : ∀ c ∈ rest.head?, decimalDigit? c = none) :
    spanDigits (Nat.toDigits 10 n ++ rest) = (digitValues n, rest) := by
  apply spanDigits_append _ hrest
  intro c hc
  exact Nat.isDigit_of_mem_toDigits (by decide) (by decide) hc

theorem digitValues_ne_nil (n : ℕ) : digitValues n ≠ [] := by
  simp [digitValues, Nat.toDigits_ne_nil]

/-- The number that some digits write. -/
def numberOf (digits : List ℕ) : ℕ := digits.foldl (fun n d => 10 * n + d) 0

theorem numberOf_digitValues (n : ℕ) : numberOf (digitValues n) = n := by
  rw [numberOf, digitValues, List.foldl_map, ← Nat.ofDigitChars_eq_foldl,
    Nat.ofDigitChars_ten_toDigits]

end ReviewAgent
