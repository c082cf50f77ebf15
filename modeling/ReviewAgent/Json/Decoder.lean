import Mathlib.Data.Int.Notation
import Mathlib.Data.Nat.Notation

/-! Python's JSON decoder: values, the lexers of its leaves, and the recursive scanner. -/
namespace Json

/-- A character of a Python string: surrogates stand alone. -/
abbrev CodePoint := ℕ

abbrev Text := List CodePoint

def points (s : String) : Text := s.toList.map Char.toNat

/-- A decoded value. A float is kept as its literal. -/
inductive Value where
  | null
  | bool (b : Bool)
  | int (n : ℤ)
  | float (literal : Text)
  | str (s : Text)
  | array (items : List Value)
  | object (members : List (Text × Value))

/-- The value of a key in a `dict` built from members in order: a repeated key keeps the last. -/
def lookup (key : Text) (members : List (Text × Value)) : Option Value :=
  (members.reverse.find? fun member => member.1 = key).map Prod.snd

/-- Why a text is not decoded: `JSONDecodeError`, the `ValueError` of `int`, `RecursionError`. -/
inductive Failure where
  | syntaxError
  | integerTooLong (digits : ℕ)
  | nestedTooDeep
  deriving DecidableEq, Repr

/-- What the interpreter allows: arrays and objects inside each other, digits of an integer. -/
structure Limits where
  nesting : ℕ
  digits : ℕ

@[match_pattern] abbrev quote : CodePoint := 0x22
@[match_pattern] abbrev comma : CodePoint := 0x2C
@[match_pattern] abbrev minus : CodePoint := 0x2D
@[match_pattern] abbrev dot : CodePoint := 0x2E
@[match_pattern] abbrev zero : CodePoint := 0x30
@[match_pattern] abbrev colon : CodePoint := 0x3A
@[match_pattern] abbrev openBracket : CodePoint := 0x5B
@[match_pattern] abbrev backslash : CodePoint := 0x5C
@[match_pattern] abbrev closeBracket : CodePoint := 0x5D
@[match_pattern] abbrev letterU : CodePoint := 0x75
@[match_pattern] abbrev openBrace : CodePoint := 0x7B
@[match_pattern] abbrev closeBrace : CodePoint := 0x7D

/-- Space, tab, line feed, carriage return. -/
def isSpace (c : CodePoint) : Bool := c == 0x20 || c == 0x09 || c == 0x0A || c == 0x0D

def isDigit (c : CodePoint) : Bool := 0x30 ≤ c && c ≤ 0x39

def skipSpace (text : Text) : Text := text.dropWhile isSpace

/-- The value of a hexadecimal digit. -/
def hexDigit? (c : CodePoint) : Option ℕ :=
  if 0x30 ≤ c ∧ c ≤ 0x39 then some (c - 0x30)
  else if 0x61 ≤ c ∧ c ≤ 0x66 then some (c - 0x61 + 10)
  else if 0x41 ≤ c ∧ c ≤ 0x46 then some (c - 0x41 + 10)
  else none

/-- The four hexadecimal digits after `\u`. -/
def hex4? (a b c d : CodePoint) : Option CodePoint := do
  let a ← hexDigit? a
  let b ← hexDigit? b
  let c ← hexDigit? c
  let d ← hexDigit? d
  pure (((a * 16 + b) * 16 + c) * 16 + d)

def isHighSurrogate (c : CodePoint) : Bool := 0xD800 ≤ c && c ≤ 0xDBFF

def isLowSurrogate (c : CodePoint) : Bool := 0xDC00 ≤ c && c ≤ 0xDFFF

def joinSurrogates (high low : CodePoint) : CodePoint :=
  0x10000 + (high - 0xD800) * 0x400 + (low - 0xDC00)

/-- The escapes of one character. -/
def escape? : CodePoint → Option CodePoint
  | 0x22 => some 0x22
  | 0x5C => some 0x5C
  | 0x2F => some 0x2F
  | 0x62 => some 0x08
  | 0x66 => some 0x0C
  | 0x6E => some 0x0A
  | 0x72 => some 0x0D
  | 0x74 => some 0x09
  | _ => none

/-- A character of a string literal: as it is, or from a `\u` escape. -/
inductive StringUnit where
  | plain (c : CodePoint)
  | escaped (c : CodePoint)

/-- Two escapes that make a surrogate pair stand for one character. -/
def joinEscapes : List StringUnit → Text
  | .escaped high :: .escaped low :: units =>
    if isHighSurrogate high && isLowSurrogate low then
      joinSurrogates high low :: joinEscapes units
    else high :: joinEscapes (.escaped low :: units)
  | .plain c :: units | .escaped c :: units => c :: joinEscapes units
  | [] => []

/-- The characters up to the closing quote, in strict mode. -/
def scanUnits : Text → Except Failure (List StringUnit × Text)
  | [] => .error .syntaxError
  | quote :: rest => .ok ([], rest)
  | backslash :: letterU :: a :: b :: c :: d :: rest =>
    match hex4? a b c d with
    | none => .error .syntaxError
    | some e => (scanUnits rest).map fun r => (.escaped e :: r.1, r.2)
  | backslash :: e :: rest =>
    match escape? e with
    | none => .error .syntaxError
    | some c => (scanUnits rest).map fun r => (.plain c :: r.1, r.2)
  | c :: rest =>
    if c = backslash ∨ c < 0x20 then .error .syntaxError
    else (scanUnits rest).map fun r => (.plain c :: r.1, r.2)

/-- `scanstring`, from after the opening quote. -/
def scanString (text : Text) : Except Failure (Text × Text) :=
  (scanUnits text).map fun r => (joinEscapes r.1, r.2)

/-- A number as it is written. -/
inductive Number where
  | int (negative : Bool) (digits : Text)
  | float (literal : Text)

/-- The digits before the point: a zero stands alone. -/
def integerPart? : Text → Option (Text × Text)
  | [] => none
  | c :: rest =>
    if c = zero then some ([zero], rest)
    else if isDigit c then some (c :: rest.takeWhile isDigit, rest.dropWhile isDigit)
    else none

/-- The point and the digits after it, if a digit follows the point. -/
def fractionPart : Text → Text × Text
  | dot :: d :: rest =>
    if isDigit d then (dot :: d :: rest.takeWhile isDigit, rest.dropWhile isDigit)
    else ([], dot :: d :: rest)
  | text => ([], text)

/-- An optional sign. -/
def signPart : Text → Text × Text
  | c :: rest => if c = 0x2B ∨ c = minus then ([c], rest) else ([], c :: rest)
  | [] => ([], [])

/-- The exponent, if it has a digit. -/
def exponentPart : Text → Text × Text
  | e :: rest =>
    if e = 0x65 ∨ e = 0x45 then
      let (sign, rest') := signPart rest
      if (rest'.takeWhile isDigit).isEmpty then ([], e :: rest)
      else (e :: sign ++ rest'.takeWhile isDigit, rest'.dropWhile isDigit)
    else ([], e :: rest)
  | [] => ([], [])

/-- A number from its sign and its digits on. -/
def finishNumber (negative : Bool) (digits rest : Text) : Number × Text :=
  let fraction := fractionPart rest
  let exponent := exponentPart fraction.2
  if fraction.1.isEmpty && exponent.1.isEmpty then (.int negative digits, exponent.2)
  else
    (.float ((if negative then [minus] else []) ++ digits ++ fraction.1 ++ exponent.1), exponent.2)

/-- `_match_number`. -/
def matchNumber : Text → Option (Number × Text)
  | [] => none
  | c :: rest =>
    if c = minus then (integerPart? rest).map fun r => finishNumber true r.1 r.2
    else (integerPart? (c :: rest)).map fun r => finishNumber false r.1 r.2

/-- `int(numstr)`. -/
def intOfDigits (negative : Bool) (digits : Text) : ℤ :=
  let n : ℕ := digits.foldl (fun n d => 10 * n + (d - zero)) 0
  if negative then -n else n

/-- The constants, `NaN` and the infinities among them. -/
def keywords : List (Text × Value) :=
  [(points "null", .null), (points "true", .bool true), (points "false", .bool false),
    (points "NaN", .float (points "NaN")), (points "Infinity", .float (points "Infinity")),
    (points "-Infinity", .float (points "-Infinity"))]

/-- The constant a text begins with. -/
def keyword? (text : Text) : Option (Value × Text) :=
  (keywords.find? fun keyword => keyword.1.isPrefixOf text).map fun keyword =>
    (keyword.2, text.drop keyword.1.length)

/-- A value that is neither an array nor an object. -/
def scanScalar (limits : Limits) (text : Text) : Except Failure (Value × Text) :=
  if text.head? = some quote then (scanString text.tail).map fun r => (.str r.1, r.2)
  else
    match keyword? text with
    | some r => .ok r
    | none =>
      match matchNumber text with
      | none => .error .syntaxError
      | some (.float literal, rest) => .ok (.float literal, rest)
      | some (.int negative digits, rest) =>
        if limits.digits < digits.length then .error (.integerTooLong digits.length)
        else .ok (.int (intOfDigits negative digits), rest)

/-- The items up to the closing bracket, `fuel` of them at most. -/
def scanItems (scan : Text → Except Failure (Value × Text)) : ℕ → Text → Except Failure (List Value × Text)
  | 0, _ => .error .syntaxError
  | fuel + 1, text => do
    let (item, rest) ← scan text
    match skipSpace rest with
    | closeBracket :: rest' => pure ([item], rest')
    | comma :: rest' =>
      let (items, rest'') ← scanItems scan fuel (skipSpace rest')
      pure (item :: items, rest'')
    | _ => .error .syntaxError

/-- A key, its colon, and the text of its value. -/
def scanKey : Text → Except Failure (Text × Text)
  | quote :: rest => do
    let (key, rest') ← scanString rest
    match skipSpace rest' with
    | colon :: rest'' => pure (key, skipSpace rest'')
    | _ => .error .syntaxError
  | _ => .error .syntaxError

/-- The members up to the closing brace, `fuel` of them at most. -/
def scanMembers (scan : Text → Except Failure (Value × Text)) : ℕ → Text → Except Failure (List (Text × Value) × Text)
  | 0, _ => .error .syntaxError
  | fuel + 1, text => do
    let (key, valueText) ← scanKey text
    let (value, rest) ← scan valueText
    match skipSpace rest with
    | closeBrace :: rest' => pure ([(key, value)], rest')
    | comma :: rest' =>
      let (members, rest'') ← scanMembers scan fuel (skipSpace rest')
      pure ((key, value) :: members, rest'')
    | _ => .error .syntaxError

/-- `scan_once`, with what is left of the nesting limit. -/
def scanOnce (limits : Limits) : ℕ → Text → Except Failure (Value × Text)
  | depth, openBracket :: rest =>
    match depth with
    | 0 => .error .nestedTooDeep
    | depth + 1 =>
      match skipSpace rest with
      | closeBracket :: rest' => .ok (.array [], rest')
      | text =>
        (scanItems (fun t => scanOnce limits depth t) (text.length + 1) text).map fun r =>
          (.array r.1, r.2)
  | depth, openBrace :: rest =>
    match depth with
    | 0 => .error .nestedTooDeep
    | depth + 1 =>
      match skipSpace rest with
      | closeBrace :: rest' => .ok (.object [], rest')
      | text =>
        (scanMembers (fun t => scanOnce limits depth t) (text.length + 1) text).map fun r =>
          (.object r.1, r.2)
  | _, text => scanScalar limits text

/-- `JSONDecoder().raw_decode(text, start)`, for the text from `start` on. -/
def rawDecode (limits : Limits) (text : Text) : Except Failure (Value × Text) := scanOnce limits limits.nesting text

/-- `JSONDecoder().decode(text)`. -/
def decode (limits : Limits) (text : Text) : Except Failure Value := do
  let (value, rest) ← rawDecode limits (skipSpace text)
  if (skipSpace rest).isEmpty then pure value else .error .syntaxError

/-- `json.loads` of a string. -/
def loads (limits : Limits) (text : Text) : Except Failure Value :=
  if text.head? = some 0xFEFF then .error .syntaxError else decode limits text

end Json
