import ReviewAgent.Agents.ResponseParsing
import ReviewAgent.Binary64
import ReviewAgent.Models.Review

/-! The judge's answer, from its raw text to a score. -/
namespace ReviewAgent

open Json (CodePoint Text Value lookup points)

def lineFeed : CodePoint := 0x0A

/-- The first alternative: an opening fence at a line's start, its tag, the space behind it. -/
def openingFence (atStart : Bool) (text : Text) : ℕ :=
  if atStart && fence.isPrefixOf text then
    let tag := if (points "json").isPrefixOf (text.drop 3) then 4 else 0
    3 + tag + ((text.drop (3 + tag)).takeWhile isWhitespace).length
  else 0

/-- The second alternative: the space before a closing fence, and the fence at a line's end. -/
def closingFence (text : Text) : ℕ :=
  let space := (text.takeWhile isWhitespace).length
  let rest := text.drop space
  if fence.isPrefixOf rest && ((rest.drop 3).isEmpty || (rest.drop 3).head? == some lineFeed) then
    space + 3
  else 0

/-- The length of the match of `_CODE_FENCE_RE` at a place, zero where there is none. -/
def fenceLength (atStart : Bool) (text : Text) : ℕ :=
  if openingFence atStart text = 0 then closingFence text else openingFence atStart text

/-- `_CODE_FENCE_RE.sub("", text)`, from a place on, with what is left of a match before it. -/
def subFences (atStart : Bool) (skip : ℕ) : Text → Text
  | [] => []
  | c :: rest =>
    let matched := if skip = 0 then fenceLength atStart (c :: rest) else skip
    if matched = 0 then c :: subFences (c == lineFeed) 0 rest
    else subFences (c == lineFeed) (matched - 1) rest

/-- `_strip_code_fence`. -/
def stripCodeFence (text : Text) : Text := strip (subFences true 0 (strip text))

/-- `Py_ISSPACE`. -/
def isAsciiSpace (c : CodePoint) : Bool := c == 0x20 || (0x09 ≤ c && c ≤ 0x0D)

/-- A character as `float` sees it: digits of other scripts are digits, other space is space. -/
def numeralChar (c : CodePoint) : CodePoint :=
  if c < 0x7F then c
  else if isWhitespace c then 0x20
  else
    match decimalDigit? (Char.ofNat c) with
    | some d => Json.zero + d
    | none => 0x3F

/-- Without its underscores, if each of them stands between two digits. -/
def dropUnderscores (afterDigit : Bool) : Text → Option Text
  | [] => some []
  | c :: rest =>
    if c = 0x5F then
      if afterDigit && rest.head?.any Json.isDigit then dropUnderscores false rest else none
    else (dropUnderscores (Json.isDigit c) rest).map (c :: ·)

/-- `10 ** exponent` for a written exponent, which may be missing. -/
def powerOfTen? : Text → Option ℚ
  | [] => some 1
  | e :: rest =>
    let (sign, digits) := Json.signPart rest
    if (e = 0x65 ∨ e = 0x45) ∧ digits ≠ [] ∧ digits.all Json.isDigit then
      some (10 ^ Json.intOfDigits (sign == [Json.minus]) digits)
    else none

/-- A decimal number without its sign. -/
def decimal? (text : Text) : Option ℚ :=
  let whole := text.takeWhile Json.isDigit
  let point := text.dropWhile Json.isDigit
  let afterPoint := if point.head? = some Json.dot then point.tail else []
  let fraction := afterPoint.takeWhile Json.isDigit
  let exponent :=
    if point.head? = some Json.dot then afterPoint.dropWhile Json.isDigit else point
  if whole = [] ∧ fraction = [] then none
  else (powerOfTen? exponent).map fun power =>
    Json.intOfDigits false (whole ++ fraction) / 10 ^ fraction.length * power

/-- What `float` finds in a text: a number, or a word for an infinity or for NaN. -/
inductive Numeral where
  | number (q : ℚ)
  | word (value : Floating)

/-- The words, in lower case. -/
def numeralWord? (negative : Bool) (word : Text) : Option Floating :=
  if word = points "nan" then some .nan
  else if word = points "inf" ∨ word = points "infinity" then
    some (if negative then .negInf else .posInf)
  else none

def lowerCase (c : CodePoint) : CodePoint := if 0x41 ≤ c ∧ c ≤ 0x5A then c + 0x20 else c

/-- What a string is read as; `none` is `float`'s `ValueError`. -/
def numeral? (text : Text) : Option Numeral := do
  let ascii := ((text.map numeralChar).dropWhile isAsciiSpace).rdropWhile isAsciiSpace
  let (sign, unsigned) := Json.signPart (← dropUnderscores false ascii)
  let negative := sign == [Json.minus]
  match decimal? unsigned with
  | some q => pure (.number (if negative then -q else q))
  | none => (numeralWord? negative (unsigned.map lowerCase)).map .word

/-- The float nearest to what is written. -/
def Numeral.toFloat : Numeral → Floating
  | number q => Binary64.ofRat q
  | word value => value

/-- `float(text)`. -/
def floatOfText (py : Interpreter) (text : Text) : Except Exc Floating :=
  match numeral? text with
  | some numeral => .ok numeral.toFloat
  | none => .error (.plain .valueError
      s!"could not convert string to float: {py.repr (.str text)}")

def floatTypeError (typeName : String) : Exc :=
  .plain .typeError s!"float() argument must be a string or a real number, not '{typeName}'"

/-- `float(value)`, of a decoded value. A float's literal is read when it is decoded. -/
def floatOf (py : Interpreter) : Value → Except Exc Floating
  | .bool b => .ok (.finite (if b then 1 else 0))
  | .int n =>
    if 2 ^ 1024 ≤ |Binary64.nearest n| then
      .error (.plain .overflowError "int too large to convert to float")
    else .ok (.finite (Binary64.nearest n))
  | .float literal => floatOfText py literal
  | .str text => floatOfText py text
  | .null => .error (floatTypeError "NoneType")
  | .array _ => .error (floatTypeError "list")
  | .object _ => .error (floatTypeError "dict")

/-- `_clamp_score`: the thousandths of the `Decimal` that `quantize` returns. The bounds stand in
front, so what they leave is a number. -/
def clampScore (value : Floating) : Except Exc ℤ :=
  match Floating.max 0 (Floating.min (.finite 1) value) with
  | .finite bounded =>
    let quantized := Rounding.toPlaces 3 (Binary64.shortest bounded)
    if 10 ^ contextPrecision ≤ |quantized| then .error invalidOperation else .ok quantized
  | _ => .error invalidOperation

/-- A score, in thousandths, and the judge's explanation of it. -/
structure JudgeVerdict where
  score : ℤ
  rationale : Text

def judgeParseError : ExcClass := .other "JudgeParseError" .exception

/-- `payload.get(key)`, where a missing key and `null` are both `None`. -/
def getMember (key : String) (members : List (Text × Value)) : Value :=
  (lookup (points key) members).getD .null

/-- What is caught around the conversion of a score. -/
def scoreErrors : List ExcClass := [.typeError, .valueError, invalidOperation.cls]

/-- The verdict of a decoded object. -/
def verdictOf (py : Interpreter) (rawText : Text) (members : List (Text × Value)) :
    Except Exc JudgeVerdict :=
  match getMember "score" members, getMember "rationale" members with
  | .null, _ => .error missing
  | rawScore, .str rationale =>
    if (strip rationale).isEmpty then .error missing
    else
      match floatOf py rawScore >>= clampScore with
      | .ok score => .ok ⟨score, strip rationale⟩
      | .error e =>
        if e.isInstanceOfAny scoreErrors then
          .error (.plain judgeParseError
            s!"judge response 'score' is not a number: {py.repr (.str rawText)}")
        else .error e
  | _, _ => .error missing
where
  missing : Exc := .plain judgeParseError
    s!"judge response missing 'score'/'rationale': {py.repr (.str rawText)}"

def parseJudgeResponse (py : Interpreter) (rawText : Text) : Except Exc JudgeVerdict :=
  let cleaned := stripCodeFence rawText
  match Json.loads py.limits cleaned with
  | .error failure =>
    let e := decoderError py cleaned failure
    if e.isInstance jsonDecodeError then
      .error (.plain judgeParseError
        s!"judge response is not valid JSON: {py.repr (.str rawText)}")
    else .error e
  | .ok (.object members) => verdictOf py rawText members
  | .ok _ => .error (.plain judgeParseError
      s!"judge response JSON is not an object: {py.repr (.str rawText)}")

end ReviewAgent
