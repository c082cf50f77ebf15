import ReviewAgent.Json.Bytes
import ReviewAgent.Json.Reads
import ReviewAgent.Text

/-! What is left open of the interpreter and of pydantic, and the errors of `json.loads`. -/
namespace ReviewAgent

open Json (Bytes Limits Text Value lookup points)

/-- How deep documents may nest, how values and decoding errors are shown, and which values pass
for an integer. -/
structure Interpreter where
  nesting : ℕ
  repr : Value → String
  decodeErrorStr : Text → String
  laxInt : Value → Option ℤ

def Interpreter.limits (py : Interpreter) : Limits := ⟨py.nesting, intMaxStrDigits⟩

/-- An interpreter with room for 1000 arrays and objects inside each other. -/
def Interpreter.sample : Interpreter where
  nesting := 1000
  repr
    | .null => "None"
    | .bool b => if b then "True" else "False"
    | .int n => toString n
    | _ => "..."
  decodeErrorStr _ := "Expecting value: line 1 column 1 (char 0)"
  laxInt
    | .int n => some n
    | .bool b => some (if b then 1 else 0)
    | _ => none

def jsonDecodeError : ExcClass := .other "JSONDecodeError" .valueError

def unicodeDecodeError : ExcClass := .other "UnicodeDecodeError" (.other "UnicodeError" .valueError)

def recursionError : ExcClass := .other "RecursionError" .runtimeError

/-- What a decoder's failure on a text is raised as. -/
def decoderError (py : Interpreter) (text : Text) : Json.Failure → Exc
  | .syntaxError => .plain jsonDecodeError (py.decodeErrorStr text)
  | .integerTooLong digits => .plain .valueError
      (s!"Exceeds the limit ({intMaxStrDigits} digits) for integer string conversion: " ++
        s!"value has {digits} digits; use sys.set_int_max_str_digits() to increase the limit")
  | .nestedTooDeep => .plain recursionError "maximum recursion depth exceeded"

/-- A string without surrogates, which is all that a `str` field takes. -/
def strField : Value → Option String
  | .str s =>
    if s.any fun c => 0xD800 ≤ c && c ≤ 0xDFFF then none
    else some (String.ofList (s.map Char.ofNat))
  | _ => none

end ReviewAgent
