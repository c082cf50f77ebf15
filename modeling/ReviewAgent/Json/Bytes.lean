import Mathlib.Data.UInt
import ReviewAgent.Json.Decoder

/-! The text that `json.loads` finds in bytes: a detected encoding, surrogates let through. -/
namespace Json

abbrev Bytes := List UInt8

inductive Encoding where
  | utf8 | utf8Sig
  | utf16 | utf16le | utf16be
  | utf32 | utf32le | utf32be
  deriving DecidableEq, Repr

/-- `json.detect_encoding`. -/
def detectEncoding (b : Bytes) : Encoding :=
  if [0x00, 0x00, 0xFE, 0xFF].isPrefixOf b || [0xFF, 0xFE, 0x00, 0x00].isPrefixOf b then .utf32
  else if [0xFE, 0xFF].isPrefixOf b || [0xFF, 0xFE].isPrefixOf b then .utf16
  else if [0xEF, 0xBB, 0xBF].isPrefixOf b then .utf8Sig
  else
    match b with
    | b₀ :: b₁ :: b₂ :: b₃ :: _ =>
      if b₀ = 0 then if b₁ ≠ 0 then .utf16be else .utf32be
      else if b₁ = 0 then if b₂ ≠ 0 ∨ b₃ ≠ 0 then .utf16le else .utf32le
      else .utf8
    | [b₀, b₁] => if b₀ = 0 then .utf16be else if b₁ = 0 then .utf16le else .utf8
    | _ => .utf8

/-- A byte `10xxxxxx`, as its six bits. -/
def continuation? (b : UInt8) : Option ℕ :=
  if 0x80 ≤ b.toNat ∧ b.toNat ≤ 0xBF then some (b.toNat - 0x80) else none

/-- UTF-8 in the shortest form, encoded surrogates included. -/
def decodeUtf8 : Bytes → Option Text
  | [] => some []
  | a :: rest =>
    if a.toNat < 0x80 then (decodeUtf8 rest).map (a.toNat :: ·)
    else
      match rest with
      | [] => none
      | b :: rest₂ =>
        if 0xC2 ≤ a.toNat ∧ a.toNat ≤ 0xDF then do
          let y ← continuation? b
          (decodeUtf8 rest₂).map (((a.toNat - 0xC0) * 0x40 + y) :: ·)
        else
          match rest₂ with
          | [] => none
          | c :: rest₃ =>
            if 0xE0 ≤ a.toNat ∧ a.toNat ≤ 0xEF then do
              let y ← continuation? b
              let z ← continuation? c
              let point := ((a.toNat - 0xE0) * 0x40 + y) * 0x40 + z
              if point < 0x800 then none else (decodeUtf8 rest₃).map (point :: ·)
            else
              match rest₃ with
              | [] => none
              | d :: rest₄ =>
                if 0xF0 ≤ a.toNat ∧ a.toNat ≤ 0xF4 then do
                  let y ← continuation? b
                  let z ← continuation? c
                  let t ← continuation? d
                  let point := (((a.toNat - 0xF0) * 0x40 + y) * 0x40 + z) * 0x40 + t
                  if point < 0x10000 ∨ 0x10FFFF < point then none
                  else (decodeUtf8 rest₄).map (point :: ·)
                else none

/-- The 16-bit units of the bytes. -/
def units16 (bigEndian : Bool) : Bytes → Option (List ℕ)
  | [] => some []
  | [_] => none
  | a :: b :: rest =>
    let unit := if bigEndian then a.toNat * 0x100 + b.toNat else b.toNat * 0x100 + a.toNat
    (units16 bigEndian rest).map (unit :: ·)

/-- Surrogate pairs stand for one character, other surrogates for themselves. -/
def joinUnits : List ℕ → Text
  | high :: low :: units =>
    if isHighSurrogate high && isLowSurrogate low then joinSurrogates high low :: joinUnits units
    else high :: joinUnits (low :: units)
  | units => units

def decodeUtf16 (bigEndian : Bool) (b : Bytes) : Option Text := (units16 bigEndian b).map joinUnits

def decodeUtf32 (bigEndian : Bool) : Bytes → Option Text
  | [] => some []
  | a :: b :: c :: d :: rest =>
    let point :=
      if bigEndian then ((a.toNat * 0x100 + b.toNat) * 0x100 + c.toNat) * 0x100 + d.toNat
      else ((d.toNat * 0x100 + c.toNat) * 0x100 + b.toNat) * 0x100 + a.toNat
    if 0x10FFFF < point then none else (decodeUtf32 bigEndian rest).map (point :: ·)
  | _ => none

/-- `b.decode(encoding, "surrogatepass")`. A byte order mark settles the order, and is dropped. -/
def decodeBytes (encoding : Encoding) (b : Bytes) : Option Text :=
  match encoding with
  | .utf8 => decodeUtf8 b
  | .utf8Sig => decodeUtf8 (b.drop 3)
  | .utf16 => decodeUtf16 (b.head? = some 0xFE) (b.drop 2)
  | .utf16le => decodeUtf16 false b
  | .utf16be => decodeUtf16 true b
  | .utf32 => decodeUtf32 (b.head? = some 0x00) (b.drop 4)
  | .utf32le => decodeUtf32 false b
  | .utf32be => decodeUtf32 true b

/-- The text of a document sent as bytes. -/
def bodyText? (b : Bytes) : Option Text := decodeBytes (detectEncoding b) b

/-- The bytes of an ASCII string. -/
def asciiBytes (s : String) : Bytes := s.toList.map fun c => UInt8.ofNat c.toNat

end Json
