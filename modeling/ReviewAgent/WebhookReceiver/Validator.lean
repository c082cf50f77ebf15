import ReviewAgent.Json.Bytes
import ReviewAgent.Models.Webhook
import ReviewAgent.Python

/-! The signature of a webhook request over its raw body. -/
namespace ReviewAgent

open Json (Bytes)

def signaturePrefix : String := "sha256="

def digestHexLength : ℕ := 64

def signatureError : ExcClass := .other "SignatureError" .exception

def missingSignatureError : ExcClass := .other "MissingSignatureError" signatureError

def malformedSignatureError : ExcClass := .other "MalformedSignatureError" signatureError

def invalidSignatureError : ExcClass := .other "InvalidSignatureError" signatureError

/-- `[0-9a-fA-F]`. -/
def isHexChar (c : Char) : Bool := isLowerHex c || ('A' ≤ c && c ≤ 'F')

/-- `_is_hex`. -/
def isHex (value : List Char) : Bool := !value.isEmpty && value.all isHexChar

/-- HMAC-SHA256, its digest in lowercase hexadecimal. -/
structure HmacSha256 where
  hexdigest : String → Bytes → String
  hexdigest_shape : ∀ secret body, (hexdigest secret body).length = digestHexLength ∧
    (hexdigest secret body).toList.all isLowerHex

/-- The digest of `{"action": []}` under the secret `whsec-test`, for every request. -/
def HmacSha256.sample : HmacSha256 where
  hexdigest _ _ := "82de8be6b7d214d7a5d6d47d8c78bb5e6421929ca09d2459f1b6844425a8b36b"
  hexdigest_shape _ _ := by decide +kernel

/-- `verify_signature`. -/
def verifySignature (hmac : HmacSha256) (rawBody : Bytes) (signatureHeader : Option String)
    (secret : String) : Except Exc Unit :=
  match signatureHeader with
  | none => .error (.plain missingSignatureError "X-Hub-Signature-256 header is missing")
  | some header =>
    if !signaturePrefix.toList.isPrefixOf header.toList then
      .error (.plain malformedSignatureError
        s!"signature header must start with '{signaturePrefix}'")
    else
      let providedHex := header.toList.drop signaturePrefix.length
      if providedHex.length ≠ digestHexLength ∨ !isHex providedHex then
        .error (.plain malformedSignatureError
          s!"signature must be exactly {digestHexLength} hexadecimal characters")
      else if (hmac.hexdigest secret rawBody).toList ≠ providedHex.map Char.toLower then
        .error (.plain invalidSignatureError "signature does not match computed HMAC")
      else .ok ()

/-- The header is `sha256=` and these 64 hexadecimal characters. -/
def SignatureDigits (header : String) (digits : List Char) : Prop :=
  header.toList = signaturePrefix.toList ++ digits ∧ digits.length = digestHexLength ∧
    ∀ c ∈ digits, isHexChar c = true

/-- The same characters up to case. -/
def SameIgnoringCase (a b : List Char) : Prop := a.map Char.toLower = b.map Char.toLower

variable {hmac : HmacSha256} {body : Bytes} {header secret : String} {digits : List Char}

theorem toLower_of_isLowerHex {c : Char} (h : isLowerHex c = true) : c.toLower = c := by
  have hupper : ¬(c.val ≥ 'A'.val ∧ c.val ≤ 'Z'.val) := by
    simp only [isLowerHex, Char.le_def, Bool.or_eq_true, Bool.and_eq_true, decide_eq_true_eq,
      ge_iff_le, UInt32.le_iff_toNat_le] at h ⊢
    have h0 : '0'.val.toNat = 48 := rfl
    have h9 : '9'.val.toNat = 57 := rfl
    have ha : 'a'.val.toNat = 97 := rfl
    have hA : 'A'.val.toNat = 65 := rfl
    have hZ : 'Z'.val.toNat = 90 := rfl
    omega
  exact dif_neg hupper

theorem hexdigest_toLower (hmac : HmacSha256) (secret : String) (body : Bytes) :
    (hmac.hexdigest secret body).toList.map Char.toLower =
      (hmac.hexdigest secret body).toList := by
  have hall := (hmac.hexdigest_shape secret body).2
  rw [List.all_eq_true] at hall
  exact (List.map_congr_left fun c hc => toLower_of_isLowerHex (hall c hc)).trans (by simp)

/-- A header of another shape is malformed. -/
theorem verifySignature_malformed (h : ∀ digits, ¬ SignatureDigits header digits) :
    ∃ message, verifySignature hmac body (some header) secret =
      .error (.plain malformedSignatureError message) := by
  simp only [verifySignature]
  split
  · exact ⟨_, rfl⟩
  · rename_i hprefix
    have hheader : signaturePrefix.toList <+: header.toList := by simpa using hprefix
    obtain ⟨digits, hdigits⟩ := hheader
    rw [if_pos]
    · exact ⟨_, rfl⟩
    · by_contra hshape
      have hdrop : header.toList.drop signaturePrefix.length = digits := by
        simp [← hdigits, ← String.length_toList]
      simp only [hdrop, isHex, not_or, not_not, Bool.not_eq_true', Bool.not_eq_false] at hshape
      refine h digits ⟨hdigits.symm, hshape.1, ?_⟩
      simpa using (Bool.and_eq_true_iff.mp hshape.2).2

theorem verifySignature_digits (hmac : HmacSha256) (body : Bytes) (secret : String)
    (h : SignatureDigits header digits) :
    verifySignature hmac body (some header) secret =
      if (hmac.hexdigest secret body).toList ≠ digits.map Char.toLower then
        .error (.plain invalidSignatureError "signature does not match computed HMAC")
      else .ok () := by
  obtain ⟨hheader, hlength, hhex⟩ := h
  have hprefix : signaturePrefix.toList.isPrefixOf header.toList = true := by
    simp [hheader]
  have hdrop : header.toList.drop signaturePrefix.length = digits := by
    simp [hheader, ← String.length_toList]
  have hne : digits ≠ [] := by
    rintro rfl
    cases hlength
  have hisHex : isHex digits = true := by
    simpa [isHex, hne] using hhex
  simp only [verifySignature, hprefix, hdrop, hlength, hisHex]
  rfl

end ReviewAgent
