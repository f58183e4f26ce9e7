/-
Signed webhooks (`crates/webhooks/src/lib.rs`): the `sha256=<hex>` signature
of a body, and of a body with a timestamp. HMAC-SHA256 is a parameter, a
function of the secret and the bytes it is fed. Left out: the delivery
store.
-/
import FerrKit.Lib.Text
import FerrKit.Lib.Wire

namespace FerrKit.Webhooks

open Wire

inductive SignatureError
  | malformedHeader
  | mismatch
  deriving DecidableEq, Repr

def SignatureError.display : SignatureError → String
  | .malformedHeader => "malformed signature header"
  | .mismatch => "signature mismatch"

inductive TimestampedError
  | malformedTimestamp
  | stale
  | signature (e : SignatureError)
  deriving DecidableEq, Repr

def TimestampedError.display : TimestampedError → String
  | .malformedTimestamp => "malformed timestamp header"
  | .stale => "timestamp outside the accepted window"
  | .signature e => e.display

/-- HMAC-SHA256 of a secret and an input. -/
abbrev Hmac := List UInt8 → List UInt8 → List UInt8

variable (hmac : Hmac)

def compute (secret body : List UInt8) : List UInt8 := hmac secret body

def ctEq (a b : List UInt8) : Bool := if a.length ≠ b.length then false else a == b

def verifyHex (secret body : List UInt8) (signatureHex : String) : Except SignatureError Unit :=
  match hexDecode (Text.trimWhitespace signatureHex) with
  | none => .error .malformedHeader
  | some provided => if ctEq (compute hmac secret body) provided then .ok () else .error .mismatch

def verifyGithub (secret body : List UInt8) (header : String) : Except SignatureError Unit :=
  match (Text.trimWhitespace header).toList.dropPrefix? "sha256=".toList with
  | none => .error .malformedHeader
  | some hexPart => verifyHex hmac secret body (String.ofList hexPart)

def signGithub (secret body : List UInt8) : String := "sha256=" ++ hexEncode (compute hmac secret body)

def timestampedInput (timestamp : Int) (body : List UInt8) : List UInt8 := bytes (toString timestamp ++ ".") ++ body

def signTimestamped (secret : List UInt8) (timestamp : Int) (body : List UInt8) : String :=
  signGithub hmac secret (timestampedInput timestamp body)

def verifyTimestamped (secret body : List UInt8) (timestampHeader signatureHeader : String) (now maxSkewSecs : Int) :
    Except TimestampedError (List UInt8) :=
  match parseI64 (Text.trimWhitespace timestampHeader) with
  | none => .error .malformedTimestamp
  | some timestamp =>
    if (now - timestamp).natAbs > maxSkewSecs.natAbs then .error .stale
    else
      match verifyGithub hmac secret (timestampedInput timestamp body) signatureHeader with
      | .error e => .error (.signature e)
      | .ok () =>
        -- the header is decoded a second time, not quite in the way of `verify_github`
        match hexDecode (Text.trimStartMatches "sha256=" (Text.trimWhitespace signatureHeader)) with
        | none => .error (.signature .malformedHeader)
        | some signature => .ok signature

/-! ## What a header carries -/

/-- The signature in a header, as `verify_github` reads it. -/
def signatureOf (header : String) : Option (List UInt8) :=
  ((Text.trimWhitespace header).toList.dropPrefix? "sha256=".toList).bind fun hexPart =>
    hexDecode (Text.trimWhitespace (String.ofList hexPart))

theorem not_isWhitespace_of_mem_hexEncode {bs : List UInt8} {c : Char} (h : c ∈ (hexEncode bs).toList) :
    Text.isWhitespace c = false := by
  have hdigit : ∀ n : Fin 16, Text.isWhitespace (hexDigit n) = false := by decide
  simp only [hexEncode, String.toList_ofList, List.mem_flatMap, List.mem_cons, List.not_mem_nil, or_false] at h
  obtain ⟨b, -, rfl | rfl⟩ := h
  · exact hdigit ⟨b.toNat / 16, by have := b.toNat_lt; omega⟩
  · exact hdigit ⟨b.toNat % 16, by omega⟩

theorem ctEq_iff {a b : List UInt8} : ctEq a b = true ↔ a = b := by
  unfold ctEq
  split
  · next hlen =>
    constructor
    · intro h
      cases h
    · rintro rfl
      exact absurd rfl hlen
  · exact beq_iff_eq

theorem verifyGithub_ok_iff {secret body : List UInt8} {header : String} :
    verifyGithub hmac secret body header = .ok () ↔ signatureOf header = some (hmac secret body) := by
  unfold verifyGithub signatureOf
  cases (Text.trimWhitespace header).toList.dropPrefix? "sha256=".toList with
  | none => simp
  | some hexPart =>
    simp only [verifyHex, Option.bind_some]
    cases hexDecode (Text.trimWhitespace (String.ofList hexPart)) with
    | none => simp
    | some provided =>
      simp only [ctEq_iff, compute]
      by_cases h : hmac secret body = provided
      · simp [h]
      · simp [h, Ne.symm h]

theorem verifyTimestamped_ok {secret body : List UInt8} {timestampHeader header : String} {now skew : Int}
    {signature : List UInt8} (h : verifyTimestamped hmac secret body timestampHeader header now skew = .ok signature) :
    ∃ timestamp, parseI64 (Text.trimWhitespace timestampHeader) = some timestamp ∧
      (now - timestamp).natAbs ≤ skew.natAbs ∧
      signatureOf header = some (hmac secret (timestampedInput timestamp body)) := by
  unfold verifyTimestamped at h
  split at h
  · cases h
  · next timestamp hts =>
    split at h
    · cases h
    · next hskew =>
      split at h
      · cases h
      · next hgithub =>
        exact ⟨timestamp, hts, Nat.le_of_not_gt hskew, (verifyGithub_ok_iff hmac).1 hgithub⟩

end FerrKit.Webhooks
