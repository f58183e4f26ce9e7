/-
The `Stripe-Signature` header (`crates/billing/src/webhooks.rs`): pairs
`key=value` between commas, with the timestamp `t` and any number of
signatures `v1`.
-/
import FerrKit.Lib.Results
import FerrKit.Lib.Text
import FerrKit.Lib.Wire

namespace FerrKit.Billing

open Wire

inductive SignatureError
  | missingHeader
  | malformedHeader
  | timestampOutOfTolerance
  | noMatch
  deriving DecidableEq, Repr

def SignatureError.display : SignatureError → String
  | .missingHeader => "Stripe-Signature header is absent"
  | .malformedHeader => "Stripe-Signature header is malformed"
  | .timestampOutOfTolerance => "signature timestamp is outside the allowed tolerance"
  | .noMatch => "no signature in the header matched the expected value"

def defaultToleranceSecs : Int := 300

structure ParsedHeader where
  timestamp : Int
  v1Signatures : List (List UInt8)

/-- One turn of the loop of `parse_signature_header`. A later `t` replaces an
earlier one. -/
def parsePair (acc : Option Int × List (List UInt8)) (pair : List Char) :
    Except SignatureError (Option Int × List (List UInt8)) :=
  match Text.splitOnce '=' pair with
  | none => .error .malformedHeader
  | some (key, value) =>
    let value := Text.trimWhitespace (String.ofList value)
    match Text.trimWhitespace (String.ofList key) with
    | "t" =>
      match parseI64 value with
      | some timestamp => .ok (some timestamp, acc.2)
      | none => .error .malformedHeader
    | "v1" =>
      match hexDecode value with
      | some signature => .ok (acc.1, acc.2 ++ [signature])
      | none => .error .malformedHeader
    | _ => .ok acc

def parseSignatureHeader (header : String) : Except SignatureError ParsedHeader :=
  match (header.toList.splitOn ',').foldlM parsePair (none, []) with
  | .error e => .error e
  | .ok (none, _) => .error .malformedHeader
  | .ok (some timestamp, v1Signatures) =>
    if v1Signatures.isEmpty then .error .malformedHeader else .ok ⟨timestamp, v1Signatures⟩

variable (hmac : List UInt8 → List UInt8 → List UInt8)

/-- What `expected_signature` feeds to the MAC, one `update` after the other. -/
def signedInput (timestamp : Int) (body : List UInt8) : List UInt8 :=
  [bytes (toString timestamp), bytes ".", body].flatten

def expectedSignature (secret : List UInt8) (timestamp : Int) (body : List UInt8) : List UInt8 :=
  hmac secret (signedInput timestamp body)

def verifySignature (payload : List UInt8) (signatureHeader : String) (secret : List UInt8) (now toleranceSecs : Int) :
    Except SignatureError Int := do
  let parsed ← parseSignatureHeader signatureHeader
  let tolerance := (max toleranceSecs 0).toNat
  if (now - parsed.timestamp).natAbs > tolerance then throw .timestampOutOfTolerance
  let expected := expectedSignature hmac secret parsed.timestamp payload
  if parsed.v1Signatures.any (· == expected) then pure parsed.timestamp else throw .noMatch

def verifyOptionalSignature (payload : List UInt8) (signatureHeader : Option String) (secret : List UInt8)
    (now toleranceSecs : Int) : Except SignatureError Int :=
  match signatureHeader with
  | none => .error .missingHeader
  | some header => verifySignature hmac payload header secret now toleranceSecs

/-- What an accepted header holds. -/
theorem verifySignature_ok {payload : List UInt8} {header : String} {secret : List UInt8} {now tolerance ts : Int}
    (h : verifySignature hmac payload header secret now tolerance = .ok ts) :
    ∃ parsed, parseSignatureHeader header = .ok parsed ∧ parsed.timestamp = ts ∧
      (now - ts).natAbs ≤ (max tolerance 0).toNat ∧ expectedSignature hmac secret ts payload ∈ parsed.v1Signatures := by
  simp only [verifySignature, Except.bind_ok_iff] at h
  obtain ⟨parsed, hparsed, h⟩ := h
  split at h
  · cases h
  · next htol =>
    split at h
    · next hmatch =>
      cases h
      exact ⟨parsed, hparsed, rfl, Nat.le_of_not_gt htol, by simpa using hmatch⟩
    · cases h

end FerrKit.Billing
