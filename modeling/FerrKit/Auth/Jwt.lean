/-
Access tokens (`crates/auth/src/jwt.rs`): the config, `issue_token_for` and
`verify_token` with its loop over the keys.

The `jsonwebtoken` crate is `Outside`. Which of its checks apply is decided
by the `Validation` the config builds, so the checks are written out here
(`Validation.refusal`) and `Documented` says that `decode` makes them.
-/
import FerrKit.Lib.Duration
import FerrKit.Lib.Results

namespace FerrKit.Auth.Jwt

abbrev Uuid := BitVec 128

/-- `jsonwebtoken::Algorithm`; the crate uses one of them. -/
inductive Algorithm
  | EdDSA
  | other (name : String)
  deriving DecidableEq

/-- `jsonwebtoken::errors::ErrorKind`, as far as it is told apart. -/
inductive ErrorKind
  | invalidSignature
  | expiredSignature
  | immatureSignature
  | invalidIssuer
  | invalidAudience
  | missingRequiredClaim (claim : String)
  | other (text : String)
  deriving DecidableEq

inductive JwtError
  | invalid
  | expired
  | wrongIssuer
  | wrongAudience
  | notYetValid
  | verifyOnly
  | keyLoad (reason : String)
  | internal (e : ErrorKind)
  deriving DecidableEq

structure Claims where
  sub : Uuid
  iss : String
  exp : Int
  iat : Int
  aud : Option String
  nbf : Option Int
  org : Option Uuid
  deriving DecidableEq

/-! ## Outside the crate -/

/-- `Validation`, as far as the crate sets it. -/
structure Validation where
  algorithms : List Algorithm
  iss : Option (List String)
  aud : Option (List String)
  validateExp : Bool
  validateNbf : Bool
  leeway : Nat
  requiredSpecClaims : List String

namespace Validation

/-- The first required claim the token does not carry. -/
def missing (v : Validation) (claims : Claims) : Option ErrorKind :=
  -- `exp`, `iss` and `sub` are always there, and no other name is looked for
  let absent : String → Bool
    | "aud" => claims.aud.isNone
    | "nbf" => claims.nbf.isNone
    | _ => false
  (v.requiredSpecClaims.find? absent).map .missingRequiredClaim

def expired (v : Validation) (now : Nat) (claims : Claims) : Option ErrorKind :=
  if v.validateExp ∧ claims.exp + v.leeway < now then some .expiredSignature else none

def immature (v : Validation) (now : Nat) (claims : Claims) : Option ErrorKind :=
  match claims.nbf with
  | some nbf => if v.validateNbf ∧ (now : Int) + v.leeway < nbf then some .immatureSignature else none
  | none => none

def wrongIssuer (v : Validation) (claims : Claims) : Option ErrorKind :=
  match v.iss with
  | some issuers => if claims.iss ∈ issuers then none else some .invalidIssuer
  | none => none

/-- An `aud` is refused when none is configured; a missing one is not. -/
def wrongAudience (v : Validation) (claims : Claims) : Option ErrorKind :=
  match claims.aud, v.aud with
  | some _, none => some .invalidAudience
  | some aud, some auds => if aud ∈ auds then none else some .invalidAudience
  | none, _ => none

/-- The first check that fails, after the signature. -/
def refusal (v : Validation) (now : Nat) (claims : Claims) : Option ErrorKind :=
  (v.missing claims).or <| (v.expired now claims).or <| (v.immature now claims).or <|
    (v.wrongIssuer claims).or (v.wrongAudience claims)

end Validation

structure Outside (Enc Dec : Type) where
  /-- `EncodingKey::from_ed_pem` -/
  encodingKey : List UInt8 → Except String Enc
  /-- `DecodingKey::from_ed_pem` -/
  decodingKey : List UInt8 → Except String Dec
  /-- `encode`, with the algorithm of the header -/
  encode : Algorithm → Claims → Enc → Except ErrorKind String
  /-- `decode`, at a time in seconds since 1970 -/
  decode : Nat → String → Dec → Validation → Except ErrorKind Claims

variable {Enc Dec : Type}

/-- What is relied on of `jsonwebtoken`, for a token it has encoded: no other
key than the public one of the signing key verifies it, and under that one
the claims come back if no check fails. (A negative `exp` is not a number it
reads.) -/
structure Outside.Documented (o : Outside Enc Dec) (publicKey : Enc → Dec) : Prop where
  signature : ∀ {alg claims enc token now key v}, o.encode alg claims enc = .ok token → alg ∈ v.algorithms →
    key ≠ publicKey enc → o.decode now token key v = .error .invalidSignature
  checks : ∀ {alg claims enc token now v}, o.encode alg claims enc = .ok token → alg ∈ v.algorithms → 0 ≤ claims.exp →
    o.decode now token (publicKey enc) v = (match v.refusal now claims with | some e => .error e | none => .ok claims)

/-! ## The config -/

def i64Max : Int := 2 ^ 63 - 1

def defaultAccessTtl : Duration := .fromSecs (15 * 60)

/-- `i64::try_from(ttl.as_secs()).unwrap_or(i64::MAX)`. -/
def ttlSeconds (ttl : Duration) : Int := if (ttl.asSecs : Int) ≤ i64Max then ttl.asSecs else i64Max

/-- `JwtConfig`. Every way to build one puts in a decoding key. -/
structure JwtConfig (Enc Dec : Type) where
  encodingKey : Option Enc
  decodingKeys : List Dec
  issuer : String
  audience : Option String
  accessTtlSeconds : Int
  hasKey : decodingKeys ≠ []

namespace JwtConfig

variable (o : Outside Enc Dec)

def fromEd25519Pems (privatePem publicPem : List UInt8) (issuer : String) (accessTtl : Duration) :
    Except JwtError (JwtConfig Enc Dec) := do
  let encodingKey ← (o.encodingKey privatePem).mapError fun e => .keyLoad ("private key: " ++ e)
  let decodingKey ← (o.decodingKey publicPem).mapError fun e => .keyLoad ("public key: " ++ e)
  pure
    { encodingKey := some encodingKey, decodingKeys := [decodingKey], issuer, audience := none
      accessTtlSeconds := ttlSeconds accessTtl, hasKey := List.cons_ne_nil _ _ }

def verifierFromPublicPem (publicPem : List UInt8) (issuer : String) : Except JwtError (JwtConfig Enc Dec) := do
  let decodingKey ← (o.decodingKey publicPem).mapError fun e => .keyLoad ("public key: " ++ e)
  pure
    { encodingKey := none, decodingKeys := [decodingKey], issuer, audience := none
      accessTtlSeconds := ttlSeconds defaultAccessTtl, hasKey := List.cons_ne_nil _ _ }

def withAudience (self : JwtConfig Enc Dec) (audience : String) : JwtConfig Enc Dec :=
  { self with audience := some audience }

def withPreviousPublicPem (self : JwtConfig Enc Dec) (publicPem : List UInt8) : Except JwtError (JwtConfig Enc Dec) := do
  let decodingKey ← (o.decodingKey publicPem).mapError fun e => .keyLoad ("previous public key: " ++ e)
  pure { self with decodingKeys := self.decodingKeys ++ [decodingKey], hasKey := by simp }

def validation (self : JwtConfig Enc Dec) : Validation where
  algorithms := [.EdDSA]
  iss := some [self.issuer]
  aud := self.audience.map fun audience => [audience]
  validateExp := true
  validateNbf := true
  leeway := 0
  -- the audience, when there is one, is also required
  requiredSpecClaims :=
    match self.audience with
    | some _ => ["exp", "iss", "aud"]
    | none => ["exp", "iss"]

end JwtConfig

/-! ## Issuing -/

section Issue

variable (o : Outside Enc Dec) (now : Int) (config : JwtConfig Enc Dec) (userId : Uuid) (org : Option Uuid)

/-- The claims of a token issued at `now`. The sum is an `i64`. -/
def JwtConfig.claimsFor (audience : Option String) : Claims where
  sub := userId
  iss := config.issuer
  exp := (now + config.accessTtlSeconds).bmod (2 ^ 64)
  iat := now
  aud := audience
  nbf := none
  org

def issueTokenFor (audience : Option String) : Except JwtError String :=
  match config.encodingKey with
  | none => .error .verifyOnly
  | some encodingKey => (o.encode .EdDSA (config.claimsFor now userId org audience) encodingKey).mapError .internal

def issueToken : Except JwtError String := issueTokenFor o now config userId org config.audience

end Issue

/-! ## Verifying -/

def mapError : ErrorKind → JwtError
  | .expiredSignature => .expired
  | .immatureSignature => .notYetValid
  | .invalidIssuer => .wrongIssuer
  | .invalidAudience => .wrongAudience
  | .missingRequiredClaim claim => if claim = "aud" then .wrongAudience else .invalid
  | _ => .invalid

/-- The loop of `verify_token`, with `best_error`. -/
def tryKeys (decode : Dec → Except ErrorKind Claims) : List Dec → Option ErrorKind → Except (Option ErrorKind) Claims
  | [], bestError => .error bestError
  | key :: keys, bestError =>
    match decode key with
    | .ok claims => .ok claims
    | .error error =>
      let claimFailure := decide (error ≠ .invalidSignature)
      tryKeys decode keys (if bestError.isNone || claimFailure then some error else bestError)

theorem tryKeys_error_isSome {decode : Dec → Except ErrorKind Claims} : ∀ {keys : List Dec} {best best' : Option ErrorKind},
    best.isSome ∨ keys ≠ [] → tryKeys decode keys best = .error best' → best'.isSome
  | [], best, _, hsome, h => by
    cases h
    simpa using hsome
  | key :: keys, best, best', _, h => by
    unfold tryKeys at h
    split at h
    · cases h
    · next error _ =>
      refine tryKeys_error_isSome (.inl ?_) h
      cases best <;> simp [apply_ite]

def verifyToken (o : Outside Enc Dec) (now : Nat) (config : JwtConfig Enc Dec) (token : String) :
    Except JwtError Claims :=
  match h : tryKeys (fun key => o.decode now token key config.validation) config.decodingKeys none with
  | .ok claims => .ok claims
  | .error bestError => .error (mapError (bestError.get (tryKeys_error_isSome (.inr config.hasKey) h)))

end FerrKit.Auth.Jwt
