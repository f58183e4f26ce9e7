/-
License keys (`crates/license/src/lib.rs` and `bin/licensegen.rs`): signed
tokens that a product verifies offline.

`jsonwebtoken` is `Outside`; its payload is a JSON object, and which checks
it makes of the members is decided by the `Validation` that `verify` builds
(`refusal`). From `licensegen`'s arguments to `License::allows` the claims go
through the derived `Serialize` and `Deserialize` (`decode_encode`).
`verdict` says in the license's own terms what `verify` answers to a license
that was signed. Left out: printing and the exit codes of `licensegen`.
-/
import FerrKit.Auth.Jwt
import FerrKit.Lib.Serde
import FerrKit.Lib.Text

namespace FerrKit.Licensing

open FerrKit.Auth.Jwt (Algorithm ErrorKind Validation)
open Json Serde

def issuer : String := "ferrlabs-licensing"

inductive LicenseError
  | invalid
  | expired
  | notYetValid
  | wrongIssuer
  | wrongProduct
  | keyLoad (reason : String)
  | internal
  deriving DecidableEq

inductive LicenseKind
  | admin | customer
  deriving DecidableEq

inductive LicenseTier
  | free | pro | team | enterprise
  deriving DecidableEq

/-- `DateTime<Utc>`, in nanoseconds since 1970. -/
abbrev DateTime := {t : Int // IsChronoInstant t}

def DateTime.timestamp (t : DateTime) : Int := t.val / nanosPerSec

/-- `DateTime::from_timestamp(secs, 0)`. -/
def DateTime.fromTimestamp (secs : Int) : Option DateTime :=
  if h : chronoMinUtc ≤ secs ∧ secs ≤ chronoMaxUtc then
    some ⟨secs * nanosPerSec, by unfold IsChronoInstant nanosPerSec; omega⟩
  else none

structure Claims where
  sub : String
  iss : String
  aud : String
  exp : Int
  iat : Int
  nbf : Int
  kind : LicenseKind
  tier : LicenseTier
  org : Option String
  seats : Option UInt32
  features : List String
  deriving DecidableEq

structure License where
  id : String
  product : String
  org : Option String
  kind : LicenseKind
  tier : LicenseTier
  seats : Option UInt32
  features : List String
  issuedAt : DateTime
  expiresAt : DateTime
  deriving DecidableEq

def License.isAdmin (self : License) : Bool :=
  match self.kind with
  | .admin => true
  | .customer => false

def License.allows (self : License) (feature : String) : Bool :=
  self.isAdmin || self.features.any fun f => f = feature

def License.seatLimit (self : License) : Option UInt32 := if self.isAdmin then none else self.seats

structure LicenseSpec where
  id : String
  product : String
  org : Option String
  kind : LicenseKind
  tier : LicenseTier
  seats : Option UInt32
  features : List String
  issuedAt : DateTime
  expiresAt : DateTime

/-! ## Claims in JSON -/

/-- `rename_all = "snake_case"`. -/
def LicenseKind.text : LicenseKind → String
  | .admin => "admin"
  | .customer => "customer"

def LicenseTier.text : LicenseTier → String
  | .free => "free"
  | .pro => "pro"
  | .team => "team"
  | .enterprise => "enterprise"

def LicenseKind.decode (v : Value) : Option LicenseKind :=
  v.asStr.bind fun text => [LicenseKind.admin, .customer].find? fun k => k.text = text

def LicenseTier.decode (v : Value) : Option LicenseTier :=
  v.asStr.bind fun text => [LicenseTier.free, .pro, .team, .enterprise].find? fun t => t.text = text

def Claims.encode (c : Claims) : Map :=
  [("sub", .string c.sub), ("iss", .string c.iss), ("aud", .string c.aud), ("exp", ofInt c.exp), ("iat", ofInt c.iat),
    ("nbf", ofInt c.nbf), ("kind", .string c.kind.text), ("tier", .string c.tier.text)] ++
    (optionalMember "org" Value.string c.org ++ (optionalMember "seats" (fun n => ofInt n.toNat) c.seats ++
      [("features", .array (c.features.map Value.string))]))

def Claims.decode : Value → Option Claims :=
  Fields.struct
    ((Field.only { key := "sub", decode := Value.asStr }).and
      ((Field.only { key := "iss", decode := Value.asStr }).and
        ((Field.only { key := "aud", decode := Value.asStr }).and
          ((Field.only { key := "exp", decode := i64 }).and
            ((Field.only { key := "iat", decode := i64 }).and
              ((Field.only { key := "nbf", decode := i64 }).and
                ((Field.only { key := "kind", decode := LicenseKind.decode }).and
                  ((Field.only { key := "tier", decode := LicenseTier.decode }).and
                    ((Field.defaulted "org" (option Value.asStr) none).only.and
                      ((Field.defaulted "seats" (option u32) none).only.and
                        (Field.defaulted "features" (vec Value.asStr) []).only))))))))))
    fun (sub, iss, aud, exp, iat, nbf, kind, tier, org, seats, features) =>
      { sub, iss, aud, exp, iat, nbf, kind, tier, org, seats, features }

/-! ## Outside the crate -/

/-- A date of the payload: a number that is not negative. -/
def numericDate (payload : Map) (key : String) : Option Nat :=
  (membersOf key payload).head?.bind fun v => (i64 v).bind Int.toNat?

/-- A text of the payload. -/
def claimText (payload : Map) (key : String) : Option String := (membersOf key payload).head?.bind Value.asStr

/-- A required claim is there. -/
def present (payload : Map) : String → Bool
  | "exp" => (numericDate payload "exp").isSome
  | "nbf" => (numericDate payload "nbf").isSome
  | "iss" => (claimText payload "iss").isSome
  | "aud" => (claimText payload "aud").isSome
  | "sub" => (claimText payload "sub").isSome
  | _ => true

def missing (v : Validation) (payload : Map) : Option ErrorKind :=
  (v.requiredSpecClaims.find? fun claim => !present payload claim).map .missingRequiredClaim

def expired (v : Validation) (now : Nat) (payload : Map) : Option ErrorKind :=
  if v.validateExp ∧ ∃ exp ∈ numericDate payload "exp", exp + v.leeway < now then some .expiredSignature else none

def immature (v : Validation) (now : Nat) (payload : Map) : Option ErrorKind :=
  if v.validateNbf ∧ ∃ nbf ∈ numericDate payload "nbf", now + v.leeway < nbf then some .immatureSignature else none

/-- A text that is there has to be one of those that are set. -/
def mismatch (allowed : Option (List String)) (text : Option String) (e : ErrorKind) : Option ErrorKind :=
  match allowed, text with
  | some allowed, some text => if text ∈ allowed then none else some e
  | _, _ => none

/-- The first check that fails, after the signature. -/
def refusal (v : Validation) (now : Nat) (payload : Map) : Option ErrorKind :=
  (missing v payload).or <| (expired v now payload).or <| (immature v now payload).or <|
    (mismatch v.iss (claimText payload "iss") .invalidIssuer).or
      (mismatch v.aud (claimText payload "aud") .invalidAudience)

structure Outside (Enc Dec : Type) where
  /-- `EncodingKey::from_ed_pem` -/
  encodingKey : List UInt8 → Except String Enc
  /-- `DecodingKey::from_ed_pem` -/
  decodingKey : List UInt8 → Except String Dec
  /-- `encode`, with the algorithm of the header; the payload is `Claims.encode` -/
  encode : Algorithm → Claims → Enc → Except ErrorKind String
  /-- `decode::<Claims>`, at a time in seconds since 1970 -/
  decode : Nat → String → Dec → Validation → Except ErrorKind Claims

variable {Enc Dec : Type}

/-- What is relied on of `jsonwebtoken`, for a token it has encoded: no other
key than the public one of the signing key verifies it, and under that one
the payload is read and checked. -/
structure Outside.Documented (o : Outside Enc Dec) (publicKey : Enc → Dec) : Prop where
  signature : ∀ {alg signed enc token now key v}, o.encode alg signed enc = .ok token → alg ∈ v.algorithms →
    key ≠ publicKey enc → o.decode now token key v = .error .invalidSignature
  checks : ∀ {alg signed enc token now v claims}, o.encode alg signed enc = .ok token → alg ∈ v.algorithms →
    Claims.decode (.object signed.encode) = some claims → o.decode now token (publicKey enc) v =
      (match refusal v now signed.encode with | some e => .error e | none => .ok claims)

/-! ## Signing and verifying -/

section Crate

variable (o : Outside Enc Dec)

structure LicenseVerifier (Dec : Type) where
  decodingKey : Dec

structure LicenseSigner (Enc : Type) where
  encodingKey : Enc

def LicenseVerifier.fromEd25519Pem (publicPem : List UInt8) : Except LicenseError (LicenseVerifier Dec) :=
  match o.decodingKey publicPem with
  | .ok decodingKey => .ok ⟨decodingKey⟩
  | .error e => .error (.keyLoad ("public key: " ++ e))

def LicenseSigner.fromEd25519Pem (privatePem : List UInt8) : Except LicenseError (LicenseSigner Enc) :=
  match o.encodingKey privatePem with
  | .ok encodingKey => .ok ⟨encodingKey⟩
  | .error e => .error (.keyLoad ("private key: " ++ e))

/-- The claims of `sign`. -/
def LicenseSpec.claims (spec : LicenseSpec) : Claims where
  sub := spec.id
  iss := issuer
  aud := spec.product
  exp := spec.expiresAt.timestamp
  iat := spec.issuedAt.timestamp
  nbf := spec.issuedAt.timestamp
  kind := spec.kind
  tier := spec.tier
  org := spec.org
  seats := spec.seats
  features := spec.features

def LicenseSigner.sign (self : LicenseSigner Enc) (spec : LicenseSpec) : Except LicenseError String :=
  match o.encode .EdDSA spec.claims self.encodingKey with
  | .ok token => .ok token
  | .error _ => .error .internal

def mapJwtErr : ErrorKind → LicenseError
  | .expiredSignature => .expired
  | .immatureSignature => .notYetValid
  | .invalidIssuer => .wrongIssuer
  | .invalidAudience => .wrongProduct
  | _ => .invalid

/-- The `Validation` of `verify`. -/
def validation (product : String) : Validation where
  algorithms := [.EdDSA]
  iss := some [issuer]
  aud := some [product]
  validateExp := true
  validateNbf := true
  leeway := 0
  requiredSpecClaims := ["exp", "iss", "aud", "nbf"]

/-- The license of claims that were accepted. -/
def Claims.license (c : Claims) : Except LicenseError License :=
  match DateTime.fromTimestamp c.iat, DateTime.fromTimestamp c.exp with
  | some issuedAt, some expiresAt =>
    .ok ⟨c.sub, c.aud, c.org, c.kind, c.tier, c.seats, c.features, issuedAt, expiresAt⟩
  | _, _ => .error .invalid

def LicenseVerifier.verify (self : LicenseVerifier Dec) (now : Nat) (token product : String) :
    Except LicenseError License :=
  match o.decode now token self.decodingKey (validation product) with
  | .error e => .error (mapJwtErr e)
  | .ok claims => claims.license

end Crate

/-! ## `licensegen` -/

/-- What `licensegen` is called with, but for the key. -/
structure Args where
  id : String
  product : String
  kind : LicenseKind := .customer
  tier : LicenseTier := .pro
  org : Option String := none
  seats : Option UInt32 := none
  features : String := ""
  expiresInDays : Int

def parseFeatures (raw : String) : List String :=
  ((Text.splitStr ',' raw).map Text.trimWhitespace).filter fun f => !f.isEmpty

/-- `now + Duration::days(n)`; `none` where chrono panics. -/
def addDays (now : DateTime) (days : Int) : Option DateTime :=
  let t := now.val + days * 86400 * nanosPerSec
  if h : chronoMinUtc * nanosPerSec ≤ t ∧ t < (chronoMaxUtc + 1) * nanosPerSec then some ⟨t, h⟩ else none

def Args.spec (args : Args) (now : DateTime) : Option LicenseSpec :=
  (addDays now args.expiresInDays).map fun expiresAt =>
    { id := args.id, product := args.product, org := args.org, kind := args.kind, tier := args.tier
      seats := args.seats, features := parseFeatures args.features, issuedAt := now, expiresAt }

/-! ## Round trip of the claims -/

theorem kind_decode (kind : LicenseKind) : LicenseKind.decode (.string kind.text) = some kind := by
  cases kind <;> decide

theorem tier_decode (tier : LicenseTier) : LicenseTier.decode (.string tier.text) = some tier := by
  cases tier <;> decide

/-- Each member of the written claims, by its name. -/
theorem membersOf_encode (c : Claims) :
    membersOf "sub" c.encode = [.string c.sub] ∧ membersOf "iss" c.encode = [.string c.iss] ∧
      membersOf "aud" c.encode = [.string c.aud] ∧ membersOf "exp" c.encode = [ofInt c.exp] ∧
      membersOf "iat" c.encode = [ofInt c.iat] ∧ membersOf "nbf" c.encode = [ofInt c.nbf] ∧
      membersOf "kind" c.encode = [.string c.kind.text] ∧ membersOf "tier" c.encode = [.string c.tier.text] ∧
      membersOf "org" c.encode = (c.org.map Value.string).toList ∧
      membersOf "seats" c.encode = (c.seats.map fun n => ofInt n.toNat).toList ∧
      membersOf "features" c.encode = [.array (c.features.map Value.string)] := by
  simp [Claims.encode, membersOf_append, membersOf_cons, membersOf_nil, membersOf_optionalMember]

/-- The numbers of the claims are `i64`s. -/
structure Claims.Fits (c : Claims) : Prop where
  exp : -2 ^ 63 ≤ c.exp ∧ c.exp < 2 ^ 63
  iat : -2 ^ 63 ≤ c.iat ∧ c.iat < 2 ^ 63
  nbf : -2 ^ 63 ≤ c.nbf ∧ c.nbf < 2 ^ 63

theorem decode_encode {c : Claims} (h : c.Fits) : Claims.decode (.object c.encode) = some c := by
  obtain ⟨hsub, hiss, haud, hexp, hiat, hnbf, hkind, htier, horg, hseats, hfeatures⟩ := membersOf_encode c
  have org : (Field.defaulted "org" (option Value.asStr) none).only.ofMembers c.encode = some c.org :=
    ofMembers_optional rfl rfl horg (by simp) fun _ _ => rfl
  have seats : (Field.defaulted "seats" (option u32) none).only.ofMembers c.encode = some c.seats :=
    ofMembers_optional rfl rfl hseats (fun _ _ => by simp [ofInt]) fun n _ => u32_ofInt n
  have features : (Field.defaulted "features" (vec Value.asStr) []).only.ofMembers c.encode = some c.features :=
    (ofMembers_one (f := Field.defaulted "features" (vec Value.asStr) []) hfeatures).trans
      (vec_map Value.string (fun _ => rfl) c.features)
  rw [Claims.decode, Fields.struct, ofMembers_and.2 ⟨ofMembers_string hsub, ofMembers_and.2 ⟨ofMembers_string hiss,
    ofMembers_and.2 ⟨ofMembers_string haud, ofMembers_and.2
    ⟨ofMembers_required.2 ⟨_, hexp, i64_ofInt h.exp.1 h.exp.2⟩, ofMembers_and.2
    ⟨ofMembers_required.2 ⟨_, hiat, i64_ofInt h.iat.1 h.iat.2⟩, ofMembers_and.2
    ⟨ofMembers_required.2 ⟨_, hnbf, i64_ofInt h.nbf.1 h.nbf.2⟩, ofMembers_and.2
    ⟨ofMembers_required.2 ⟨_, hkind, kind_decode c.kind⟩, ofMembers_and.2
    ⟨ofMembers_required.2 ⟨_, htier, tier_decode c.tier⟩, ofMembers_and.2
    ⟨org, ofMembers_and.2 ⟨seats, features⟩⟩⟩⟩⟩⟩⟩⟩⟩⟩]
  rfl

/-! ## What `verify` answers -/

theorem timestamp_bounds (t : DateTime) : chronoMinUtc ≤ t.timestamp ∧ t.timestamp ≤ chronoMaxUtc := by
  obtain ⟨t, hlow, hhigh⟩ := t
  simp only [DateTime.timestamp, nanosPerSec] at hlow hhigh ⊢
  omega

/-- The instant without the part of a second. -/
def DateTime.wholeSeconds (t : DateTime) : DateTime :=
  ⟨t.timestamp * nanosPerSec, by
    have hbounds := timestamp_bounds t
    unfold IsChronoInstant nanosPerSec
    omega⟩

theorem fromTimestamp_timestamp (t : DateTime) : DateTime.fromTimestamp t.timestamp = some t.wholeSeconds := by
  rw [DateTime.fromTimestamp, dif_pos (timestamp_bounds t)]
  rfl

theorem claims_fits (spec : LicenseSpec) : spec.claims.Fits := by
  have hexp := timestamp_bounds spec.expiresAt
  have hiat := timestamp_bounds spec.issuedAt
  unfold chronoMinUtc chronoMaxUtc at hexp hiat
  refine ⟨?_, ?_, ?_⟩ <;> simp only [LicenseSpec.claims] <;> omega

/-- What was signed, as it is verified. -/
def LicenseSpec.license (spec : LicenseSpec) : License where
  id := spec.id
  product := spec.product
  org := spec.org
  kind := spec.kind
  tier := spec.tier
  seats := spec.seats
  features := spec.features
  issuedAt := spec.issuedAt.wholeSeconds
  expiresAt := spec.expiresAt.wholeSeconds

/-- The answer to a license that was signed, under a key that fits or not. A
date before 1970 is none. -/
def verdict (spec : LicenseSpec) (fits : Prop) [Decidable fits] (now : Nat) (product : String) :
    Except LicenseError License :=
  if ¬ fits ∨ spec.expiresAt.timestamp < 0 ∨ spec.issuedAt.timestamp < 0 then .error .invalid
  else if spec.expiresAt.timestamp < now then .error .expired
  else if now < spec.issuedAt.timestamp then .error .notYetValid
  else if product ≠ spec.product then .error .wrongProduct
  else .ok spec.license

section Checks

variable {c : Claims} (h : c.Fits) (now : Nat) (product : String)
include h

theorem numericDate_exp : numericDate c.encode "exp" = c.exp.toNat? := by
  obtain ⟨-, -, -, hexp, -⟩ := membersOf_encode c
  simp [numericDate, hexp, i64_ofInt h.exp.1 h.exp.2]

theorem numericDate_nbf : numericDate c.encode "nbf" = c.nbf.toNat? := by
  obtain ⟨-, -, -, -, -, hnbf, -⟩ := membersOf_encode c
  simp [numericDate, hnbf, i64_ofInt h.nbf.1 h.nbf.2]

theorem missing_encode : missing (validation product) c.encode =
    if c.exp < 0 then some (.missingRequiredClaim "exp")
    else if c.nbf < 0 then some (.missingRequiredClaim "nbf") else none := by
  obtain ⟨-, hiss, haud, -⟩ := membersOf_encode c
  have hdate : ∀ n : Int, n.toNat?.isSome = !decide (n < 0) := fun n => by cases n <;> simp [Int.toNat?]
  have hexp : present c.encode "exp" = !decide (c.exp < 0) := by rw [← hdate, ← numericDate_exp h]; rfl
  have hnbf : present c.encode "nbf" = !decide (c.nbf < 0) := by rw [← hdate, ← numericDate_nbf h]; rfl
  have hissuer : present c.encode "iss" = true := by simp [present, claimText, hiss, Value.asStr]
  have haudience : present c.encode "aud" = true := by simp [present, claimText, haud, Value.asStr]
  simp only [missing, validation, List.find?_cons, hexp, hnbf, hissuer, haudience, List.find?_nil, Bool.not_not]
  by_cases h0 : c.exp < 0 <;> by_cases h1 : c.nbf < 0 <;> simp [h0, h1]

/-- The checks of a payload whose dates can be read. -/
theorem refusal_encode (hiss : c.iss = issuer) (hexp : 0 ≤ c.exp) (hnbf : 0 ≤ c.nbf) :
    refusal (validation product) now c.encode =
      if c.exp < now then some .expiredSignature
      else if now < c.nbf then some .immatureSignature
      else if product ≠ c.aud then some .invalidAudience else none := by
  obtain ⟨-, hissMember, haudMember, -⟩ := membersOf_encode c
  have hread : ∀ n : Int, 0 ≤ n → n.toNat? = some n.toNat := fun n hn => by
    obtain ⟨m, rfl⟩ := Int.eq_ofNat_of_zero_le hn
    rfl
  have hdates : (c.exp.toNat < now ↔ c.exp < now) ∧ (now < c.nbf.toNat ↔ now < c.nbf) := by omega
  have hissText : claimText c.encode "iss" = some issuer := by simp [claimText, hissMember, Value.asStr, hiss]
  have haudText : claimText c.encode "aud" = some c.aud := by simp [claimText, haudMember, Value.asStr]
  have hpresent : missing (validation product) c.encode = none := by
    rw [missing_encode h, if_neg (by omega), if_neg (by omega)]
  rw [refusal, hpresent]
  simp only [expired, immature, numericDate_exp h, numericDate_nbf h, hread _ hexp, hread _ hnbf, hissText, haudText,
    mismatch, validation, Option.mem_def, Option.some.injEq, exists_eq_left', true_and, Nat.add_zero, hdates,
    List.mem_singleton, if_true, Option.none_or]
  by_cases h0 : c.exp < now <;> by_cases h1 : (now : Int) < c.nbf <;> by_cases h2 : product = c.aud <;>
    simp [h0, h1, h2, eq_comm (a := c.aud)]

end Checks

variable {o : Outside Enc Dec} {publicKey : Enc → Dec} {signer : LicenseSigner Enc} {verifier : LicenseVerifier Dec}
  {spec : LicenseSpec} {now : Nat} {token product : String}

theorem encode_of_sign (h : signer.sign o spec = .ok token) :
    o.encode .EdDSA spec.claims signer.encodingKey = .ok token := by
  unfold LicenseSigner.sign at h
  split at h
  · next heq =>
    cases h
    exact heq
  · cases h

theorem license_claims (spec : LicenseSpec) : spec.claims.license = .ok spec.license := by
  simp only [Claims.license, LicenseSpec.claims, fromTimestamp_timestamp]
  rfl

section Signed

variable (ho : o.Documented publicKey) (h : signer.sign o spec = .ok token)
include ho h

theorem verify_unsigned (hkey : verifier.decodingKey ≠ publicKey signer.encodingKey) :
    verifier.verify o now token product = .error .invalid := by
  rw [LicenseVerifier.verify, ho.signature (encode_of_sign h) (List.mem_singleton_self _) hkey]
  rfl

theorem decode_signed : o.decode now token (publicKey signer.encodingKey) (validation product) =
    (match refusal (validation product) now spec.claims.encode with | some e => .error e | none => .ok spec.claims) :=
  ho.checks (encode_of_sign h) (List.mem_singleton_self _) (decode_encode (claims_fits spec))

theorem verify_undated (hkey : verifier.decodingKey = publicKey signer.encodingKey)
    (hdates : spec.claims.exp < 0 ∨ spec.claims.nbf < 0) : verifier.verify o now token product = .error .invalid := by
  have hmissing : ∃ claim, missing (validation product) spec.claims.encode = some (.missingRequiredClaim claim) := by
    rw [missing_encode (claims_fits spec)]
    by_cases hexp : spec.claims.exp < 0
    · exact ⟨"exp", if_pos hexp⟩
    · exact ⟨"nbf", by rw [if_neg hexp, if_pos (hdates.resolve_left hexp)]⟩
  obtain ⟨claim, hclaim⟩ := hmissing
  rw [LicenseVerifier.verify, hkey, decode_signed ho h, refusal, hclaim]
  rfl

theorem verify_dated (hkey : verifier.decodingKey = publicKey signer.encodingKey) (hexp : 0 ≤ spec.claims.exp)
    (hnbf : 0 ≤ spec.claims.nbf) : verifier.verify o now token product =
      if spec.claims.exp < now then .error .expired
      else if now < spec.claims.nbf then .error .notYetValid
      else if product ≠ spec.claims.aud then .error .wrongProduct
      else .ok spec.license := by
  rw [LicenseVerifier.verify, hkey, decode_signed ho h, refusal_encode (claims_fits spec) now product rfl hexp hnbf]
  by_cases hlate : spec.claims.exp < now
  · rw [if_pos hlate, if_pos hlate]
    rfl
  · rw [if_neg hlate, if_neg hlate]
    by_cases hearly : now < spec.claims.nbf
    · rw [if_pos hearly, if_pos hearly]
      rfl
    · rw [if_neg hearly, if_neg hearly]
      by_cases hother : product ≠ spec.claims.aud
      · rw [if_pos hother, if_pos hother]
        rfl
      · rw [if_neg hother, if_neg hother]
        exact license_claims spec

/-- A license that was signed is answered by its verdict. -/
theorem verify_sign [DecidableEq Dec] : verifier.verify o now token product =
    verdict spec (verifier.decodingKey = publicKey signer.encodingKey) now product := by
  unfold verdict
  by_cases hkey : verifier.decodingKey = publicKey signer.encodingKey
  · by_cases hdates : spec.expiresAt.timestamp < 0 ∨ spec.issuedAt.timestamp < 0
    · rw [if_pos (.inr hdates)]
      exact verify_undated ho h hkey hdates
    · rw [if_neg fun hor => hor.elim (fun hne => hne hkey) hdates]
      rw [not_or, Int.not_lt, Int.not_lt] at hdates
      exact verify_dated ho h hkey hdates.1 hdates.2
  · rw [if_pos (.inl hkey)]
    exact verify_unsigned ho h hkey

end Signed

theorem verdict_ok {fits : Prop} [Decidable fits] {license : License} (h : verdict spec fits now product = .ok license) :
    license = spec.license ∧ product = spec.product := by
  unfold verdict at h
  split at h
  · cases h
  · split at h
    · cases h
    · split at h
      · cases h
      · split at h
        · cases h
        · next hproduct =>
          cases h
          exact ⟨rfl, not_not.1 hproduct⟩

/-! ## From `licensegen` to the product -/

theorem mem_parseFeatures {raw feature : String} : feature ∈ parseFeatures raw ↔
    feature ≠ "" ∧ ∃ part ∈ Text.splitStr ',' raw, Text.trimWhitespace part = feature := by
  simp [parseFeatures, and_comm]

theorem allows_iff {license : License} {feature : String} :
    license.allows feature = true ↔ license.kind = .admin ∨ feature ∈ license.features := by
  unfold License.allows License.isAdmin
  cases license.kind <;> simp

/-- **A license says at the product what it was minted with.** For whatever
`licensegen` is called with, under whatever key, product and time the token
is presented: `verify` answers with the verdict. A license it returns is for
that product, allows every feature if it is an admin license and otherwise
the non-empty parts of the list between the commas, trimmed, and has the seat
limit it was given, unless it is an admin license. -/
theorem license_round_trip [DecidableEq Dec] {args : Args} {minted : DateTime} (ho : o.Documented publicKey)
    (hspec : args.spec minted = some spec) (htoken : signer.sign o spec = .ok token) (verifier : LicenseVerifier Dec)
    (now : Nat) (product : String) :
    verifier.verify o now token product =
        verdict spec (verifier.decodingKey = publicKey signer.encodingKey) now product ∧
      ∀ license, verifier.verify o now token product = .ok license →
        license.product = product ∧ product = args.product ∧
        (∀ feature, license.allows feature = true ↔ args.kind = .admin ∨
          feature ≠ "" ∧ ∃ part ∈ Text.splitStr ',' args.features, Text.trimWhitespace part = feature) ∧
        license.seatLimit = if args.kind = .admin then none else args.seats := by
  have hverify : verifier.verify o now token product =
      verdict spec (verifier.decodingKey = publicKey signer.encodingKey) now product := verify_sign ho htoken
  refine ⟨hverify, fun license hok => ?_⟩
  obtain ⟨rfl, hproduct⟩ := verdict_ok (hverify.symm.trans hok)
  obtain ⟨expiresAt, -, rfl⟩ := Option.map_eq_some_iff.1 hspec
  refine ⟨hproduct.symm, hproduct, fun feature => ?_, ?_⟩
  · rw [allows_iff, ← mem_parseFeatures]
    rfl
  · unfold License.seatLimit License.isAdmin
    cases args.kind <;> simp [LicenseSpec.license]

/-! ## A customer's license -/

/-- A library that signs one set of claims with key 1. -/
def oneLicense (signed : Claims) : Outside Nat Nat where
  encodingKey _ := .ok 1
  decodingKey _ := .ok 1
  encode alg claims enc := if alg = .EdDSA ∧ claims = signed ∧ enc = 1 then .ok "token" else .error (.other "unused")
  decode now token key v :=
    if token = "token" ∧ key = 1 then
      match refusal v now signed.encode, Claims.decode (.object signed.encode) with
      | some e, _ => .error e
      | none, some claims => .ok claims
      | none, none => .error (.other "unused")
    else .error .invalidSignature

theorem oneLicense_documented (signed : Claims) : (oneLicense signed).Documented id where
  signature {alg claims enc token now key v} h _ hkey := by
    simp only [oneLicense] at h ⊢
    split at h
    · next hone =>
      obtain ⟨-, -, rfl⟩ := hone
      exact if_neg fun hboth => hkey hboth.2
    · cases h
  checks {alg claims enc token now v read} h _ hread := by
    simp only [oneLicense] at h ⊢
    split at h
    · next hone =>
      obtain ⟨-, rfl, rfl⟩ := hone
      cases h
      rw [if_pos ⟨rfl, rfl⟩, hread]
      cases refusal v now claims.encode <;> rfl
    · cases h

def acmeArgs : Args where
  id := "lic_acme_001"
  product := "ferrvault"
  tier := .team
  org := some "acme"
  seats := some 25
  features := "dynamic_secrets, audit_export ,"
  expiresInDays := 365

theorem minted_instant : IsChronoInstant 1500000000 := by
  unfold IsChronoInstant
  decide

/-- A second and a half after 1970. -/
def minted : DateTime := ⟨1500000000, minted_instant⟩

theorem license_round_trip_acme : ∃ spec license, acmeArgs.spec minted = some spec ∧
    (LicenseVerifier.mk 1).verify (oneLicense spec.claims) 1000 "token" "ferrvault" = .ok license ∧
    license.allows "audit_export" = true ∧ license.seatLimit = some 25 := by
  have hspec : ∃ spec, acmeArgs.spec minted = some spec ∧ verdict spec (1 = id 1) 1000 "ferrvault" = .ok spec.license :=
    ⟨_, rfl, rfl⟩
  obtain ⟨spec, hspec, hok⟩ := hspec
  have htoken : (LicenseSigner.mk 1).sign (oneLicense spec.claims) spec = .ok "token" := by
    simp [LicenseSigner.sign, oneLicense]
  obtain ⟨hverify, hlicense⟩ :=
    license_round_trip (oneLicense_documented spec.claims) hspec htoken ⟨1⟩ 1000 "ferrvault"
  obtain ⟨-, -, hallows, hseats⟩ := hlicense _ (hverify.trans hok)
  refine ⟨spec, spec.license, hspec, hverify.trans hok, (hallows "audit_export").2 (.inr ⟨by decide, ?_⟩), hseats⟩
  exact ⟨" audit_export ", by decide +kernel, by decide +kernel⟩

end FerrKit.Licensing
