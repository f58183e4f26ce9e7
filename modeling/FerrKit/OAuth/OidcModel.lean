/-
Login with an OpenID Connect provider (`crates/oauth/src/oidc.rs`): the
configured issuer, the discovery document, the client built from it and the
exchange of a code for a checked id_token.

The `url`, `jsonwebtoken` and `serde_json` crates are `Outside`, the two
endpoints of the provider `Provider`; `exchange_code` is a function of what
they answer, of the clock and of the JWKS cache, and returns the cache with
its result. `authorize` is in `Authorize`. Left out: `discover`, which
fetches the document `check_metadata` is given, and the conversion to HTTP
errors.
-/
import FerrKit.Http.SafeGet
import FerrKit.Lib.Json
import FerrKit.Lib.Text

namespace FerrKit.OAuth

open FerrKit.Http (SafeResponse)

def jwksMinRefresh : Duration := .fromSecs 60

def jwksMaxAge : Duration := .fromSecs 3600

def clockLeewaySecs : Nat := 60

def defaultScope : String := "openid email profile"

def errorBodyChars : Nat := 300

inductive OidcError
  | issuerUrl (raw : String)
  | discovery (issuer reason : String)
  | issuerMismatch (expected found : String)
  | endpoint (name value : String)
  | noUsableAlgorithm
  | tokenRequest (reason : String)
  | tokenEndpoint (status : Nat) (body : String)
  | missingIdToken
  | unexpectedAlgorithm (alg : String)
  | unknownKey (kid : String)
  | jwks (issuer reason : String)
  | idToken (reason : String)
  | nonceMismatch
  | azpMismatch

def OidcError.display : OidcError → String
  | .issuerUrl raw => "issuer must be an absolute https url with no query or fragment: " ++ raw
  | .discovery issuer reason => "discovery for " ++ issuer ++ " failed: " ++ reason
  | .issuerMismatch expected found => "discovery document names issuer " ++ found ++ ", expected " ++ expected
  | .endpoint name value => name ++ " in the discovery document is not an https url: " ++ value
  | .noUsableAlgorithm => "issuer advertises no id_token signing algorithm this build accepts"
  | .tokenRequest reason => "token request failed: " ++ reason
  | .tokenEndpoint status body => "token endpoint returned " ++ toString status ++ ": " ++ body
  | .missingIdToken => "token response carried no id_token"
  | .unexpectedAlgorithm alg => "id_token is signed with " ++ alg ++ ", which the issuer does not advertise"
  | .unknownKey kid => "the issuer's jwks has no key " ++ kid
  | .jwks issuer reason => "jwks fetch for " ++ issuer ++ " failed: " ++ reason
  | .idToken reason => "id_token rejected: " ++ reason
  | .nonceMismatch => "id_token nonce does not match this login attempt"
  | .azpMismatch => "id_token has several audiences and no azp naming this client"

/-! ## Outside the crate -/

/-- `jsonwebtoken::Algorithm`. -/
inductive Algorithm
  | HS256 | HS384 | HS512 | ES256 | ES384 | RS256 | RS384 | RS512 | PS256 | PS384 | PS512 | EdDSA
  deriving DecidableEq

/-- Its `Debug`. -/
def Algorithm.debug : Algorithm → String
  | .HS256 => "HS256" | .HS384 => "HS384" | .HS512 => "HS512" | .ES256 => "ES256" | .ES384 => "ES384"
  | .RS256 => "RS256" | .RS384 => "RS384" | .RS512 => "RS512" | .PS256 => "PS256" | .PS384 => "PS384"
  | .PS512 => "PS512" | .EdDSA => "EdDSA"

/-- A token's header, as far as it is read. -/
structure Header where
  alg : Algorithm
  kid : Option String

/-- A key of a JWKS: its `kid`, its `alg` and the rest of it. -/
structure Jwk where
  keyId : Option String
  keyAlgorithm : Option String
  params : String

structure JwkSet where
  keys : List Jwk

/-- `JwkSet::find`. -/
def JwkSet.find (set : JwkSet) (kid : String) : Option Jwk := set.keys.find? fun k => k.keyId == some kid

/-- What `validate_id_token` sets of a `Validation`; `iss` and `aud` are not
checked when they are `none`. -/
structure Validation where
  algorithms : List Algorithm
  leeway : Nat
  iss : Option (List String)
  aud : Option (List String)
  requiredSpecClaims : List String

structure Outside (Key : Type) where
  /-- `Url::parse` -/
  parseUrl : String → Except String Net.Url
  /-- `decode_header` -/
  decodeHeader : String → Except String Header
  /-- `DecodingKey::from_jwk` -/
  fromJwk : Jwk → Except String Key
  /-- `decode`, at a time in seconds since 1970 -/
  decode : Nat → String → Key → Validation → Except String Json.Map
  /-- `Algorithm::from_str` -/
  algorithmFromStr : String → Option Algorithm
  /-- `Algorithm::try_from`, of the `alg` of a key -/
  algorithmOfKey : String → Option Algorithm
  /-- `serde_json::from_slice::<TokenResponse>`: its `id_token` -/
  tokenResponse : List UInt8 → Except String (Option String)
  /-- `serde_json::from_slice::<JwkSet>` -/
  jwkSet : List UInt8 → Except String JwkSet
  /-- `String::from_utf8_lossy` -/
  utf8Lossy : List UInt8 → String

/-- The issuer check of `jsonwebtoken` is exact equality with one of the
issuers that are set, and stands next to checks that do not look at them. -/
structure Outside.ExactIssuer {Key : Type} (o : Outside Key) : Prop where
  apart : ∀ {unix token key v claims}, o.decode unix token key v = .ok claims →
    o.decode unix token key { v with iss := none } = .ok claims
  exact : ∀ {unix token key v issuers claims iss}, v.iss = some issuers →
    Json.Map.get claims "iss" = some (.string iss) → o.decode unix token key { v with iss := none } = .ok claims →
    (o.decode unix token key v = .ok claims ↔ iss ∈ issuers)

/-- What the provider's endpoints answer to `safe_post_form` and `safe_get`. -/
structure Provider where
  post : String → List (String × String) → Except String SafeResponse
  get : String → Except String SafeResponse

/-- What a call reads of the clocks: `Instant::now`, in nanoseconds, when it
looks into the cache and when it has fetched keys, and the seconds since
1970 when it checks the token. -/
structure Clock where
  instant : Nat
  fetched : Nat
  unix : Nat

variable {Key : Type} (o : Outside Key)

/-! ## The issuer -/

structure IssuerMetadata where
  issuer : String
  authorizationEndpoint : String
  tokenEndpoint : String
  jwksUri : String
  idTokenSigningAlgValuesSupported : List String := []

def normalizeIssuer (raw : String) : Except OidcError String :=
  match o.parseUrl (Text.trimWhitespace raw) with
  | .error _ => .error (.issuerUrl raw)
  | .ok parsed =>
    if parsed.scheme != "https" || parsed.query.isSome || parsed.fragment.isSome then .error (.issuerUrl raw)
    else if parsed.hostStr.isNone then .error (.issuerUrl raw)
    else .ok (Text.trimEndStr '/' parsed.asStr)

/-- The loop of `check_metadata`. -/
def checkEndpoints : List (String × String) → Except OidcError Unit
  | [] => .ok ()
  | (name, value) :: rest =>
    match o.parseUrl value with
    | .error _ => .error (.endpoint name value)
    | .ok url => if url.scheme != "https" then .error (.endpoint name value) else checkEndpoints rest

def checkMetadata (expectedIssuer : String) (metadata : IssuerMetadata) : Except OidcError Unit :=
  if Text.trimEndStr '/' metadata.issuer != expectedIssuer then .error (.issuerMismatch expectedIssuer metadata.issuer)
  else
    checkEndpoints o [("authorization_endpoint", metadata.authorizationEndpoint), ("token_endpoint", metadata.tokenEndpoint),
      ("jwks_uri", metadata.jwksUri)]

def isAsymmetric : Algorithm → Bool
  | .HS256 | .HS384 | .HS512 => false
  | _ => true

def signingAlgorithms (metadata : IssuerMetadata) : Except OidcError (List Algorithm) :=
  if metadata.idTokenSigningAlgValuesSupported.isEmpty then .ok [.RS256]
  else
    let usable := (metadata.idTokenSigningAlgValuesSupported.filterMap o.algorithmFromStr).filter isAsymmetric
    if usable.isEmpty then .error .noUsableAlgorithm else .ok usable

/-! ## The id_token -/

structure IdTokenExpectations where
  issuer : String
  clientId : String
  nonce : String
  algorithms : List Algorithm

/-- The second half of `select_key`: the algorithm the key declares. -/
def declaredFor (header : Header) (jwk : Jwk) : Except OidcError Jwk :=
  match jwk.keyAlgorithm with
  | none => .ok jwk
  | some keyAlg =>
    match o.algorithmOfKey keyAlg with
    | none => .error (.unexpectedAlgorithm keyAlg)
    | some declared => if declared ≠ header.alg then .error (.unexpectedAlgorithm header.alg.debug) else .ok jwk

def selectKey (jwks : JwkSet) (header : Header) : Except OidcError Jwk := do
  let jwk ←
    match header.kid with
    | some kid =>
      match jwks.find kid with
      | some jwk => .ok jwk
      | none => .error (.unknownKey kid)
    | none =>
      match jwks.keys with
      | [only] => .ok only
      | _ => .error (.unknownKey "<no kid>")
  declaredFor o header jwk

def checkClaims (claims : Json.Map) (expectations : IdTokenExpectations) : Except OidcError Unit :=
  let nonce := (claims.get "nonce").bind Json.Value.asStr
  if nonce ≠ some expectations.nonce then .error .nonceMismatch
  else
    let subject := ((claims.get "sub").bind Json.Value.asStr).getD ""
    if subject.isEmpty then .error (.idToken "sub is missing or is not a non-empty string")
    else
      let severalAudiences := ((claims.get "aud").bind Json.Value.asArray).any fun auds => auds.length > 1
      let azp := (claims.get "azp").bind Json.Value.asStr
      if severalAudiences ∧ azp ≠ some expectations.clientId then .error .azpMismatch else .ok ()

/-- The `Validation` of `validate_id_token`. -/
def IdTokenExpectations.validation (expectations : IdTokenExpectations) (alg : Algorithm) : Validation where
  algorithms := [alg]
  leeway := clockLeewaySecs
  iss := some [expectations.issuer]
  aud := some [expectations.clientId]
  requiredSpecClaims := ["iss", "aud", "exp", "sub"]

def validateIdToken (unix : Nat) (token : String) (jwks : JwkSet) (expectations : IdTokenExpectations) :
    Except OidcError Json.Map := do
  let header ← (o.decodeHeader token).mapError .idToken
  if header.alg ∉ expectations.algorithms then throw (.unexpectedAlgorithm header.alg.debug)
  let jwk ← selectKey o jwks header
  let key ← (o.fromJwk jwk).mapError .idToken
  let claims ← (o.decode unix token key (expectations.validation header.alg)).mapError .idToken
  checkClaims claims expectations
  pure claims

structure OidcIdentity where
  issuer : String
  subject : String
  email : Option String
  emailVerified : Bool
  name : Option String

def identityFromClaims (issuer : String) (claims : Json.Map) : OidcIdentity :=
  let string := fun key => (claims.get key).bind Json.Value.asStr
  { issuer
    subject := (string "sub").getD ""
    email := string "email"
    emailVerified := ((claims.get "email_verified").bind Json.Value.asBool).getD false
    name := string "name" }

/-! ## The client -/

structure OidcClient where
  metadata : IssuerMetadata
  clientId : String
  clientSecret : String
  redirectUri : String
  scope : String
  algorithms : List Algorithm

def OidcClient.new (metadata : IssuerMetadata) (clientId clientSecret redirectUri : String) (scope : Option String) :
    Except OidcError OidcClient :=
  (signingAlgorithms o metadata).map fun algorithms =>
    { metadata, clientId, clientSecret, redirectUri, scope := scope.getD defaultScope, algorithms }

structure CachedJwks where
  set : JwkSet
  fetchedAt : Nat

def cachedKeys (now : Nat) (cache : Option CachedJwks) (kid : Option String) : Option JwkSet :=
  match cache with
  | none => none
  | some cached =>
    let age : Nat := now - cached.fetchedAt
    if age ≥ jwksMaxAge.asNanos then none
    else
      let servesKid := kid.all fun k => (cached.set.find k).isSome
      if servesKid ∨ age < jwksMinRefresh.asNanos then some cached.set else none

def OidcClient.fetchKeys (p : Provider) (c : OidcClient) : Except OidcError JwkSet := do
  let response ← (p.get c.metadata.jwksUri).mapError (.jwks c.metadata.issuer)
  if response.status ≠ 200 then throw (.jwks c.metadata.issuer ("status " ++ toString response.status))
  (o.jwkSet response.body).mapError (.jwks c.metadata.issuer)

/-- The keys to check a token with, and the cache after. -/
def OidcClient.keysFor (p : Provider) (c : OidcClient) (clock : Clock) (cache : Option CachedJwks)
    (kid : Option String) : Except OidcError JwkSet × Option CachedJwks :=
  match cachedKeys clock.instant cache kid with
  | some set => (.ok set, cache)
  | none =>
    match c.fetchKeys o p with
    | .error e => (.error e, cache)
    | .ok set =>
      let fetched := some ⟨set, clock.fetched⟩
      match kid with
      | some kid => if (set.find kid).isNone then (.error (.unknownKey kid), fetched) else (.ok set, fetched)
      | none => (.ok set, fetched)

def OidcClient.tokenForm (c : OidcClient) (code pkceVerifier : String) : List (String × String) :=
  [("grant_type", "authorization_code"), ("code", code), ("redirect_uri", c.redirectUri), ("client_id", c.clientId),
    ("client_secret", c.clientSecret), ("code_verifier", pkceVerifier)]

/-- What `exchange_code` expects of the id_token. -/
def OidcClient.expectations (c : OidcClient) (nonce : String) : IdTokenExpectations where
  issuer := Text.trimEndStr '/' c.metadata.issuer
  clientId := c.clientId
  nonce
  algorithms := c.algorithms

def truncate (body : String) : String := String.ofList (body.toList.take errorBodyChars)

/-- The first half of `exchange_code`: the id_token of the answer. -/
def OidcClient.requestToken (p : Provider) (c : OidcClient) (code pkceVerifier : String) : Except OidcError String := do
  let response ← (p.post c.metadata.tokenEndpoint (c.tokenForm code pkceVerifier)).mapError .tokenRequest
  if response.status ≠ 200 then
    throw (.tokenEndpoint response.status (truncate (o.utf8Lossy response.body)))
  let idToken ← (o.tokenResponse response.body).mapError (.tokenEndpoint response.status)
  match idToken with
  | some idToken => .ok idToken
  | none => .error .missingIdToken

def OidcClient.exchangeCode (p : Provider) (c : OidcClient) (clock : Clock) (cache : Option CachedJwks)
    (code pkceVerifier nonce : String) : Except OidcError (OidcIdentity × Json.Map) × Option CachedJwks :=
  match c.requestToken o p code pkceVerifier with
  | .error e => (.error e, cache)
  | .ok idToken =>
    match o.decodeHeader idToken with
    | .error e => (.error (.idToken e), cache)
    | .ok header =>
      match c.keysFor o p clock cache header.kid with
      | (.error e, cache) => (.error e, cache)
      | (.ok jwks, cache) =>
        match validateIdToken o clock.unix idToken jwks (c.expectations nonce) with
        | .error e => (.error e, cache)
        | .ok claims => (.ok (identityFromClaims c.metadata.issuer claims, claims), cache)

end FerrKit.OAuth
