/-
The first leg of a login: the URL a browser is sent to
(`OAuthClient::authorize_url` in `crates/oauth/src/lib.rs`,
`OidcClient::authorize` in `oidc.rs`) and the form that swaps the code for a
token. Whatever a client is configured with, the provider reads out of them
exactly the parameters that went in, behind those the endpoint's URL has of
its own.

The random bytes of a call are its arguments and SHA-256 is a parameter. A
panic is `none`. The URL is the endpoint's and a query; how `url` writes the
two as one text is left out.
-/
import FerrKit.Lib.Base64
import FerrKit.Lib.FormUrlencoded
import FerrKit.OAuth.Issuer

namespace FerrKit.OAuth

open FormUrlencoded (Pair extendPairs parse)

/-- A parameter, in bytes. -/
def textPair (p : String × String) : Pair := (Wire.bytes p.1, Wire.bytes p.2)

/-- A URL with what `query_pairs_mut` has made of its query. -/
structure QueryUrl where
  url : Net.Url
  query : List UInt8

/-- `append_pair` for each of the pairs, on `query_pairs_mut`. -/
def appendPairs (url : Net.Url) (pairs : List (String × String)) : QueryUrl :=
  ⟨url, extendPairs (Wire.bytes (url.query.getD "")) (pairs.map textPair)⟩

/-- `rand::random::<[u8; 32]>()`. -/
abbrev Entropy := Vector UInt8 32

def randomToken (bytes : Entropy) : String := Base64.urlSafeNoPad bytes.toList

variable (sha256 : List UInt8 → List UInt8)

def pkceChallengeS256 (verifier : String) : String := Base64.urlSafeNoPad (sha256 (Wire.bytes verifier))

/-! ## The built-in providers -/

inductive OAuthProvider
  | google | gitHub | discord
  deriving DecidableEq

def OAuthProvider.authorizeEndpoint : OAuthProvider → String
  | .google => "https://accounts.google.com/o/oauth2/v2/auth"
  | .gitHub => "https://github.com/login/oauth/authorize"
  | .discord => "https://discord.com/api/oauth2/authorize"

def OAuthProvider.defaultScope : OAuthProvider → String
  | .google => "openid email profile"
  | .gitHub => "read:user user:email"
  | .discord => "identify"

def OAuthProvider.supportsPkce : OAuthProvider → Bool
  | .google => true
  | .gitHub | .discord => false

structure OAuthClient where
  provider : OAuthProvider
  clientId : String
  clientSecret : String
  redirectUri : String
  scope : String

def OAuthClient.new (provider : OAuthProvider) (clientId clientSecret redirectUri : String) (scope : Option String) :
    OAuthClient :=
  { provider, clientId, clientSecret, redirectUri, scope := scope.getD provider.defaultScope }

structure AuthorizeRequest where
  url : QueryUrl
  state : String
  pkceVerifier : Option String

/-- The parameters that every authorize request begins with. -/
def loginPairs (clientId redirectUri scope state : String) : List (String × String) :=
  [("client_id", clientId), ("redirect_uri", redirectUri), ("response_type", "code"), ("scope", scope), ("state", state)]

/-- The challenge for a verifier, if there is one. -/
def challengePairs (verifier : Option String) : List (String × String) :=
  match verifier with
  | some verifier => [("code_challenge", pkceChallengeS256 sha256 verifier), ("code_challenge_method", "S256")]
  | none => []

def OAuthClient.authorizeUrl (parseUrl : String → Except String Net.Url) (self : OAuthClient)
    (state verifier : Entropy) : Option AuthorizeRequest :=
  let pkceVerifier := if self.provider.supportsPkce then some (randomToken verifier) else none
  match parseUrl self.provider.authorizeEndpoint with
  | .error _ => none
  | .ok url =>
    some
      { url := appendPairs url (loginPairs self.clientId self.redirectUri self.scope (randomToken state) ++
          challengePairs sha256 pkceVerifier)
        state := randomToken state
        pkceVerifier }

/-- The form of `OAuthClient::exchange_code`. -/
def OAuthClient.tokenForm (self : OAuthClient) (code : String) (pkceVerifier : Option String) :
    List (String × String) :=
  [("client_id", self.clientId), ("client_secret", self.clientSecret), ("code", code),
    ("grant_type", "authorization_code"), ("redirect_uri", self.redirectUri)] ++
    pkceVerifier.toList.map fun verifier => ("code_verifier", verifier)

/-- `Serializer::new(String::new()).extend_pairs(form).finish()`. -/
def formBody (form : List (String × String)) : List UInt8 := extendPairs [] (form.map textPair)

/-! ## OpenID Connect -/

variable {Key : Type} (o : Outside Key)

structure OidcAuthorizeRequest where
  url : QueryUrl
  state : String
  nonce : String
  pkceVerifier : String

/-- What a call of `authorize` draws. -/
structure Draws where
  state : Entropy
  nonce : Entropy
  verifier : Entropy
  deriving DecidableEq

/-- The pairs of `OidcClient::authorize`. -/
def OidcClient.authorizePairs (self : OidcClient) (draws : Draws) : List (String × String) :=
  loginPairs self.clientId self.redirectUri self.scope (randomToken draws.state) ++
    ("nonce", randomToken draws.nonce) :: challengePairs sha256 (some (randomToken draws.verifier))

def OidcClient.authorize (self : OidcClient) (draws : Draws) : Option OidcAuthorizeRequest :=
  match o.parseUrl self.metadata.authorizationEndpoint with
  | .error _ => none
  | .ok url =>
    some
      { url := appendPairs url (self.authorizePairs sha256 draws)
        state := randomToken draws.state
        nonce := randomToken draws.nonce
        pkceVerifier := randomToken draws.verifier }

/-! ## What is read -/

variable {sha256} {o}

/-- The element of a list that has one. -/
def only {α : Type} : List α → Option α
  | [a] => some a
  | _ => none

theorem only_map {α β : Type} (f : α → β) : ∀ l : List α, only (l.map f) = (only l).map f
  | [] => rfl
  | [_] => rfl
  | _ :: _ :: _ => rfl

/-- A parameter that comes once. -/
def param (key : String) (pairs : List Pair) : Option (List UInt8) :=
  (only (pairs.filter fun p => p.1 = Wire.bytes key)).map Prod.snd

theorem bytes_inj {s t : String} : Wire.bytes s = Wire.bytes t ↔ s = t := ⟨Wire.bytes_injective, congrArg _⟩

/-- Of texts, by their names. -/
theorem param_textPairs (key : String) (pairs : List (String × String)) :
    param key (pairs.map textPair) = (only (pairs.filter fun p => p.1 = key)).map fun p => Wire.bytes p.2 := by
  have hfilter : (pairs.map textPair).filter (fun p => p.1 = Wire.bytes key) =
      (pairs.filter fun p => p.1 = key).map textPair := by
    simp [List.filter_map, Function.comp_def, textPair, bytes_inj]
  rw [param, hfilter, only_map, Option.map_map]
  rfl

/-- Parameters of another name make no difference. -/
theorem param_append {key : String} {own : List Pair} (h : ∀ p ∈ own, p.1 ≠ Wire.bytes key) (pairs : List Pair) :
    param key (own ++ pairs) = param key pairs := by
  have hown : own.filter (fun p => p.1 = Wire.bytes key) = [] := by simpa using h
  rw [param, List.filter_append, hown, List.nil_append, ← param]

theorem parse_appendPairs (url : Net.Url) (pairs : List (String × String)) :
    parse (appendPairs url pairs).query = parse (Wire.bytes (url.query.getD "")) ++ pairs.map textPair :=
  FormUrlencoded.parse_extendPairs _ _

theorem parse_formBody (form : List (String × String)) : parse (formBody form) = form.map textPair :=
  FormUrlencoded.parse_extendPairs [] _

theorem randomToken_inj {a b : Entropy} (h : randomToken a = randomToken b) : a = b :=
  Vector.toList_inj.1 (Base64.urlSafeNoPad_inj (by simp) h)

/-- The endpoints a document was accepted with are https URLs. -/
theorem checkEndpoints_ok : ∀ {endpoints : List (String × String)}, checkEndpoints o endpoints = .ok () →
    ∀ e ∈ endpoints, ∃ url, o.parseUrl e.2 = .ok url ∧ url.scheme = "https"
  | [], _, e, he => by cases he
  | (name, value) :: rest, h, e, he => by
    unfold checkEndpoints at h
    split at h
    · cases h
    · next url hurl =>
      split at h
      · cases h
      · next hscheme =>
        obtain rfl | he := List.mem_cons.1 he
        · exact ⟨url, hurl, by simpa using hscheme⟩
        · exact checkEndpoints_ok h e he

theorem checkMetadata_endpoint {issuer : String} {metadata : IssuerMetadata}
    (h : checkMetadata o issuer metadata = .ok ()) :
    ∃ url, o.parseUrl metadata.authorizationEndpoint = .ok url ∧ url.scheme = "https" := by
  unfold checkMetadata at h
  split at h
  · cases h
  · exact checkEndpoints_ok h ("authorization_endpoint", metadata.authorizationEndpoint) List.mem_cons_self

/-- **The provider reads what the client has put in.** For a client of a
discovered issuer, with any id, secret, redirect URI and scope, and for
whatever is drawn: `authorize` does not panic, and the query of its https URL
reads as the endpoint's own parameters and then exactly those of the login;
the token request's form reads as exactly its fields. -/
theorem authorize_reads_back {issuer : String} {metadata : IssuerMetadata} {clientId clientSecret redirectUri : String}
    {scope : Option String} {client : OidcClient} (hmeta : checkMetadata o issuer metadata = .ok ())
    (hclient : OidcClient.new o metadata clientId clientSecret redirectUri scope = .ok client)
    (sha256 : List UInt8 → List UInt8) (draws : Draws) :
    ∃ request, client.authorize sha256 o draws = some request ∧ request.url.url.scheme = "https" ∧
      o.parseUrl metadata.authorizationEndpoint = .ok request.url.url ∧
      parse request.url.query = parse (Wire.bytes (request.url.url.query.getD "")) ++
        [("client_id", clientId), ("redirect_uri", redirectUri), ("response_type", "code"),
          ("scope", scope.getD "openid email profile"), ("state", request.state), ("nonce", request.nonce),
          ("code_challenge", Base64.urlSafeNoPad (sha256 (Wire.bytes request.pkceVerifier))),
          ("code_challenge_method", "S256")].map textPair ∧
      ∀ code, parse (formBody (client.tokenForm code request.pkceVerifier)) =
        [("grant_type", "authorization_code"), ("code", code), ("redirect_uri", redirectUri), ("client_id", clientId),
          ("client_secret", clientSecret), ("code_verifier", request.pkceVerifier)].map textPair := by
  obtain ⟨url, hurl, hscheme⟩ := checkMetadata_endpoint hmeta
  obtain ⟨algorithms, -, rfl⟩ : ∃ algorithms, signingAlgorithms o metadata = .ok algorithms ∧
      client = { metadata, clientId, clientSecret, redirectUri, scope := scope.getD defaultScope, algorithms } := by
    unfold OidcClient.new at hclient
    cases hs : signingAlgorithms o metadata with
    | error e => rw [hs] at hclient; cases hclient
    | ok algorithms => rw [hs] at hclient; cases hclient; exact ⟨algorithms, rfl, rfl⟩
  refine ⟨_, by rw [OidcClient.authorize, hurl], hscheme, hurl, parse_appendPairs _ _, fun code => parse_formBody _⟩

theorem authorize_reads_back_plainIssuer :
    ∃ request, (idpClient "https://idp.example.com").authorize (List.take 32) (idp "https://idp.example.com")
        ⟨Vector.replicate 32 1, Vector.replicate 32 2, Vector.replicate 32 3⟩ = some request ∧
      parse request.url.query =
        [("client_id", "client"), ("redirect_uri", "https://app.example.com/cb"), ("response_type", "code"),
          ("scope", "openid email profile"), ("state", request.state), ("nonce", request.nonce),
          ("code_challenge", Base64.urlSafeNoPad ((Wire.bytes request.pkceVerifier).take 32)),
          ("code_challenge_method", "S256")].map textPair := by
  have hmeta : checkMetadata (idp "https://idp.example.com") "https://idp.example.com"
    (idpMetadata "https://idp.example.com") = .ok () := rfl
  have hclient : OidcClient.new (idp "https://idp.example.com") (idpMetadata "https://idp.example.com") "client"
    "secret" "https://app.example.com/cb" none = .ok (idpClient "https://idp.example.com") := rfl
  obtain ⟨request, hrequest, -, hurl, hquery, -⟩ := authorize_reads_back hmeta hclient (List.take 32)
    ⟨Vector.replicate 32 1, Vector.replicate 32 2, Vector.replicate 32 3⟩
  refine ⟨request, hrequest, ?_⟩
  rw [hquery, ← Except.ok.inj hurl]
  rfl

/-- The built-in providers' URL reads back too. There is a challenge, and then
a verifier in the form, for those that have PKCE. -/
theorem authorizeUrl_reads_back {parseUrl : String → Except String Net.Url} {client : OAuthClient}
    {state verifier : Entropy} {request : AuthorizeRequest}
    (h : client.authorizeUrl sha256 parseUrl state verifier = some request) (code : String) :
    parse request.url.query = parse (Wire.bytes (request.url.url.query.getD "")) ++
        (loginPairs client.clientId client.redirectUri client.scope request.state ++
          challengePairs sha256 request.pkceVerifier).map textPair ∧
      (request.pkceVerifier.isSome ↔ client.provider.supportsPkce) ∧
      parse (formBody (client.tokenForm code request.pkceVerifier)) =
        (client.tokenForm code request.pkceVerifier).map textPair := by
  unfold OAuthClient.authorizeUrl at h
  cases hurl : parseUrl client.provider.authorizeEndpoint with
  | error e =>
    rw [hurl] at h
    cases h
  | ok url =>
    rw [hurl] at h
    cases h
    refine ⟨parse_appendPairs _ _, ?_, parse_formBody _⟩
    cases client.provider.supportsPkce <;> simp

end FerrKit.OAuth
