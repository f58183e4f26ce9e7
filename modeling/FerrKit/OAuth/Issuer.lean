/-
The issuer from discovery to the id_token. `check_metadata` compares the
document's issuer with its trailing slashes taken off, and `exchange_code`
expects the id_token to name the issuer without them. A provider whose
issuer ends in a slash puts the slash into its tokens, as the document has
it; discovery accepts that provider and every login with it then fails.
Without the slash the spellings are one and the same string, and a token
that is right in every other respect is accepted.
-/
import FerrKit.Lib.Results
import FerrKit.OAuth.OidcModel

namespace FerrKit.OAuth

variable {Key : Type} {o : Outside Key}

/-- A token that is right in every respect but, perhaps, the issuer: its
algorithm is one of those expected, its key is in the set, `decode` accepts
it with the issuer check off (signature, `aud`, `exp` and the claims that
must be there), and so does `check_claims` (`nonce`, `sub`, `azp`). -/
structure Acceptable (o : Outside Key) (unix : Nat) (jwks : JwkSet) (expectations : IdTokenExpectations)
    (token : String) (header : Header) (claims : Json.Map) : Prop where
  hasHeader : o.decodeHeader token = .ok header
  expected : header.alg ∈ expectations.algorithms
  decoded : ∃ jwk key, selectKey o jwks header = .ok jwk ∧ o.fromJwk jwk = .ok key ∧
    o.decode unix token key { expectations.validation header.alg with iss := none } = .ok claims
  checked : checkClaims claims expectations = .ok ()

/-- The issuer decides about an acceptable token. -/
theorem validateIdToken_ok_iff (ho : o.ExactIssuer) {unix : Nat} {jwks : JwkSet} {ex : IdTokenExpectations}
    {token : String} {header : Header} {claims : Json.Map} {iss : String}
    (ha : Acceptable o unix jwks ex token header claims) (hiss : Json.Map.get claims "iss" = some (.string iss)) :
    (∃ c, validateIdToken o unix token jwks ex = .ok c) ↔ iss = ex.issuer := by
  obtain ⟨jwk, key, hjwk, hkey, hdec⟩ := ha.decoded
  have hexact := ho.exact (v := ex.validation header.alg) rfl hiss hdec
  simp only [List.mem_singleton] at hexact
  rw [← hexact]
  cases hd : o.decode unix token key (ex.validation header.alg) with
  | error e => simp [validateIdToken, ha.hasHeader, ha.expected, hjwk, hkey, hd, bind, Except.bind]
  | ok c =>
    -- the claims are those decoded with the check off
    have hc := ho.apart hd
    rw [hdec, Except.ok.injEq] at hc
    subst hc
    simp [validateIdToken, ha.hasHeader, ha.expected, hjwk, hkey, hd, ha.checked, bind, Except.bind, pure,
      Except.pure]

/-- Discovery accepts the issuers that normalise to the one configured. -/
theorem checkMetadata_issuer {issuer : String} {metadata : IssuerMetadata}
    (h : checkMetadata o issuer metadata = .ok ()) : Text.trimEndStr '/' metadata.issuer = issuer := by
  unfold checkMetadata at h
  split at h
  · cases h
  · next he => simpa using he

theorem new_metadata {metadata : IssuerMetadata} {clientId clientSecret redirectUri : String} {scope : Option String}
    {client : OidcClient} (h : OidcClient.new o metadata clientId clientSecret redirectUri scope = .ok client) :
    client.metadata = metadata := by
  unfold OidcClient.new at h
  cases hs : signingAlgorithms o metadata with
  | error e => rw [hs] at h; cases h
  | ok algorithms => rw [hs] at h; cases h; rfl

/-- The provider answers the token request with an id_token, and the keys for
it are there. -/
structure Delivered (o : Outside Key) (p : Provider) (client : OidcClient) (clock : Clock) (cache : Option CachedJwks)
    (code pkceVerifier token : String) (header : Header) (jwks : JwkSet) : Prop where
  requested : client.requestToken o p code pkceVerifier = .ok token
  keys : (client.keysFor o p clock cache header.kid).1 = .ok jwks

theorem exchangeCode_ok_iff {p : Provider} {client : OidcClient} {clock : Clock} {cache : Option CachedJwks}
    {code pkceVerifier nonce token : String} {header : Header} {jwks : JwkSet}
    (hd : Delivered o p client clock cache code pkceVerifier token header jwks)
    (hh : o.decodeHeader token = .ok header) :
    (∃ r, (client.exchangeCode o p clock cache code pkceVerifier nonce).1 = .ok r) ↔
      ∃ c, validateIdToken o clock.unix token jwks (client.expectations nonce) = .ok c := by
  have hk := hd.keys
  unfold OidcClient.exchangeCode
  simp only [hd.requested, hh]
  cases hks : client.keysFor o p clock cache header.kid with
  | mk keys cache' =>
    rw [hks] at hk
    cases hk
    cases hv : validateIdToken o clock.unix token jwks (client.expectations nonce) <;> simp [hv]

/-- What `exchange_code` expects is the issuer as it was configured. -/
theorem expectations_issuer {issuer : String} {metadata : IssuerMetadata}
    (hm : checkMetadata o issuer metadata = .ok ()) {clientId clientSecret redirectUri : String}
    {scope : Option String} {client : OidcClient}
    (hc : OidcClient.new o metadata clientId clientSecret redirectUri scope = .ok client) (nonce : String) :
    (client.expectations nonce).issuer = issuer := by
  rw [OidcClient.expectations, new_metadata hc]
  exact checkMetadata_issuer hm

/-- **A provider accepted at discovery is accepted at login exactly when its
issuer does not end in a slash.** For every configured issuer, every
discovery document accepted for it, and every id_token that names the
document's issuer and is right in every other respect. -/
theorem login_accepted_iff (ho : o.ExactIssuer) {raw issuer : String} {metadata : IssuerMetadata}
    {clientId clientSecret redirectUri : String} {scope : Option String} {client : OidcClient} {p : Provider}
    {clock : Clock} {cache : Option CachedJwks} {code pkceVerifier nonce token : String} {header : Header}
    {jwks : JwkSet} {claims : Json.Map} :
    normalizeIssuer o raw = .ok issuer → checkMetadata o issuer metadata = .ok () →
    OidcClient.new o metadata clientId clientSecret redirectUri scope = .ok client →
    Delivered o p client clock cache code pkceVerifier token header jwks →
    Acceptable o clock.unix jwks (client.expectations nonce) token header claims →
    Json.Map.get claims "iss" = some (.string metadata.issuer) →
    ((∃ r, (client.exchangeCode o p clock cache code pkceVerifier nonce).1 = .ok r) ↔
      metadata.issuer.toList.getLast? ≠ some '/') := by
  intro _ hm hc hd ha hiss
  rw [exchangeCode_ok_iff hd ha.hasHeader, validateIdToken_ok_iff ho ha hiss, expectations_issuer hm hc,
    ← checkMetadata_issuer hm, eq_comm, Text.trimEndStr_eq_self_iff]

/-! ## A provider -/

/-- A provider whose document and tokens name `issuer`, with one key. Its
tokens are all alike. -/
def idp (issuer : String) : Outside Unit where
  parseUrl text := .ok
    { scheme := "https", host := some (.domain "idp.example.com"), hostStr := some "idp.example.com", port := some 443,
      asStr := if text = "https://idp.example.com" then "https://idp.example.com/" else text }
  decodeHeader _ := .ok ⟨.RS256, some "k1"⟩
  fromJwk _ := .ok ()
  decode _ _ _ v :=
    match v.iss with
    | none => .ok (idpClaims issuer)
    | some issuers => if issuer ∈ issuers then .ok (idpClaims issuer) else .error "InvalidIssuer"
  algorithmFromStr _ := none
  algorithmOfKey _ := some .RS256
  tokenResponse _ := .ok (some "token")
  jwkSet _ := .ok ⟨[⟨some "k1", some "RS256", "{}"⟩]⟩
  utf8Lossy _ := ""
where
  idpClaims (issuer : String) : Json.Map :=
    [("iss", .string issuer), ("sub", .string "user-42"), ("aud", .string "client"), ("nonce", .string "n")]

theorem idp_exactIssuer (issuer : String) : (idp issuer).ExactIssuer where
  apart {_ _ _ v _} h := by
    simp only [idp] at h ⊢
    split at h
    · exact h
    · split at h
      · exact h
      · cases h
  exact {_ _ _ v issuers claims iss} hv hiss hd := by
    simp only [idp, hv] at hd ⊢
    cases hd
    cases hiss
    simp

def idpMetadata (issuer : String) : IssuerMetadata where
  issuer
  authorizationEndpoint := "https://idp.example.com/authorize"
  tokenEndpoint := "https://idp.example.com/token"
  jwksUri := "https://idp.example.com/jwks"

def idpClient (issuer : String) : OidcClient where
  metadata := idpMetadata issuer
  clientId := "client"
  clientSecret := "secret"
  redirectUri := "https://app.example.com/cb"
  scope := defaultScope
  algorithms := [.RS256]

def idpProvider : Provider where
  post _ _ := .ok ⟨200, [], ""⟩
  get _ := .ok ⟨200, [], ""⟩

/-- The configured issuer and the token are fine for both spellings. -/
theorem idp_login (issuer : String) :
    Delivered (idp issuer) idpProvider (idpClient issuer) ⟨0, 0, 0⟩ none "code" "verifier" "token" ⟨.RS256, some "k1"⟩
        ⟨[⟨some "k1", some "RS256", "{}"⟩]⟩ ∧
      Acceptable (idp issuer) 0 ⟨[⟨some "k1", some "RS256", "{}"⟩]⟩ ((idpClient issuer).expectations "n") "token"
        ⟨.RS256, some "k1"⟩ (idp.idpClaims issuer) :=
  ⟨⟨rfl, rfl⟩, ⟨rfl, List.mem_singleton_self _, ⟨_, (), rfl, rfl, rfl⟩, rfl⟩⟩

/-- The document and the token say `https://idp.example.com/`: discovery
accepts the document, and the token is refused. -/
theorem slashIssuer_refused :
    let issuer := "https://idp.example.com/"
    (idp issuer).ExactIssuer ∧
    normalizeIssuer (idp issuer) "https://idp.example.com" = .ok "https://idp.example.com" ∧
    checkMetadata (idp issuer) "https://idp.example.com" (idpMetadata issuer) = .ok () ∧
    OidcClient.new (idp issuer) (idpMetadata issuer) "client" "secret" "https://app.example.com/cb" none =
      .ok (idpClient issuer) ∧
    Delivered (idp issuer) idpProvider (idpClient issuer) ⟨0, 0, 0⟩ none "code" "verifier" "token" ⟨.RS256, some "k1"⟩
      ⟨[⟨some "k1", some "RS256", "{}"⟩]⟩ ∧
    Acceptable (idp issuer) 0 ⟨[⟨some "k1", some "RS256", "{}"⟩]⟩ ((idpClient issuer).expectations "n") "token"
      ⟨.RS256, some "k1"⟩ (idp.idpClaims issuer) ∧
    Json.Map.get (idp.idpClaims issuer) "iss" = some (.string (idpMetadata issuer).issuer) ∧
    ((idpClient issuer).exchangeCode (idp issuer) idpProvider ⟨0, 0, 0⟩ none "code" "verifier" "n").1 =
      .error (.idToken "InvalidIssuer") :=
  ⟨idp_exactIssuer _, rfl, rfl, rfl, (idp_login _).1, (idp_login _).2, rfl, rfl⟩

theorem login_accepted_plainIssuer :
    ∃ r, ((idpClient "https://idp.example.com").exchangeCode (idp "https://idp.example.com") idpProvider ⟨0, 0, 0⟩ none
      "code" "verifier" "n").1 = .ok r := by
  have hn : normalizeIssuer (idp "https://idp.example.com") "https://idp.example.com" =
    .ok "https://idp.example.com" := rfl
  have hm : checkMetadata (idp "https://idp.example.com") "https://idp.example.com"
    (idpMetadata "https://idp.example.com") = .ok () := rfl
  have hc : OidcClient.new (idp "https://idp.example.com") (idpMetadata "https://idp.example.com") "client" "secret"
    "https://app.example.com/cb" none = .ok (idpClient "https://idp.example.com") := rfl
  obtain ⟨hd, ha⟩ := idp_login "https://idp.example.com"
  have hiff := login_accepted_iff (idp_exactIssuer _) hn hm hc hd ha rfl
  exact hiff.2 (by decide)

end FerrKit.OAuth
