/-
What an accepted id_token has passed. The checks are spread over
`signing_algorithms`, `select_key`, `jsonwebtoken::decode` and `check_claims`;
the header, the key set and the claims are all the provider's, or anybody's.
Here they are put together: whatever `validate_id_token` accepts satisfies
`Accepted`.
-/
import FerrKit.Lib.Results
import FerrKit.OAuth.OidcModel

namespace FerrKit.OAuth

variable {Key : Type} {o : Outside Key}

/-- A claim that is the text or, as `iss` and `aud` may be, a list with the
text in it. -/
def ClaimNames (claims : Json.Map) (key text : String) : Prop :=
  claims.get key = some (.string text) ∨ ∃ items, claims.get key = some (.array items) ∧ .string text ∈ items

/-- What `jsonwebtoken` promises of a token it has decoded: the signature
verifies under an algorithm of the `Validation`, and the checks it was
configured with have passed, none of them skipped for a claim that must be
there. -/
structure Outside.Checks (o : Outside Key) (Verifies : Algorithm → Key → String → Prop) : Prop where
  signature : ∀ {unix token key v claims}, o.decode unix token key v = .ok claims →
    ∃ alg ∈ v.algorithms, Verifies alg key token
  issuer : ∀ {unix token key v claims issuers}, o.decode unix token key v = .ok claims → v.iss = some issuers →
    "iss" ∈ v.requiredSpecClaims → ∃ iss ∈ issuers, ClaimNames claims "iss" iss
  audience : ∀ {unix token key v claims auds}, o.decode unix token key v = .ok claims → v.aud = some auds →
    "aud" ∈ v.requiredSpecClaims → ∃ aud ∈ auds, ClaimNames claims "aud" aud

/-- The algorithm is asymmetric and one the issuer advertises, RS256 when it
advertises none. -/
structure AdvertisedBy (o : Outside Key) (metadata : IssuerMetadata) (alg : Algorithm) : Prop where
  asymmetric : isAsymmetric alg = true
  advertised : (metadata.idTokenSigningAlgValuesSupported = [] ∧ alg = .RS256) ∨
    ∃ name ∈ metadata.idTokenSigningAlgValuesSupported, o.algorithmFromStr name = some alg

/-- The key is the one the header asks for, and made for its algorithm. -/
structure KeyFor (o : Outside Key) (jwks : JwkSet) (header : Header) (jwk : Jwk) : Prop where
  named : ∀ kid, header.kid = some kid → jwks.find kid = some jwk ∧ jwk.keyId = some kid
  only : header.kid = none → jwks.keys = [jwk]
  declared : ∀ name, jwk.keyAlgorithm = some name → o.algorithmOfKey name = some header.alg

/-- The claims, for this client and this login. -/
structure ClaimsFor (ex : IdTokenExpectations) (claims : Json.Map) : Prop where
  issuer : ClaimNames claims "iss" ex.issuer
  audience : ClaimNames claims "aud" ex.clientId
  nonce : claims.get "nonce" = some (.string ex.nonce)
  azp : ∀ auds, claims.get "aud" = some (.array auds) → 2 ≤ auds.length → claims.get "azp" = some (.string ex.clientId)

/-- The subject is a non-empty text, and the identity's. -/
def SubjectOf (claims : Json.Map) (sub : String) : Prop :=
  claims.get "sub" = some (.string sub) ∧ sub ≠ "" ∧ ∀ issuer, (identityFromClaims issuer claims).subject = sub

structure Accepted (o : Outside Key) (Verifies : Algorithm → Key → String → Prop) (metadata : IssuerMetadata)
    (jwks : JwkSet) (ex : IdTokenExpectations) (token : String) (claims : Json.Map) : Prop where
  signed : ∃ header jwk key, o.decodeHeader token = .ok header ∧ AdvertisedBy o metadata header.alg ∧
    KeyFor o jwks header jwk ∧ o.fromJwk jwk = .ok key ∧ Verifies header.alg key token
  forClient : ClaimsFor ex claims
  subject : ∃ sub, SubjectOf claims sub

/-! ## Function by function -/

theorem advertisedBy_of_mem {metadata : IssuerMetadata} {algorithms : List Algorithm} {alg : Algorithm}
    (h : signingAlgorithms o metadata = .ok algorithms) (halg : alg ∈ algorithms) : AdvertisedBy o metadata alg := by
  unfold signingAlgorithms at h
  split at h
  · next hnone =>
    cases h
    obtain rfl := List.mem_singleton.1 halg
    exact ⟨rfl, .inl ⟨List.isEmpty_iff.1 hnone, rfl⟩⟩
  · simp only at h
    split at h
    · cases h
    · cases h
      obtain ⟨hparsed, hasym⟩ := List.mem_filter.1 halg
      exact ⟨hasym, .inr (List.mem_filterMap.1 hparsed)⟩

theorem keyId_of_find {jwks : JwkSet} {kid : String} {jwk : Jwk} (h : jwks.find kid = some jwk) :
    jwk.keyId = some kid := by
  simpa using List.find?_some h

theorem declaredFor_ok {header : Header} {found jwk : Jwk} (h : declaredFor o header found = .ok jwk) :
    found = jwk ∧ ∀ name, jwk.keyAlgorithm = some name → o.algorithmOfKey name = some header.alg := by
  unfold declaredFor at h
  split at h
  · next hnone =>
    cases h
    exact ⟨rfl, fun name hname => by rw [hnone] at hname; cases hname⟩
  · next name hname =>
    split at h
    · cases h
    · next declared hof =>
      split at h
      · cases h
      · next hsame =>
        cases h
        refine ⟨rfl, fun name' hname' => ?_⟩
        rw [hname] at hname'
        cases hname'
        rw [hof, Decidable.not_not.1 hsame]

theorem keyFor_of_selectKey {jwks : JwkSet} {header : Header} {jwk : Jwk} (h : selectKey o jwks header = .ok jwk) :
    KeyFor o jwks header jwk := by
  unfold selectKey at h
  split at h
  · next kid hkid =>
    split at h
    · next found hfound =>
      obtain ⟨rfl, hdeclared⟩ := declaredFor_ok h
      refine ⟨fun kid' hkid' => ?_, fun hno => ?_, hdeclared⟩
      · rw [hkid] at hkid'
        cases hkid'
        exact ⟨hfound, keyId_of_find hfound⟩
      · rw [hkid] at hno
        cases hno
    · cases h
  · next hno =>
    split at h
    · next only honly =>
      obtain ⟨rfl, hdeclared⟩ := declaredFor_ok h
      exact ⟨fun kid hkid => (by rw [hno] at hkid; cases hkid), fun _ => honly, hdeclared⟩
    · cases h

theorem asStr_eq_some {v : Option Json.Value} {s : String} : v.bind Json.Value.asStr = some s ↔ v = some (.string s) := by
  cases v with
  | none => simp
  | some v => cases v <;> simp [Json.Value.asStr]

theorem subjectOf_of_nonempty {claims : Json.Map}
    (h : (((claims.get "sub").bind Json.Value.asStr).getD "").isEmpty = false) : ∃ sub, SubjectOf claims sub := by
  cases hsub : (claims.get "sub").bind Json.Value.asStr with
  | none => simp [hsub] at h
  | some sub =>
    refine ⟨sub, asStr_eq_some.1 hsub, ?_, fun issuer => ?_⟩
    · rintro rfl
      simp [hsub] at h
    · simp [identityFromClaims, hsub]

/-- The claims that `check_claims` lets through. -/
theorem checkClaims_ok {claims : Json.Map} {ex : IdTokenExpectations} (h : checkClaims claims ex = .ok ()) :
    claims.get "nonce" = some (.string ex.nonce) ∧ (∃ sub, SubjectOf claims sub) ∧
      ∀ auds, claims.get "aud" = some (.array auds) → 2 ≤ auds.length →
        claims.get "azp" = some (.string ex.clientId) := by
  simp only [checkClaims] at h
  split at h
  · cases h
  · next hnonce =>
    split at h
    · cases h
    · next hsub =>
      split at h
      · cases h
      · next hazp =>
        refine ⟨asStr_eq_some.1 (Decidable.not_not.1 hnonce), subjectOf_of_nonempty (Bool.eq_false_iff.2 hsub), ?_⟩
        intro auds haud hlen
        refine asStr_eq_some.1 (Decidable.not_not.1 fun hne => hazp ⟨?_, hne⟩)
        simpa [haud, Json.Value.asArray] using Nat.lt_of_succ_le hlen

/-- The steps of an accepted token. -/
theorem validateIdToken_ok {unix : Nat} {token : String} {jwks : JwkSet} {ex : IdTokenExpectations} {claims : Json.Map}
    (h : validateIdToken o unix token jwks ex = .ok claims) :
    ∃ header jwk key, o.decodeHeader token = .ok header ∧ header.alg ∈ ex.algorithms ∧
      selectKey o jwks header = .ok jwk ∧ o.fromJwk jwk = .ok key ∧
      o.decode unix token key (ex.validation header.alg) = .ok claims ∧ checkClaims claims ex = .ok () := by
  simp only [validateIdToken, Except.bind_ok_iff, Except.mapError_ok_iff] at h
  obtain ⟨header, hh, h⟩ := h
  split at h
  · cases h
  · next halg =>
    simp only [Except.bind_ok_iff, Except.mapError_ok_iff] at h
    obtain ⟨jwk, hjwk, key, hkey, claims', hdec, _, hcheck, hret⟩ := h
    cases hret
    exact ⟨header, jwk, key, hh, Decidable.not_not.1 halg, hjwk, hkey, hdec, hcheck⟩

/-- **Whatever `validate_id_token` accepts has passed every check.** For every
key set and token, and for expectations whose algorithms come from some
discovery document. -/
theorem validateIdToken_accepted {Verifies : Algorithm → Key → String → Prop} (ho : o.Checks Verifies)
    {metadata : IssuerMetadata} {ex : IdTokenExpectations} {unix : Nat} {token : String} {jwks : JwkSet}
    {claims : Json.Map} (halgs : signingAlgorithms o metadata = .ok ex.algorithms)
    (h : validateIdToken o unix token jwks ex = .ok claims) : Accepted o Verifies metadata jwks ex token claims := by
  obtain ⟨header, jwk, key, hheader, halg, hjwk, hkey, hdec, hcheck⟩ := validateIdToken_ok h
  obtain ⟨hnonce, hsub, hazp⟩ := checkClaims_ok hcheck
  -- the `Validation` holds one algorithm, one issuer and one audience
  obtain ⟨alg, hone, hver⟩ := ho.signature hdec
  obtain rfl := List.mem_singleton.1 hone
  obtain ⟨iss, hiss, hissuer⟩ := ho.issuer hdec rfl (by simp [IdTokenExpectations.validation])
  obtain rfl := List.mem_singleton.1 hiss
  obtain ⟨aud, haud, haudience⟩ := ho.audience hdec rfl (by simp [IdTokenExpectations.validation])
  obtain rfl := List.mem_singleton.1 haud
  exact {
    signed := ⟨header, jwk, key, hheader, advertisedBy_of_mem halgs halg, keyFor_of_selectKey hjwk, hkey, hver⟩
    forClient := ⟨hissuer, haudience, hnonce, hazp⟩
    subject := hsub }

/-! ## An accepted token -/

/-- A provider with one RSA key; its tokens are for two audiences. -/
def twoAudiences : Outside Unit where
  parseUrl _ := .error "unused"
  decodeHeader _ := .ok ⟨.RS256, none⟩
  fromJwk _ := .ok ()
  decode _ _ _ v :=
    if .RS256 ∈ v.algorithms ∧ v.iss = some ["https://idp.example.com"] ∧ v.aud = some ["client"] then .ok twoClaims
    else .error "InvalidToken"
  algorithmFromStr name := if name = "RS256" then some .RS256 else if name = "HS256" then some .HS256 else none
  algorithmOfKey name := if name = "RS256" then some .RS256 else none
  tokenResponse _ := .error "unused"
  jwkSet _ := .error "unused"
  utf8Lossy _ := ""
where
  twoClaims : Json.Map :=
    [("iss", .string "https://idp.example.com"), ("sub", .string "user-42"),
      ("aud", .array [.string "client", .string "other"]), ("azp", .string "client"), ("nonce", .string "n")]

theorem twoAudiences_checks : twoAudiences.Checks fun alg _ _ => alg = .RS256 where
  signature {_ _ _ v _} h := by
    simp only [twoAudiences] at h
    split at h
    · next hv => exact ⟨.RS256, hv.1, rfl⟩
    · cases h
  issuer {_ _ _ v _ issuers} h hset _ := by
    simp only [twoAudiences] at h
    split at h
    · next hv =>
      cases h
      cases hset.symm.trans hv.2.1
      exact ⟨_, List.mem_singleton_self _, .inl rfl⟩
    · cases h
  audience {_ _ _ v _ auds} h hset _ := by
    simp only [twoAudiences] at h
    split at h
    · next hv =>
      cases h
      cases hset.symm.trans hv.2.2
      exact ⟨_, List.mem_singleton_self _, .inr ⟨_, rfl, by simp⟩⟩
    · cases h

theorem validateIdToken_accepted_twoAudiences :
    Accepted twoAudiences (fun alg _ _ => alg = .RS256)
      ⟨"https://idp.example.com", "", "", "", ["HS256", "RS256"]⟩ ⟨[⟨some "k1", some "RS256", "{}"⟩]⟩
      ⟨"https://idp.example.com", "client", "n", [.RS256]⟩ "token" twoAudiences.twoClaims := by
  have halgs : signingAlgorithms twoAudiences ⟨"https://idp.example.com", "", "", "", ["HS256", "RS256"]⟩ =
    .ok [.RS256] := rfl
  have h : validateIdToken twoAudiences 0 "token" ⟨[⟨some "k1", some "RS256", "{}"⟩]⟩
    ⟨"https://idp.example.com", "client", "n", [.RS256]⟩ = .ok twoAudiences.twoClaims := rfl
  exact validateIdToken_accepted twoAudiences_checks halgs h

end FerrKit.OAuth
