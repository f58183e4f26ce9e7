/-
A config that accepts several keys (`verify_token` and
`with_previous_public_pem`). The loop keeps one error and lets a claim failure
overwrite it, so which key of the ring comes first, or twice, makes no
difference: what counts is whether the ring has a key the token's signature
fits.
-/
import FerrKit.Auth.Audience

namespace FerrKit.Auth.Jwt

/-- The claim a signed token fails on, as `decode` and `verify_token` name it. -/
inductive ClaimFailure : ErrorKind → JwtError → Prop
  | exp : ClaimFailure .expiredSignature .expired
  | nbf : ClaimFailure .immatureSignature .notYetValid
  | iss : ClaimFailure .invalidIssuer .wrongIssuer
  | aud : ClaimFailure .invalidAudience .wrongAudience
  | noAud : ClaimFailure (.missingRequiredClaim "aud") .wrongAudience

theorem ClaimFailure.mapError_eq {e : ErrorKind} {failure : JwtError} (h : ClaimFailure e failure) :
    mapError e = failure := by
  cases h <;> rfl

theorem mapError_otherwise {e : ErrorKind} (h : ¬ ∃ failure, ClaimFailure e failure) : mapError e = .invalid := by
  cases e with
  | invalidSignature | other => rfl
  | expiredSignature => exact absurd ⟨_, .exp⟩ h
  | immatureSignature => exact absurd ⟨_, .nbf⟩ h
  | invalidIssuer => exact absurd ⟨_, .iss⟩ h
  | invalidAudience => exact absurd ⟨_, .aud⟩ h
  | missingRequiredClaim claim =>
    refine if_neg fun haud => h ⟨.wrongAudience, ?_⟩
    subst haud
    exact .noAud

variable {Enc Dec : Type} {o : Outside Enc Dec}

/-- What is relied on of `decode` for one token. A malformed one has the same
error under every key, which is about neither the signature nor a claim. Any
other has one outcome under the keys its signature fits and
`InvalidSignature` under the rest. -/
inductive Decodes (decode : Dec → Except ErrorKind Claims) (fits : Dec → Prop) :
    Option (Except ErrorKind Claims) → Prop
  | malformed {e : ErrorKind} (unclaimed : ¬ ∃ failure, ClaimFailure e failure) (unsigned : e ≠ .invalidSignature)
      (same : ∀ key, decode key = .error e) : Decodes decode fits none
  | signed {r : Except ErrorKind Claims} (decided : r ≠ .error .invalidSignature)
      (fit : ∀ key, fits key → decode key = r) (unfit : ∀ key, ¬ fits key → decode key = .error .invalidSignature) :
      Decodes decode fits (some r)

section Ring

variable {now : Nat} {config : JwtConfig Enc Dec} {token : String} {fits : Dec → Prop}
  {r : Except ErrorKind Claims}

theorem verifyToken_malformed
    (h : Decodes (fun key => o.decode now token key config.validation) fits none) :
    verifyToken o now config token = .error .invalid := by
  cases h with
  | @malformed e unclaimed unsigned same =>
    obtain ⟨key, keys, hkeys⟩ := List.exists_cons_of_ne_nil config.hasKey
    have hkey : key ∈ config.decodingKeys := by rw [hkeys]; exact List.mem_cons_self ..
    have hverify : verifyToken o now config token = .error (mapError e) :=
      verifyToken_of_tryKeys (r := .error e)
        (tryKeys_signed (by simpa using unsigned) (fun key _ => .inr (same key)) ⟨key, hkey, same key⟩)
    rw [hverify, mapError_otherwise unclaimed]

theorem verifyToken_fits (h : Decodes (fun key => o.decode now token key config.validation) fits (some r))
    (hfits : ∃ key ∈ config.decodingKeys, fits key) : verifyToken o now config token = r.mapError mapError := by
  cases h with
  | signed decided fit unfit =>
    obtain ⟨key, hmem, hkey⟩ := hfits
    refine verifyToken_of_tryKeys (tryKeys_signed decided (fun key' _ => ?_) ⟨key, hmem, fit key hkey⟩)
    by_cases hkey' : fits key'
    · exact .inr (fit key' hkey')
    · exact .inl (unfit key' hkey')

theorem verifyToken_unfit (h : Decodes (fun key => o.decode now token key config.validation) fits (some r))
    (hfits : ¬ ∃ key ∈ config.decodingKeys, fits key) : verifyToken o now config token = .error .invalid := by
  cases h with
  | signed decided fit unfit =>
    have hloop := tryKeys_unsigned config.hasKey fun key hkey => unfit key fun hfit => hfits ⟨key, hkey, hfit⟩
    exact verifyToken_of_tryKeys (r := .error .invalidSignature) hloop

/-- The keys count as a set. -/
theorem verifyToken_keys {outcome : Option (Except ErrorKind Claims)} {keys : List Dec} (hne : keys ≠ [])
    (h : Decodes (fun key => o.decode now token key config.validation) fits outcome)
    (hsame : ∀ key, key ∈ keys ↔ key ∈ config.decodingKeys) :
    verifyToken o now { config with decodingKeys := keys, hasKey := hne } token = verifyToken o now config token := by
  let config' : JwtConfig Enc Dec := { config with decodingKeys := keys, hasKey := hne }
  -- the validation does not read the keys
  have h' : Decodes (fun key => o.decode now token key config'.validation) fits outcome := h
  show verifyToken o now config' token = verifyToken o now config token
  cases outcome with
  | none => rw [verifyToken_malformed h, verifyToken_malformed h']
  | some r =>
    by_cases hfits : ∃ key ∈ config.decodingKeys, fits key
    · have hfits' : ∃ key ∈ config'.decodingKeys, fits key := by simpa only [config', hsame] using hfits
      rw [verifyToken_fits h hfits, verifyToken_fits h' hfits']
    · have hfits' : ¬ ∃ key ∈ config'.decodingKeys, fits key := by simpa only [config', hsame] using hfits
      rw [verifyToken_unfit h hfits, verifyToken_unfit h' hfits']

/-- **The verdict does not depend on where a key stands in the ring.** The
keys may be permuted and repeated. With a key the signature fits, the claims
come back or the claim that failed is named; in every other case the answer
is `Invalid`. -/
theorem verifyToken_ring {outcome : Option (Except ErrorKind Claims)}
    (h : Decodes (fun key => o.decode now token key config.validation) fits outcome) :
    (∀ keys (hne : keys ≠ []), (∀ key, key ∈ keys ↔ key ∈ config.decodingKeys) →
      verifyToken o now { config with decodingKeys := keys, hasKey := hne } token = verifyToken o now config token) ∧
    (∀ claims, outcome = some (.ok claims) → (∃ key ∈ config.decodingKeys, fits key) →
      verifyToken o now config token = .ok claims) ∧
    (∀ e failure, outcome = some (.error e) → ClaimFailure e failure → (∃ key ∈ config.decodingKeys, fits key) →
      verifyToken o now config token = .error failure) ∧
    ((∀ claims, outcome = some (.ok claims) → ¬ ∃ key ∈ config.decodingKeys, fits key) →
      (∀ e failure, outcome = some (.error e) → ClaimFailure e failure → ¬ ∃ key ∈ config.decodingKeys, fits key) →
      verifyToken o now config token = .error .invalid) := by
  refine ⟨fun keys hne hsame => verifyToken_keys hne h hsame, ?_, ?_, ?_⟩
  · rintro claims rfl hfits
    rw [verifyToken_fits h hfits]
    rfl
  · rintro e failure rfl hfailure hfits
    rw [verifyToken_fits h hfits, ← hfailure.mapError_eq]
    rfl
  · intro hok hfailed
    cases outcome with
    | none => exact verifyToken_malformed h
    | some r =>
      by_cases hfits : ∃ key ∈ config.decodingKeys, fits key
      · cases r with
        | ok claims => exact absurd hfits (hok claims rfl)
        | error e =>
          have hother : ¬ ∃ failure, ClaimFailure e failure := fun ⟨failure, hfailure⟩ =>
            hfailed e failure rfl hfailure hfits
          rw [verifyToken_fits h hfits, Except.mapError_error, mapError_otherwise hother]
      · exact verifyToken_unfit h hfits

end Ring

theorem verifyToken_ring_product :
    let signed := central.claimsFor 1000 7 none (some "api.ferrtrack.com")
    verifyToken (oneToken signed) 1500 { product with decodingKeys := [1, 2, 2], hasKey := by decide } "token" =
        verifyToken (oneToken signed) 1500 product "token" ∧
      verifyToken (oneToken signed) 1500 product "token" = .ok signed := by
  intro signed
  have h : Decodes (fun key => (oneToken signed).decode 1500 "token" key product.validation) (· = 1)
      (some (.ok signed)) := by
    refine .signed nofun ?_ fun key hkey => if_neg fun hboth => hkey hboth.2
    rintro key rfl
    decide
  obtain ⟨hkeys, hok, -, -⟩ := verifyToken_ring h
  exact ⟨hkeys [1, 2, 2] (by decide) (by simp [product]; omega), hok signed rfl ⟨1, by decide, rfl⟩⟩

end FerrKit.Auth.Jwt
