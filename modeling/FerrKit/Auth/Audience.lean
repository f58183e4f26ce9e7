/-
Which config accepts which config's tokens. One key signs for every product,
so what keeps a token at the product it was issued for is `aud`: present or
absent, it has to be what the verifier was configured with.

The loop of `verify_token` is reduced to the outcome under the key the token
was signed with (`tryKeys_signed`, `tryKeys_unsigned`); what is left are the
four cases of an audience at the issuer and at the verifier.
-/
import FerrKit.Auth.Jwt

namespace FerrKit.Auth.Jwt

variable {Enc Dec : Type} {o : Outside Enc Dec}

/-! ## The loop -/

section Loop

variable {decode : Dec → Except ErrorKind Claims}

/-- Keys that do not fit leave the error that is there. -/
theorem tryKeys_keep {e : ErrorKind} : ∀ {keys : List Dec}, (∀ key ∈ keys, decode key = .error .invalidSignature) →
    tryKeys decode keys (some e) = .error (some e)
  | [], _ => rfl
  | key :: keys, h => by
    rw [tryKeys, h key (List.mem_cons_self ..)]
    exact tryKeys_keep fun key' hkey' => h key' (List.mem_cons_of_mem _ hkey')

theorem tryKeys_unsigned {keys : List Dec} (hne : keys ≠ [])
    (h : ∀ key ∈ keys, decode key = .error .invalidSignature) :
    tryKeys decode keys none = .error (some .invalidSignature) := by
  cases keys with
  | nil => cases hne rfl
  | cons key keys =>
    rw [tryKeys, h key (List.mem_cons_self ..)]
    exact tryKeys_keep fun key' hkey' => h key' (List.mem_cons_of_mem _ hkey')

/-- A key that fits decides, wherever it stands among keys that do not. -/
theorem tryKeys_signed {r : Except ErrorKind Claims} (hr : r ≠ .error .invalidSignature) :
    ∀ {keys : List Dec} {best : Option ErrorKind},
      (∀ key ∈ keys, decode key = .error .invalidSignature ∨ decode key = r) → (∃ key ∈ keys, decode key = r) →
        tryKeys decode keys best = r.mapError some
  | [], _, _, hex => by
    obtain ⟨_, hmem, _⟩ := hex
    cases hmem
  | key :: keys, best, hall, hex => by
    have hrest : ∀ key' ∈ keys, decode key' = .error .invalidSignature ∨ decode key' = r :=
      fun key' hkey' => hall key' (List.mem_cons_of_mem _ hkey')
    by_cases hlater : ∃ key' ∈ keys, decode key' = r
    · -- whatever this key answers, unless it is an `Ok`, a later one decides
      have ih : ∀ best, tryKeys decode keys best = r.mapError some := fun _ => tryKeys_signed hr hrest hlater
      rw [tryKeys]
      obtain hkey | hkey := hall key (List.mem_cons_self ..)
      · rw [hkey]
        exact ih _
      · cases r with
        | ok claims => rw [hkey]; rfl
        | error e => rw [hkey]; exact ih _
    · have hkey : decode key = r := by
        obtain ⟨key', hmem, hkey'⟩ := hex
        obtain rfl | hmem := List.mem_cons.1 hmem
        · exact hkey'
        · exact absurd ⟨key', hmem, hkey'⟩ hlater
      rw [tryKeys, hkey]
      cases r with
      | ok claims => rfl
      | error e =>
        have hclaim : e ≠ .invalidSignature := fun he => hr (by rw [he])
        simp only [hclaim, ne_eq, not_false_eq_true, decide_true, Bool.or_true, if_true]
        exact tryKeys_keep fun key' hmem =>
          (hrest key' hmem).resolve_right fun hkey' => hlater ⟨key', hmem, hkey'⟩

end Loop

/-- `verify_token`, by what the loop ends with. -/
theorem verifyToken_of_tryKeys {now : Nat} {config : JwtConfig Enc Dec} {token : String} {r : Except ErrorKind Claims}
    (h : tryKeys (fun key => o.decode now token key config.validation) config.decodingKeys none = r.mapError some) :
    verifyToken o now config token = r.mapError mapError := by
  unfold verifyToken
  split
  · next claims hok =>
    rw [h] at hok
    cases r <;> cases hok
    rfl
  · next best herr =>
    have hbest := h.symm.trans herr
    cases r with
    | ok claims => cases hbest
    | error e => cases hbest; rfl

/-! ## The checks of an issued token -/

theorem mem_algorithms (config : JwtConfig Enc Dec) : .EdDSA ∈ config.validation.algorithms := List.mem_singleton_self _

section Checks

variable (A B : JwtConfig Enc Dec) (issued : Int) (user : Uuid) (org : Option Uuid) (aud : Option String)

theorem missing_claimsFor : B.validation.missing (A.claimsFor issued user org aud) =
    if aud = none ∧ B.audience ≠ none then some (.missingRequiredClaim "aud") else none := by
  cases aud <;> cases haud : B.audience <;>
    simp [Validation.missing, JwtConfig.validation, JwtConfig.claimsFor, haud]

theorem wrongIssuer_claimsFor : B.validation.wrongIssuer (A.claimsFor issued user org aud) =
    if A.issuer = B.issuer then none else some .invalidIssuer := by
  simp [Validation.wrongIssuer, JwtConfig.validation, JwtConfig.claimsFor]

theorem wrongAudience_claimsFor : B.validation.wrongAudience (A.claimsFor issued user org aud) =
    if aud ≠ none ∧ aud ≠ B.audience then some .invalidAudience else none := by
  cases aud <;> cases haud : B.audience <;>
    simp [Validation.wrongAudience, JwtConfig.validation, JwtConfig.claimsFor, haud]

variable {A B issued user org aud}

/-- What a verifier holds against a token of a config, before it expires. -/
theorem refusal_claimsFor {now : Nat} (hexp : now < (A.claimsFor issued user org aud).exp) :
    B.validation.refusal now (A.claimsFor issued user org aud) =
      if aud = none ∧ B.audience ≠ none then some (.missingRequiredClaim "aud")
      else if A.issuer ≠ B.issuer then some .invalidIssuer
      else if aud ≠ B.audience then some .invalidAudience
      else none := by
  have hlive : B.validation.expired now (A.claimsFor issued user org aud) = none := by
    rw [Validation.expired, if_neg]
    simp only [JwtConfig.validation, not_and]
    omega
  have hnbf : B.validation.immature now (A.claimsFor issued user org aud) = none := rfl
  rw [Validation.refusal, hlive, hnbf, missing_claimsFor, wrongIssuer_claimsFor, wrongAudience_claimsFor]
  by_cases hmissing : aud = none ∧ B.audience ≠ none
  · simp [hmissing]
  · by_cases hiss : A.issuer = B.issuer
    · by_cases haud : aud = B.audience
      · simp [hiss, haud]
      · have hcarried : aud ≠ none := fun hnone => hmissing ⟨hnone, fun hB => haud (by rw [hnone, hB])⟩
        simp [hiss, haud, hcarried]
    · simp [hmissing, hiss]

end Checks

/-- The outcome of decoding an issued token under its key. -/
def outcome (B : JwtConfig Enc Dec) (now : Nat) (claims : Claims) : Except ErrorKind Claims :=
  match B.validation.refusal now claims with
  | some e => .error e
  | none => .ok claims

/-! ## Across configs -/

section Across

variable {publicKey : Enc → Dec} {A B : JwtConfig Enc Dec} {enc : Enc} {issued : Int} {now : Nat} {user : Uuid}
  {org : Option Uuid} {aud : Option String} {token : String}

theorem encode_of_issued (henc : A.encodingKey = some enc) (htoken : issueTokenFor o issued A user org aud = .ok token) :
    o.encode .EdDSA (A.claimsFor issued user org aud) enc = .ok token := by
  simpa only [issueTokenFor, henc, Except.mapError_ok_iff] using htoken

theorem verifyToken_signed (ho : o.Documented publicKey)
    (htoken : o.encode .EdDSA (A.claimsFor issued user org aud) enc = .ok token)
    (hexp : now < (A.claimsFor issued user org aud).exp) (hmem : publicKey enc ∈ B.decodingKeys) :
    verifyToken o now B token = (outcome B now (A.claimsFor issued user org aud)).mapError mapError := by
  have hown : o.decode now token (publicKey enc) B.validation = outcome B now (A.claimsFor issued user org aud) :=
    ho.checks htoken (mem_algorithms B) (by omega)
  refine verifyToken_of_tryKeys (tryKeys_signed ?_ (fun key _ => ?_) ⟨publicKey enc, hmem, hown⟩)
  · rw [outcome, refusal_claimsFor hexp]
    split <;> grind
  · by_cases hkey : key = publicKey enc
    · exact .inr (by rw [hkey, hown])
    · exact .inl (ho.signature htoken (mem_algorithms B) hkey)

theorem verifyToken_unsigned (ho : o.Documented publicKey)
    (htoken : o.encode .EdDSA (A.claimsFor issued user org aud) enc = .ok token)
    (hmem : publicKey enc ∉ B.decodingKeys) : verifyToken o now B token = .error .invalid := by
  have hloop := tryKeys_unsigned B.hasKey fun key hkey =>
    (ho.signature htoken (mem_algorithms B) fun heq => hmem (heq ▸ hkey) :
      o.decode now token key B.validation = .error .invalidSignature)
  exact verifyToken_of_tryKeys (r := .error .invalidSignature) hloop

theorem outcome_ok_iff (hexp : now < (A.claimsFor issued user org aud).exp) {claims : Claims} :
    outcome B now (A.claimsFor issued user org aud) = .ok claims ↔
      claims = A.claimsFor issued user org aud ∧ A.issuer = B.issuer ∧ aud = B.audience := by
  rw [outcome, refusal_claimsFor hexp]
  by_cases hiss : A.issuer = B.issuer <;> by_cases haud : aud = B.audience <;> grind

theorem outcome_wrongAudience (hexp : now < (A.claimsFor issued user org aud).exp) (hiss : A.issuer = B.issuer)
    (haud : aud ≠ B.audience) :
    (outcome B now (A.claimsFor issued user org aud)).mapError mapError = .error .wrongAudience := by
  rw [outcome, refusal_claimsFor hexp]
  by_cases hmissing : aud = none ∧ B.audience ≠ none
  · rw [if_pos hmissing]
    rfl
  · rw [if_neg hmissing, if_neg (not_not.2 hiss), if_pos haud]
    rfl

/-- **A token is accepted exactly by the configs it is for.** Before it
expires, a token issued by one config passes at another exactly when that one
has its key, its issuer and its audience, absent or the same on both sides,
and it brings its claims back; where only the audience differs the answer is
`WrongAudience`. -/
theorem issued_token_verifies (ho : o.Documented publicKey) (henc : A.encodingKey = some enc)
    (htoken : issueTokenFor o issued A user org aud = .ok token) (hexp : now < (A.claimsFor issued user org aud).exp) :
    ((∃ claims, verifyToken o now B token = .ok claims) ↔
        publicKey enc ∈ B.decodingKeys ∧ A.issuer = B.issuer ∧ aud = B.audience) ∧
      (∀ claims, verifyToken o now B token = .ok claims → claims.sub = user ∧ claims.org = org ∧ claims.aud = aud) ∧
      (publicKey enc ∈ B.decodingKeys → A.issuer = B.issuer → aud ≠ B.audience →
        verifyToken o now B token = .error .wrongAudience) := by
  have hencoded := encode_of_issued henc htoken
  by_cases hmem : publicKey enc ∈ B.decodingKeys
  · simp only [verifyToken_signed ho hencoded hexp hmem, Except.mapError_ok_iff, outcome_ok_iff hexp, hmem, true_and]
    refine ⟨?_, ?_, fun _ hiss haud => outcome_wrongAudience hexp hiss haud⟩
    · simp
    · rintro claims ⟨rfl, -, -⟩
      exact ⟨rfl, rfl, rfl⟩
  · simp [verifyToken_unsigned ho hencoded hmem, hmem]

end Across

/-! ## Two products -/

/-- The config that signs for every product, with key 1. -/
def central : JwtConfig Nat Nat := ⟨some 1, [1], "ferrlabs", none, 900, by decide⟩

/-- A product in the middle of a rotation: key 1 is its previous one. -/
def product : JwtConfig Nat Nat := ⟨none, [2, 1], "ferrlabs", some "api.ferrtrack.com", 900, by decide⟩

/-- A library that signs one set of claims with key 1. -/
def oneToken (signed : Claims) : Outside Nat Nat where
  encodingKey _ := .error "unused"
  decodingKey _ := .error "unused"
  encode alg claims enc := if alg = .EdDSA ∧ claims = signed ∧ enc = 1 then .ok "token" else .error (.other "unused")
  decode now token key v :=
    if token = "token" ∧ key = 1 then
      match v.refusal now signed with
      | some e => .error e
      | none => .ok signed
    else .error .invalidSignature

theorem oneToken_documented (signed : Claims) : (oneToken signed).Documented id where
  signature {alg claims enc token now key v} h _ hkey := by
    simp only [oneToken] at h ⊢
    split at h
    · next hone =>
      obtain ⟨-, -, rfl⟩ := hone
      exact if_neg fun hboth => hkey hboth.2
    · cases h
  checks {alg claims enc token now v} h _ _ := by
    simp only [oneToken] at h ⊢
    split at h
    · next hone =>
      obtain ⟨-, rfl, rfl⟩ := hone
      cases h
      exact if_pos ⟨rfl, rfl⟩
    · cases h

theorem issued_token_verifies_product :
    ∃ claims, verifyToken (oneToken (central.claimsFor 1000 7 none (some "api.ferrtrack.com"))) 1500 product "token" =
      .ok claims := by
  have ho := oneToken_documented (central.claimsFor 1000 7 none (some "api.ferrtrack.com"))
  have htoken : issueTokenFor (oneToken (central.claimsFor 1000 7 none (some "api.ferrtrack.com"))) 1000 central 7 none
    (some "api.ferrtrack.com") = .ok "token" := by decide
  have hexp : ((1500 : Nat) : Int) < (central.claimsFor 1000 7 none (some "api.ferrtrack.com")).exp := by decide
  have hiff := issued_token_verifies (B := product) ho rfl htoken hexp
  exact hiff.1.2 ⟨by decide, rfl, rfl⟩

end FerrKit.Auth.Jwt
