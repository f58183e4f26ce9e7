/-
The expiries of `crates/auth`: of an access token (`issue_token_for`) and of
a refresh session (`create` and `rotate`). A lifetime that is too long is cut
where the config or the call takes it, to `i64::MAX` seconds or to fourteen
days, and added to the current time elsewhere. What the first leaves can be
more than the second has room for.
-/
import FerrKit.Auth.Jwt
import FerrKit.Auth.SessionModel

namespace FerrKit.Auth

/-! ## Access tokens -/

/-- `Utc::now().timestamp()`. -/
def timestamp (now : Int) : Int := now / nanosPerSec

theorem timestamp_bounds {now : Int} (hnow : IsChronoInstant now) :
    chronoMinUtc ≤ timestamp now ∧ timestamp now ≤ chronoMaxUtc := by
  obtain ⟨hlow, hhigh⟩ := hnow
  simp only [timestamp, chronoMinUtc, chronoMaxUtc, nanosPerSec] at hlow hhigh ⊢
  omega

theorem ttlSeconds_bounds (ttl : Duration) : 0 ≤ Jwt.ttlSeconds ttl ∧ Jwt.ttlSeconds ttl ≤ Jwt.i64Max := by
  unfold Jwt.ttlSeconds
  split
  · next h => exact ⟨Int.natCast_nonneg _, h⟩
  · exact ⟨by decide, Int.le_refl _⟩

/-- An `i64` sum that starts no lower than chrono does. -/
theorem bmod_eq_iff {secs ttl : Int} (hsecs : chronoMinUtc ≤ secs ∧ secs ≤ chronoMaxUtc)
    (httl : 0 ≤ ttl ∧ ttl ≤ Jwt.i64Max) : (secs + ttl).bmod (2 ^ 64) = secs + ttl ↔ secs + ttl ≤ Jwt.i64Max := by
  simp only [chronoMinUtc, chronoMaxUtc, Jwt.i64Max] at hsecs httl ⊢
  rw [Int.bmod_def]
  omega

theorem accessTtlSeconds_fromEd25519Pems {Enc Dec : Type} {o : Jwt.Outside Enc Dec} {privatePem publicPem : List UInt8}
    {issuer : String} {ttl : Duration} {config : Jwt.JwtConfig Enc Dec}
    (h : Jwt.JwtConfig.fromEd25519Pems o privatePem publicPem issuer ttl = .ok config) :
    config.accessTtlSeconds = Jwt.ttlSeconds ttl := by
  simp only [Jwt.JwtConfig.fromEd25519Pems, Except.bind_ok_iff] at h
  obtain ⟨_, _, _, _, h⟩ := h
  cases h
  rfl

/-! ## Refresh sessions -/

/-- What `create` and `rotate` add to the current time. -/
def refreshDelta (ttl : Duration) : Int := (chronoFromStd ttl).getD (chronoDays 14)

theorem refreshDelta_nonneg (ttl : Duration) : 0 ≤ refreshDelta ttl := by
  unfold refreshDelta chronoFromStd
  split
  · exact Int.natCast_nonneg _
  · decide

theorem refreshExpiry_some_iff {now t : Int} {ttl : Duration} (hnow : IsChronoInstant now) :
    refreshExpiry now ttl = some t ↔
      t = now + refreshDelta ttl ∧ now + refreshDelta ttl < (chronoMaxUtc + 1) * nanosPerSec :=
  chronoAdd_forward hnow (refreshDelta_nonneg ttl)

section Store

variable {hashRefreshToken : String → List UInt8} {s : St} {id familyId userId : Uuid} {token : String}
  {userAgent ip : Option String} {ttl : Duration} {now : Int}

theorem create_expiry_iff (hnow : IsChronoInstant now) (hid : id ∉ s.drawn) (hfamily : familyId ∉ s.drawn)
    (htoken : hashRefreshToken token ∉ s.hashes) :
    (∃ s' row, step hashRefreshToken s (.create id familyId userId token userAgent ip ttl now) = some s' ∧
        s'.rows = s.rows ++ [row] ∧ now ≤ row.expiresAt) ↔
      now + refreshDelta ttl < (chronoMaxUtc + 1) * nanosPerSec := by
  have hfresh : ¬ (id ∈ s.drawn ∨ familyId ∈ s.drawn ∨ hashRefreshToken token ∈ s.hashes) := by
    simp [hid, hfamily, htoken]
  simp only [step, if_neg hfresh, Option.map_eq_some_iff, refreshExpiry_some_iff hnow]
  constructor
  · rintro ⟨_, _, ⟨_, ⟨_, hroom⟩, _⟩, _⟩
    exact hroom
  · intro hroom
    have hdelta := refreshDelta_nonneg ttl
    exact ⟨_, _, ⟨_, ⟨rfl, hroom⟩, rfl⟩, rfl, by simp only [newSession]; omega⟩

theorem rotate_expiry_iff {k : Nat} {old : Session} {presented : String} (hnow : IsChronoInstant now)
    (hid : id ∉ s.drawn) (htoken : hashRefreshToken token ∉ s.hashes) :
    (∃ new drawn, Call.next hashRefreshToken s k ⟨.rotate presented ttl, .marked old now⟩ (.insert k id token) =
        some (.inserted old now new, drawn) ∧ now ≤ new.session.expiresAt) ↔
      now + refreshDelta ttl < (chronoMaxUtc + 1) * nanosPerSec := by
  have hfresh : ¬ (id ∈ s.drawn ∨ hashRefreshToken token ∈ s.hashes) := by simp [hid, htoken]
  simp only [Call.next, if_neg hfresh, Option.map_eq_some_iff, refreshExpiry_some_iff hnow]
  constructor
  · rintro ⟨_, _, ⟨_, ⟨_, hroom⟩, _⟩, _⟩
    exact hroom
  · intro hroom
    have hdelta := refreshDelta_nonneg ttl
    exact ⟨_, _, ⟨_, ⟨rfl, hroom⟩, rfl⟩, by simp only [newSession]; omega⟩

end Store

/-! ## Both -/

theorem issue_expiry_iff {Enc Dec : Type} {config : Jwt.JwtConfig Enc Dec} {ttl : Duration} {now : Int}
    {user : Jwt.Uuid} {org : Option Jwt.Uuid} {aud : Option String}
    (hconfig : config.accessTtlSeconds = Jwt.ttlSeconds ttl) (hnow : IsChronoInstant now) :
    ((config.claimsFor (timestamp now) user org aud).exp = timestamp now + config.accessTtlSeconds ∧
        (config.claimsFor (timestamp now) user org aud).iat ≤ (config.claimsFor (timestamp now) user org aud).exp) ↔
      timestamp now + Jwt.ttlSeconds ttl ≤ Jwt.i64Max := by
  have httl := ttlSeconds_bounds ttl
  simp only [Jwt.JwtConfig.claimsFor, hconfig]
  rw [← bmod_eq_iff (timestamp_bounds hnow) httl]
  constructor
  · exact And.left
  · intro hexp
    exact ⟨hexp, by omega⟩

/-- **When an expiry can be computed.** For an access token, exactly when the
current time and the lifetime, cut to `i64::MAX` seconds, are an `i64`
together; for `create` and `rotate`, exactly when chrono has a date for the
current time and the lifetime, or fourteen days. It is then not before the
time of issue. -/
theorem expiries_iff {Enc Dec : Type} {o : Jwt.Outside Enc Dec} {privatePem publicPem : List UInt8} {issuer : String}
    {accessTtl : Duration} {config : Jwt.JwtConfig Enc Dec} {now : Int} (user : Jwt.Uuid) (org : Option Jwt.Uuid)
    (aud : Option String) (refreshTtl : Duration) (userId : Uuid) (userAgent ip : Option String) (presented : String)
    (k : Nat) (old : Session) {hashRefreshToken : String → List UInt8} {s : St} {id familyId : Uuid} {token : String}
    (hconfig : Jwt.JwtConfig.fromEd25519Pems o privatePem publicPem issuer accessTtl = .ok config)
    (hnow : IsChronoInstant now) (hid : id ∉ s.drawn) (hfamily : familyId ∉ s.drawn)
    (htoken : hashRefreshToken token ∉ s.hashes) :
    (((config.claimsFor (timestamp now) user org aud).exp = timestamp now + config.accessTtlSeconds ∧
        (config.claimsFor (timestamp now) user org aud).iat ≤ (config.claimsFor (timestamp now) user org aud).exp) ↔
      timestamp now + Jwt.ttlSeconds accessTtl ≤ Jwt.i64Max) ∧
    ((∃ s' row, step hashRefreshToken s (.create id familyId userId token userAgent ip refreshTtl now) = some s' ∧
        s'.rows = s.rows ++ [row] ∧ now ≤ row.expiresAt) ↔
      now + refreshDelta refreshTtl < (chronoMaxUtc + 1) * nanosPerSec) ∧
    ((∃ new drawn, Call.next hashRefreshToken s k ⟨.rotate presented refreshTtl, .marked old now⟩ (.insert k id token) =
        some (.inserted old now new, drawn) ∧ now ≤ new.session.expiresAt) ↔
      now + refreshDelta refreshTtl < (chronoMaxUtc + 1) * nanosPerSec) :=
  ⟨issue_expiry_iff (accessTtlSeconds_fromEd25519Pems hconfig) hnow, create_expiry_iff hnow hid hfamily htoken,
    rotate_expiry_iff hnow hid htoken⟩

/-- The instant of `1_700_000_000` seconds. -/
def someNow : Int := 1700000000 * nanosPerSec

/-- A config of that lifetime, with keys that are not looked at. -/
def configOf (ttl : Duration) : Jwt.JwtConfig Unit Unit :=
  ⟨some (), [()], "ferrlabs", none, Jwt.ttlSeconds ttl, by decide⟩

theorem expiries_iff_fortnight :
    ∃ s' row,
      step (fun _ => []) init (.create 1 2 3 "token" none none (.fromSecs 1209600) someNow) = some s' ∧
      s'.rows = init.rows ++ [row] ∧ someNow ≤ row.expiresAt := by
  have hconfig : Jwt.JwtConfig.fromEd25519Pems
      ⟨fun _ => .ok (), fun _ => .ok (), fun _ _ _ => .ok "", fun _ _ _ _ => .error .invalidSignature⟩ [] [] "ferrlabs"
      (.fromSecs 900) = .ok (configOf (.fromSecs 900)) := rfl
  have hid : 1 ∉ init.drawn := by decide
  have hfamily : 2 ∉ init.drawn := by decide
  have htoken : (fun _ => [] : String → List UInt8) "token" ∉ init.hashes := by decide
  exact (expiries_iff 7 none none (.fromSecs 1209600) 3 none none "" 0
    (newSession 1 3 2 [] none none someNow someNow) hconfig ⟨by decide, by decide⟩ hid hfamily htoken).2.1.2 (by decide)

/-- The longest lifetimes: the access token expires before it is issued, and
no session can be created. -/
theorem longest_ttl_overflows :
    ((configOf ⟨2 ^ 64 - 1, 0, by decide, by decide⟩).claimsFor (timestamp someNow) 7 none none).exp <
        ((configOf ⟨2 ^ 64 - 1, 0, by decide, by decide⟩).claimsFor (timestamp someNow) 7 none none).iat ∧
      step (fun _ => []) init
        (.create 1 2 3 "token" none none (.fromSecs 9223372036854775) someNow) = none := by
  decide

end FerrKit.Auth
