/-
The CORS layer (`crates/middleware/src/cors.rs`). `AllowOrigin::list` of
`tower-http` panics on a list with the wildcard in it, so `corsLayer` is
`none` where it does. Which bytes a header value may have is the `http`
crate's to say, and a parameter.
-/
import FerrKit.Lib.Duration
import FerrKit.Lib.Wire

namespace FerrKit.Middleware

structure CorsConfig where
  allowedOrigins : List String
  allowCredentials : Bool

inductive CorsError
  | invalidOrigin (origin : String)
  | wildcardWithCredentials
  deriving DecidableEq

/-- Its bytes. -/
structure HeaderValue where
  bytes : List UInt8
  deriving DecidableEq

def wildcard : HeaderValue := ⟨Wire.bytes "*"⟩

inductive Method
  | get | post | put | patch | delete | options
  deriving DecidableEq

structure CorsLayer where
  allowOrigin : List HeaderValue
  allowMethods : List Method
  allowHeaders : List String
  allowCredentials : Bool
  maxAge : Duration

def preflightMaxAge : Duration := .fromSecs 3600

variable (validByte : UInt8 → Bool)

/-- `parse::<HeaderValue>()`. -/
def parseHeaderValue (s : String) : Option HeaderValue :=
  if (Wire.bytes s).all validByte then some ⟨Wire.bytes s⟩ else none

/-- The origins, or the first that is not a header value. -/
def parseOrigins (origins : List String) : Except CorsError (List HeaderValue) :=
  origins.mapM fun origin =>
    match parseHeaderValue validByte origin with
    | some value => .ok value
    | none => .error (.invalidOrigin origin)

/-- `AllowOrigin::list`, or `none` where it panics. -/
def allowOriginList (origins : List HeaderValue) : Option (List HeaderValue) :=
  if wildcard ∈ origins then none else some origins

/-- `cors_layer`, or `none` where it panics. -/
def corsLayer (config : CorsConfig) : Option (Except CorsError CorsLayer) :=
  if config.allowCredentials && config.allowedOrigins.any (· == "*") then some (.error .wildcardWithCredentials)
  else
    match parseOrigins validByte config.allowedOrigins with
    | .error e => some (.error e)
    | .ok origins =>
      (allowOriginList origins).map fun allowOrigin => .ok
        { allowOrigin
          allowMethods := [.get, .post, .put, .patch, .delete, .options]
          allowHeaders := ["content-type", "authorization", "accept", "x-signature", "x-timestamp"]
          allowCredentials := config.allowCredentials
          maxAge := preflightMaxAge }

/-! ## The origins -/

variable {validByte} {origins : List String} {config : CorsConfig}

/-- Every origin is a header value. -/
def AllValid (validByte : UInt8 → Bool) (origins : List String) : Prop :=
  ∀ origin ∈ origins, (Wire.bytes origin).all validByte = true

instance : Decidable (AllValid validByte origins) := inferInstanceAs (Decidable (∀ _ ∈ _, _))

theorem parseOrigins_valid (h : AllValid validByte origins) :
    parseOrigins validByte origins = .ok (origins.map fun origin => ⟨Wire.bytes origin⟩) := by
  induction origins with
  | nil => rfl
  | cons origin origins ih =>
    obtain ⟨horigin, hrest⟩ := List.forall_mem_cons.1 h
    have hih := ih hrest
    unfold parseOrigins at hih ⊢
    rw [List.mapM_cons, hih, parseHeaderValue, if_pos horigin]
    rfl

theorem parseOrigins_invalid (h : ¬ AllValid validByte origins) :
    ∃ origin ∈ origins, parseOrigins validByte origins = .error (.invalidOrigin origin) := by
  induction origins with
  | nil => exact absurd (by simp [AllValid]) h
  | cons origin origins ih =>
    unfold parseOrigins at ih ⊢
    rw [List.mapM_cons, parseHeaderValue]
    by_cases horigin : (Wire.bytes origin).all validByte = true
    · have hrest : ¬ AllValid validByte origins := fun hrest => h (List.forall_mem_cons.2 ⟨horigin, hrest⟩)
      obtain ⟨bad, hbad, herror⟩ := ih hrest
      rw [if_pos horigin, herror]
      exact ⟨bad, List.mem_cons_of_mem _ hbad, rfl⟩
    · rw [if_neg horigin]
      exact ⟨origin, List.mem_cons_self, rfl⟩

theorem wildcard_mem_iff : wildcard ∈ origins.map (fun origin => (⟨Wire.bytes origin⟩ : HeaderValue)) ↔ "*" ∈ origins := by
  simp only [List.mem_map, wildcard, HeaderValue.mk.injEq]
  constructor
  · rintro ⟨origin, horigin, hbytes⟩
    rwa [← Wire.bytes_injective hbytes]
  · intro h
    exact ⟨"*", h, rfl⟩

theorem guard_iff : (config.allowCredentials && config.allowedOrigins.any (· == "*")) = true ↔
    config.allowCredentials = true ∧ "*" ∈ config.allowedOrigins := by
  simp

/-! ## The results -/

/-- Past the guard, the layer is built unless there is a wildcard among
header values. -/
theorem corsLayer_isSome_of_guard (h : ¬ (config.allowCredentials = true ∧ "*" ∈ config.allowedOrigins)) :
    (corsLayer validByte config).isSome ↔
      "*" ∉ config.allowedOrigins ∨ ¬ AllValid validByte config.allowedOrigins := by
  rw [corsLayer, if_neg (guard_iff.not.2 h)]
  by_cases hvalid : AllValid validByte config.allowedOrigins
  · by_cases hstar : "*" ∈ config.allowedOrigins
    · simp [parseOrigins_valid hvalid, allowOriginList, wildcard_mem_iff, hvalid, hstar]
    · simp [parseOrigins_valid hvalid, allowOriginList, wildcard_mem_iff, hstar]
  · obtain ⟨origin, -, herror⟩ := parseOrigins_invalid hvalid
    simp [herror, hvalid]

/-- Past the guard, the wildcard is not what is reported. -/
theorem corsLayer_of_guard (h : ¬ (config.allowCredentials = true ∧ "*" ∈ config.allowedOrigins)) :
    corsLayer validByte config ≠ some (.error .wildcardWithCredentials) := by
  rw [corsLayer, if_neg (guard_iff.not.2 h)]
  by_cases hvalid : AllValid validByte config.allowedOrigins
  · simp [parseOrigins_valid hvalid]
  · obtain ⟨origin, -, herror⟩ := parseOrigins_invalid hvalid
    simp [herror]

/-- **A wildcard without credentials panics.** The layer comes back, with a
result or an error, exactly when credentials are allowed, no origin is the
wildcard or some origin is not a header value; and the wildcard is reported
with credentials, and only then. -/
theorem corsLayer_returns_iff (validByte : UInt8 → Bool) (config : CorsConfig) :
    ((corsLayer validByte config).isSome ↔
        config.allowCredentials = true ∨ "*" ∉ config.allowedOrigins ∨
          ¬ AllValid validByte config.allowedOrigins) ∧
      (corsLayer validByte config = some (.error .wildcardWithCredentials) ↔
        config.allowCredentials = true ∧ "*" ∈ config.allowedOrigins) := by
  by_cases hguard : config.allowCredentials = true ∧ "*" ∈ config.allowedOrigins
  · have hrefused : corsLayer validByte config = some (.error .wildcardWithCredentials) := by
      rw [corsLayer, if_pos (guard_iff.2 hguard)]
    exact ⟨iff_of_true (by simp [hrefused]) (.inl hguard.1), iff_of_true hrefused hguard⟩
  · refine ⟨?_, iff_of_false (corsLayer_of_guard hguard) hguard⟩
    rw [corsLayer_isSome_of_guard hguard]
    constructor
    · exact .inr
    · rintro (hcredentials | h)
      · exact .inl fun hstar => hguard ⟨hcredentials, hstar⟩
      · exact h

/-- The bytes of the `http` crate: no control characters but the tab. -/
def httpByte (b : UInt8) : Bool := (32 ≤ b && b != 127) || b == 9

/-- A public API, open to every origin. -/
theorem open_origin_panics : corsLayer httpByte ⟨["*"], false⟩ = none := by decide

end FerrKit.Middleware
