/-
Which contract a request speaks (`crates/api-version/src/policy.rs`). A
version in the header is held against the served window; the pin and the
configured default, which stand in for a missing header, are not.
`with_default` caps the default at `current` but lets it fall below
`oldest_supported`, and a pin is taken as it is. So a version outside the
window is served exactly to such callers.

A context carries what its constructors guarantee: the window is not empty
and the default is not newer than `current`. The `debug_assert` of
`with_default` is not modelled; a debug build stops where a release build
takes the minimum.
-/
import FerrKit.Api.Transform

namespace FerrKit.Api

/-- `HeaderName`, as `HeaderName::from_bytes` normalises it. -/
abbrev HeaderName := String

/-- A header value, by what `to_str` makes of it. -/
structure HeaderValue where
  toStr : Option String

abbrev HeaderMap := List (HeaderName × HeaderValue)

structure PinnedApiVersion where
  version : ApiVersion

def defaultMaxBodyBytes : Nat := 4 * 1024 * 1024

inductive InvalidHeaderName
  | notAHeaderName | sunsetAfterCurrent
  deriving DecidableEq

def InvalidHeaderName.display : InvalidHeaderName → String
  | .notAHeaderName => "not a valid HTTP header name"
  | .sunsetAfterCurrent => "oldest supported version is newer than the current one"

inductive VersionRejection
  | malformed (raw : String)
  | fromTheFuture (requested current : ApiVersion)
  | sunset (requested oldestSupported : ApiVersion)
  | notTransformable
  deriving DecidableEq

/-- `into_response`: status, `error` and `message`. -/
def VersionRejection.intoResponse : VersionRejection → Nat × String × String
  | .malformed raw =>
    (400, "invalid_api_version", "`" ++ raw ++ "` is not an API version; expected a date of the form YYYY-MM-DD")
  | .fromTheFuture requested current =>
    (400, "unknown_api_version",
      "API version " ++ requested.display ++ " is newer than " ++ current.display ++ ", the latest served here")
  | .sunset requested oldestSupported =>
    (410, "sunset_api_version",
      "API version " ++ requested.display ++ " is no longer served; the oldest still supported is " ++
        oldestSupported.display)
  | .notTransformable =>
    (500, "api_version_not_applicable", "the response could not be rendered in the requested API version")

structure ApiVersionContext where
  header : HeaderName
  current : ApiVersion
  oldestSupported : ApiVersion
  default : ApiVersion
  maxBodyBytes : Nat
  registry : TransformRegistry
  window : oldestSupported ≤ current
  default_le_current : default ≤ current

namespace ApiVersionContext

/-- `fromBytes` is `HeaderName::from_bytes`. -/
def new (fromBytes : String → Option HeaderName) (header : String) (current oldestSupported : ApiVersion) :
    Except InvalidHeaderName ApiVersionContext :=
  if h : oldestSupported > current then .error .sunsetAfterCurrent
  else
    match fromBytes header with
    | none => .error .notAHeaderName
    | some header => .ok
      { header, current, oldestSupported, default := oldestSupported, maxBodyBytes := defaultMaxBodyBytes,
        registry := .new, window := not_lt.1 h, default_le_current := not_lt.1 h }

def withRegistry (ctx : ApiVersionContext) (registry : TransformRegistry) : ApiVersionContext := { ctx with registry }

def withDefault (ctx : ApiVersionContext) (default : ApiVersion) : ApiVersionContext :=
  { ctx with default := min default ctx.current, default_le_current := min_le_right _ _ }

def withMaxBodyBytes (ctx : ApiVersionContext) (max : Nat) : ApiVersionContext := { ctx with maxBodyBytes := max }

def resolve (ctx : ApiVersionContext) (headers : HeaderMap) (pinned : Option PinnedApiVersion) :
    Except VersionRejection ApiVersion :=
  match headers.lookup ctx.header with
  | none => .ok ((pinned.map (·.version)).getD ctx.default)
  | some raw =>
    match raw.toStr with
    | none => .error (.malformed "")
    | some raw =>
      match ApiVersion.fromStr raw with
      | .error _ => .error (.malformed raw)
      | .ok version =>
        if version > ctx.current then .error (.fromTheFuture version ctx.current)
        else if version < ctx.oldestSupported then .error (.sunset version ctx.oldestSupported)
        else .ok version

/-! ## The served window -/

/-- The versions a context serves. -/
def InWindow (ctx : ApiVersionContext) (v : ApiVersion) : Prop := ctx.oldestSupported ≤ v ∧ v ≤ ctx.current

/-- A request has the header, or else a pin in the window, or else neither
and the default is not older than `oldest_supported`. -/
def FallbackServed (ctx : ApiVersionContext) (headers : HeaderMap) (pinned : Option PinnedApiVersion) : Prop :=
  headers.lookup ctx.header = none →
    match pinned with
    | some pin => ctx.InWindow pin.version
    | none => ctx.oldestSupported ≤ ctx.default

/-- A version that comes in the header is in the window or refused. -/
theorem resolve_header {ctx : ApiVersionContext} {headers : HeaderMap} {pinned : Option PinnedApiVersion}
    {raw : HeaderValue} {v : ApiVersion} (hh : headers.lookup ctx.header = some raw)
    (h : ctx.resolve headers pinned = .ok v) : ctx.InWindow v := by
  unfold resolve at h
  simp only [hh] at h
  split at h
  · cases h
  split at h
  · cases h
  split at h
  · cases h
  next hcur =>
  split at h
  · cases h
  next hold =>
  cases h
  exact ⟨not_lt.1 hold, not_lt.1 hcur⟩

/-- **What is resolved is in the served window exactly when the stand-in for
a missing header is.** For every context, every header map and every pin. -/
theorem resolve_in_window_iff (ctx : ApiVersionContext) (headers : HeaderMap) (pinned : Option PinnedApiVersion) :
    (∀ v, ctx.resolve headers pinned = .ok v → ctx.InWindow v) ↔ ctx.FallbackServed headers pinned := by
  cases hh : headers.lookup ctx.header with
  | some raw => simp only [FallbackServed, hh, reduceCtorEq, false_imp_iff, iff_true]; exact fun v => resolve_header hh
  | none =>
    have hr : ctx.resolve headers pinned = .ok ((pinned.map (·.version)).getD ctx.default) := by
      unfold resolve
      simp only [hh]
    simp only [FallbackServed, hh, hr, Except.ok.injEq, forall_eq', true_imp_iff]
    cases pinned with
    | some pin => rfl
    | none => exact ⟨And.left, fun h => ⟨h, ctx.default_le_current⟩⟩

/-- A pin from before the sunset is served. -/
theorem oldPin_served : ¬ ∀ (fromBytes : String → Option HeaderName) (header : String)
    (current oldestSupported : ApiVersion) (ctx : ApiVersionContext) (headers : HeaderMap)
    (pinned : Option PinnedApiVersion) (v : ApiVersion),
    new fromBytes header current oldestSupported = .ok ctx → ctx.resolve headers pinned = .ok v → ctx.InWindow v := by
  intro h
  have hw := h some "x-ferrfleet-api-version" ⟨2026, 10, 1, by decide, by decide⟩ ⟨2026, 1, 1, by decide, by decide⟩ _ []
    (some ⟨⟨2020, 1, 1, by decide, by decide⟩⟩) _ rfl rfl
  exact absurd hw.1 (by decide)

end ApiVersionContext

end FerrKit.Api
