/-
The JWKS cache of an `OidcClient` (`keys_for` in `crates/oauth/src/oidc.rs`),
with any number of `keys_for` calls going on at a time. A call looks into the
cache under its lock and returns, or asks the provider without the lock; what
the provider answers, and when, is anybody's choice, and a call may be
dropped while it waits. One call that is left alone is `keysFor`
(`keysFor_is_run`).

The log is what the results speak of: which sets were fetched when, and what
was returned when.
-/
import FerrKit.OAuth.OidcModel
import FerrKit.Lib.Runs

namespace FerrKit.OAuth.Jwks

/-! ## The calls -/

inductive Event
  /-- A call asks the provider. -/
  | requested (kid : Option String) (instant : Nat)
  | fetched (set : JwkSet) (instant : Nat)
  | failed (error : OidcError) (instant : Nat)
  | returned (result : Except OidcError JwkSet) (instant : Nat)

/-- `waiting` holds the `kid` of each call that waits for the provider; two
calls for one `kid` behave alike. -/
structure St where
  now : Nat
  cache : Option CachedJwks := none
  waiting : List (Option String) := []
  log : List Event := []

inductive Action
  | tick (nanos : Nat)
  /-- A call begins: it looks into the cache. -/
  | call (kid : Option String)
  /-- The provider's answer to one of the calls that wait. -/
  | answer (kid : Option String) (fetched : Except OidcError JwkSet)
  | dropped (kid : Option String)

/-- What `keys_for` returns of a set it has just stored. -/
def served (set : JwkSet) : Option String → Except OidcError JwkSet
  | some kid => if (set.find kid).isNone then .error (.unknownKey kid) else .ok set
  | none => .ok set

def step (s : St) : Action → Option St
  | .tick nanos => some { s with now := s.now + nanos }
  | .call kid =>
    match cachedKeys s.now s.cache kid with
    | some set => some { s with log := s.log ++ [.returned (.ok set) s.now] }
    | none => some { s with waiting := kid :: s.waiting, log := s.log ++ [.requested kid s.now] }
  | .answer kid fetched =>
    if kid ∈ s.waiting then
      match fetched with
      | .error e =>
        some { s with
          waiting := s.waiting.erase kid, log := s.log ++ [.failed e s.now, .returned (.error e) s.now] }
      | .ok set =>
        some { s with
          cache := some ⟨set, s.now⟩, waiting := s.waiting.erase kid
          log := s.log ++ [.fetched set s.now, .returned (served set kid) s.now] }
    else none
  | .dropped kid => if kid ∈ s.waiting then some { s with waiting := s.waiting.erase kid } else none

/-- What a step can do. -/
inductive StepR (s : St) : Action → St → Prop
  | tick (nanos : Nat) : StepR s (.tick nanos) { s with now := s.now + nanos }
  | hit {kid : Option String} {set : JwkSet} (h : cachedKeys s.now s.cache kid = some set) :
      StepR s (.call kid) { s with log := s.log ++ [.returned (.ok set) s.now] }
  | miss {kid : Option String} (h : cachedKeys s.now s.cache kid = none) :
      StepR s (.call kid) { s with waiting := kid :: s.waiting, log := s.log ++ [.requested kid s.now] }
  | failed {kid : Option String} (e : OidcError) (h : kid ∈ s.waiting) :
      StepR s (.answer kid (.error e)) { s with
        waiting := s.waiting.erase kid, log := s.log ++ [.failed e s.now, .returned (.error e) s.now] }
  | fetched {kid : Option String} (set : JwkSet) (h : kid ∈ s.waiting) :
      StepR s (.answer kid (.ok set)) { s with
        cache := some ⟨set, s.now⟩, waiting := s.waiting.erase kid
        log := s.log ++ [.fetched set s.now, .returned (served set kid) s.now] }
  | dropped {kid : Option String} (h : kid ∈ s.waiting) :
      StepR s (.dropped kid) { s with waiting := s.waiting.erase kid }

variable {s t : St} {a : Action} {as : List Action}

theorem step_inv (h : step s a = some t) : StepR s a t := by
  cases a with
  | tick nanos =>
    cases h
    exact .tick nanos
  | call kid =>
    simp only [step] at h
    split at h
    · next hit => cases h; exact .hit hit
    · next miss => cases h; exact .miss miss
  | answer kid fetched =>
    simp only [step] at h
    split at h
    · next hw =>
      cases fetched with
      | error e => cases h; exact .failed e hw
      | ok set => cases h; exact .fetched set hw
    · cases h
  | dropped kid =>
    simp only [step] at h
    split at h
    · next hw => cases h; exact .dropped hw
    · cases h

/-! ## What the cache serves -/

theorem cachedKeys_eq_some {now : Nat} {cache : Option CachedJwks} {kid : Option String} {set : JwkSet}
    (h : cachedKeys now cache kid = some set) :
    ∃ cached, cache = some cached ∧ cached.set = set ∧ now - cached.fetchedAt < jwksMaxAge.asNanos := by
  cases cache with
  | none => cases h
  | some cached =>
    simp only [cachedKeys] at h
    split at h
    · cases h
    · next hage =>
      split at h
      · exact ⟨cached, rfl, Option.some.inj h, Nat.lt_of_not_ge hage⟩
      · cases h

/-- A call that asks the provider found nothing, or something that may be
refreshed. -/
theorem minRefresh_le_of_cachedKeys_none {now : Nat} {cached : CachedJwks} {kid : Option String}
    (h : cachedKeys now (some cached) kid = none) : jwksMinRefresh.asNanos ≤ now - cached.fetchedAt := by
  have hle : jwksMinRefresh.asNanos ≤ jwksMaxAge.asNanos := by decide
  simp only [cachedKeys] at h
  split at h
  · next hage => exact hle.trans hage
  · split at h
    · cases h
    · next hrefresh =>
      rw [not_or] at hrefresh
      exact Nat.le_of_not_lt hrefresh.2

theorem cachedKeys_known {now : Nat} {cached : CachedJwks} {kid : String} (hknown : (cached.set.find kid).isSome)
    (hage : now - cached.fetchedAt < jwksMaxAge.asNanos) :
    cachedKeys now (some cached) (some kid) = some cached.set := by
  simp [cachedKeys, hknown, Nat.not_le.2 hage]

/-! ## Every run -/

/-- The set that is returned was fetched before, less than `JWKS_MAX_AGE` ago. -/
def Fresh (pre : List Event) : Event → Prop
  | .returned (.ok set) instant =>
    ∃ fetchedAt, .fetched set fetchedAt ∈ pre ∧ fetchedAt ≤ instant ∧ instant < fetchedAt + jwksMaxAge.asNanos
  | _ => True

/-- What is stored was fetched, and nothing was returned too late. -/
structure Inv (s : St) : Prop where
  stored : ∀ cached, s.cache = some cached → .fetched cached.set cached.fetchedAt ∈ s.log
  past : ∀ cached, s.cache = some cached → cached.fetchedAt ≤ s.now
  fresh : Runs.Guarded Fresh s.log

theorem inv_init (now : Nat) : Inv { now } where
  stored := nofun
  past := nofun
  fresh := Runs.guarded_nil

theorem Inv.tick (hi : Inv s) (nanos : Nat) : Inv { s with now := s.now + nanos } where
  stored := hi.stored
  past cached hcached := (hi.past cached hcached).trans (Nat.le_add_right _ _)
  fresh := hi.fresh

/-- A step that does not store, and logs what is fresh. -/
theorem Inv.grow (hi : Inv s) {waiting : List (Option String)} {new : List Event}
    (hnew : Runs.Guarded Fresh (s.log ++ new)) : Inv { s with waiting, log := s.log ++ new } where
  stored cached hcached := List.mem_append_left _ (hi.stored cached hcached)
  past := hi.past
  fresh := hnew

theorem Inv.hit (hi : Inv s) {kid : Option String} {set : JwkSet} (h : cachedKeys s.now s.cache kid = some set) :
    Inv { s with log := s.log ++ [.returned (.ok set) s.now] } := by
  obtain ⟨cached, hcached, rfl, hage⟩ := cachedKeys_eq_some h
  have hpast : cached.fetchedAt ≤ s.now := hi.past cached hcached
  exact hi.grow (hi.fresh.concat ⟨cached.fetchedAt, hi.stored cached hcached, hpast, by omega⟩)

theorem served_ok {set set' : JwkSet} {kid : Option String} (h : served set kid = .ok set') : set' = set := by
  unfold served at h
  split at h
  · split at h
    · cases h
    · cases h; rfl
  · cases h; rfl

theorem Inv.fetch (hi : Inv s) (set : JwkSet) (kid : Option String) {waiting : List (Option String)} :
    Inv { s with
      cache := some ⟨set, s.now⟩, waiting
      log := s.log ++ [.fetched set s.now, .returned (served set kid) s.now] } where
  stored cached hcached := by
    cases hcached
    simp
  past cached hcached := by
    cases hcached
    exact le_rfl
  fresh := by
    rw [List.append_cons]
    have hfetched : Runs.Guarded Fresh (s.log ++ [.fetched set s.now]) := hi.fresh.concat trivial
    refine hfetched.concat ?_
    cases hserved : served set kid with
    | error e => trivial
    | ok set' =>
      rw [served_ok hserved]
      exact ⟨s.now, by simp, le_rfl, Nat.lt_add_of_pos_right (by decide)⟩

theorem step_keeps_inv (hi : Inv s) (h : step s a = some t) : Inv t := by
  cases step_inv h with
  | tick nanos => exact hi.tick nanos
  | hit hit => exact hi.hit hit
  | miss miss =>
    refine hi.grow (hi.fresh.append ?_)
    simp [Fresh]
  | failed e hw =>
    refine hi.grow (hi.fresh.append ?_)
    simp [Fresh]
  | fetched set hw => exact hi.fetch set _
  | dropped hw => exact ⟨hi.stored, hi.past, hi.fresh⟩

/-! ## Calls that do not overlap -/

/-- A call begins when no other is going on. -/
def Serial (s : St) : Action → Prop
  | .call _ => s.waiting = []
  | _ => True

instance : DecidablePred (Serial s)
  | .call _ => inferInstanceAs (Decidable (s.waiting = []))
  | .tick _ | .answer _ _ | .dropped _ => isTrue trivial

def Event.fetchTime : Event → Option Nat
  | .fetched _ instant => some instant
  | _ => none

/-- When sets were fetched, the earliest first. -/
def fetchTimes (log : List Event) : List Nat := log.filterMap Event.fetchTime

theorem fetchTimes_append (log new : List Event) : fetchTimes (log ++ new) = fetchTimes log ++ fetchTimes new :=
  List.filterMap_append

/-- A fetch after another is `JWKS_MIN_REFRESH` later at least. -/
def Spaced (times : List Nat) : Prop := times.Pairwise fun t u => t + jwksMinRefresh.asNanos ≤ u

/-- At most one call waits; what is stored was fetched last, and a refresh is
due when a call waits. -/
structure SerialInv (s : St) : Prop where
  alone : s.waiting.length ≤ 1
  spaced : Spaced (fetchTimes s.log)
  newest : ∀ u ∈ fetchTimes s.log, ∃ cached, s.cache = some cached ∧ u ≤ cached.fetchedAt
  past : ∀ cached, s.cache = some cached → cached.fetchedAt ≤ s.now
  due : s.waiting ≠ [] → ∀ cached, s.cache = some cached → cached.fetchedAt + jwksMinRefresh.asNanos ≤ s.now

theorem serialInv_init (now : Nat) : SerialInv { now } where
  alone := Nat.zero_le _
  spaced := .nil
  newest := nofun
  past := nofun
  due := nofun

theorem SerialInv.tick (hi : SerialInv s) (nanos : Nat) : SerialInv { s with now := s.now + nanos } where
  alone := hi.alone
  spaced := hi.spaced
  newest := hi.newest
  past cached hcached := (hi.past cached hcached).trans (Nat.le_add_right _ _)
  due hw cached hcached := (hi.due hw cached hcached).trans (Nat.le_add_right _ _)

/-- A step of the waiting calls alone, which logs no fetch. -/
theorem SerialInv.quiet (hi : SerialInv s) {waiting : List (Option String)} {new : List Event}
    (hnew : fetchTimes new = []) (halone : waiting.length ≤ 1)
    (hdue : waiting ≠ [] → ∀ cached, s.cache = some cached → cached.fetchedAt + jwksMinRefresh.asNanos ≤ s.now) :
    SerialInv { s with waiting, log := s.log ++ new } where
  alone := halone
  spaced := by simpa only [fetchTimes_append, hnew, List.append_nil] using hi.spaced
  newest := by simpa only [fetchTimes_append, hnew, List.append_nil] using hi.newest
  past := hi.past
  due := hdue

theorem SerialInv.miss (hi : SerialInv s) {kid : Option String} (hserial : s.waiting = [])
    (h : cachedKeys s.now s.cache kid = none) :
    SerialInv { s with waiting := kid :: s.waiting, log := s.log ++ [.requested kid s.now] } := by
  refine hi.quiet rfl (by simp [hserial]) fun _ cached hcached => ?_
  rw [hcached] at h
  have hdue : jwksMinRefresh.asNanos ≤ s.now - cached.fetchedAt := minRefresh_le_of_cachedKeys_none h
  have hpast : cached.fetchedAt ≤ s.now := hi.past cached hcached
  omega

theorem SerialInv.erase_nil (hi : SerialInv s) {kid : Option String} (hw : kid ∈ s.waiting) :
    s.waiting.erase kid = [] := by
  have hone : (s.waiting.erase kid).length = s.waiting.length - 1 := List.length_erase_of_mem hw
  have halone : s.waiting.length ≤ 1 := hi.alone
  exact List.eq_nil_of_length_eq_zero (by omega)

theorem SerialInv.fetch (hi : SerialInv s) {kid : Option String} (hw : kid ∈ s.waiting) (set : JwkSet) :
    SerialInv { s with
      cache := some ⟨set, s.now⟩, waiting := s.waiting.erase kid
      log := s.log ++ [.fetched set s.now, .returned (served set kid) s.now] } := by
  have hlog : fetchTimes (s.log ++ [.fetched set s.now, .returned (served set kid) s.now]) =
      fetchTimes s.log ++ [s.now] := fetchTimes_append _ _
  have hlast : ∀ u ∈ fetchTimes s.log, u + jwksMinRefresh.asNanos ≤ s.now := by
    intro u hu
    obtain ⟨cached, hcached, hle⟩ := hi.newest u hu
    have hdue := hi.due (List.ne_nil_of_mem hw) cached hcached
    omega
  refine ⟨by simp [hi.erase_nil hw], ?_, ?_, ?_, fun hne => absurd (hi.erase_nil hw) hne⟩
  · rw [hlog]
    exact List.pairwise_append.2 ⟨hi.spaced, List.pairwise_singleton _ _, by simpa using hlast⟩
  · intro u hu
    rw [hlog, List.mem_append, List.mem_singleton] at hu
    refine ⟨_, rfl, ?_⟩
    rcases hu with hu | rfl
    · exact (Nat.le_add_right _ _).trans (hlast u hu)
    · exact le_rfl
  · rintro cached ⟨⟩
    exact le_rfl

theorem step_keeps_serialInv (hi : SerialInv s) (hserial : Serial s a) (h : step s a = some t) : SerialInv t := by
  cases step_inv h with
  | tick nanos => exact hi.tick nanos
  | hit hit => exact hi.quiet rfl hi.alone hi.due
  | miss miss => exact hi.miss hserial miss
  | failed e hw => exact hi.quiet rfl (by simp [hi.erase_nil hw]) fun hne => absurd (hi.erase_nil hw) hne
  | fetched set hw => exact hi.fetch hw set
  | dropped hw =>
    have hquiet : SerialInv { s with waiting := s.waiting.erase _, log := s.log ++ [] } :=
      hi.quiet rfl (by simp [hi.erase_nil hw]) fun hne => absurd (hi.erase_nil hw) hne
    simpa using hquiet

/-! ## The results -/

/-- A call for a `kid` of a set that is not too old returns that set and asks
nobody. -/
def KnownKidServed (s : St) (a : Action) (t : St) : Prop :=
  ∀ kid cached, a = .call (some kid) → s.cache = some cached → (cached.set.find kid).isSome →
    s.now - cached.fetchedAt < jwksMaxAge.asNanos →
    t = { s with log := s.log ++ [.returned (.ok cached.set) s.now] }

def FailureKeepsCache (s : St) (a : Action) (t : St) : Prop :=
  ∀ kid e, a = .answer kid (.error e) → t.cache = s.cache

theorem step_knownKidServed (h : step s a = some t) : KnownKidServed s a t := by
  rintro kid cached rfl hcached hknown hage
  have hkeys : cachedKeys s.now s.cache (some kid) = some cached.set := by
    rw [hcached]
    exact cachedKeys_known hknown hage
  cases step_inv h with
  | hit hit =>
    rw [hkeys] at hit
    cases hit
    rfl
  | miss miss =>
    rw [hkeys] at miss
    cases miss

theorem step_failureKeepsCache (h : step s a = some t) : FailureKeepsCache s a t := by
  rintro kid e rfl
  cases step_inv h with
  | failed e hw => rfl

/-- **The cache over whole runs.** However calls overlap, a set that is
returned was fetched less than `JWKS_MAX_AGE` before; a `kid` of the stored
set asks nobody until the set is that old; and a fetch that fails leaves what
is stored. Where calls do not overlap, fetches are `JWKS_MIN_REFRESH` apart. -/
theorem keysFor_runs (now : Nat) (hr : Runs.run step { now } as = some s) :
    (∀ pre set instant post, s.log = pre ++ .returned (.ok set) instant :: post →
      ∃ fetchedAt, .fetched set fetchedAt ∈ pre ∧ fetchedAt ≤ instant ∧
        instant < fetchedAt + jwksMaxAge.asNanos) ∧
      (Runs.Along step Serial { now } as → Spaced (fetchTimes s.log)) ∧
      Runs.EachStep step KnownKidServed { now } as ∧
      Runs.EachStep step FailureKeepsCache { now } as := by
  refine ⟨fun pre set instant post hlog => ?_, fun hserial => ?_, ?_, ?_⟩
  · exact (Runs.invariant_run step_keeps_inv hr (inv_init now)).fresh pre _ post hlog
  · exact (Runs.invariant_along step_keeps_serialInv hserial hr (serialInv_init now)).spaced
  · exact fun pre a post t u _ _ hstep => step_knownKidServed hstep
  · exact fun pre a post t u _ _ hstep => step_failureKeepsCache hstep

/-- A first fetch, a refresh for a `kid` that is not in the set a minute
later, which fails, and one more that does not. -/
def refreshRun : List Action :=
  [.call none, .answer none (.ok ⟨[]⟩), .tick jwksMinRefresh.asNanos, .call (some "k"),
    .answer (some "k") (.error .missingIdToken), .call (some "k"), .answer (some "k") (.ok ⟨[⟨some "k", none, ""⟩]⟩),
    .call (some "k")]

theorem keysFor_runs_refresh :
    (Runs.run step { now := 0 } refreshRun).map (fun s => fetchTimes s.log) = some [0, jwksMinRefresh.asNanos] ∧
      ∃ s, Runs.run step { now := 0 } refreshRun = some s ∧ Spaced (fetchTimes s.log) := by
  have hrun : (Runs.run step { now := 0 } refreshRun).isSome := by decide +kernel
  obtain ⟨s, hs⟩ := Option.isSome_iff_exists.1 hrun
  exact ⟨by decide +kernel, s, hs, (keysFor_runs 0 hs).2.1 (by decide +kernel)⟩

/-! ## One call -/

theorem keysFor_miss {Key : Type} (o : Outside Key) (p : Provider) (c : OidcClient) (clock : Clock)
    {cache : Option CachedJwks} {kid : Option String} (hmiss : cachedKeys clock.instant cache kid = none) :
    c.keysFor o p clock cache kid =
      match c.fetchKeys o p with
      | .error e => (.error e, cache)
      | .ok set => (served set kid, some ⟨set, clock.fetched⟩) := by
  simp only [OidcClient.keysFor, hmiss]
  cases c.fetchKeys o p with
  | error e => rfl
  | ok set =>
    cases kid with
    | none => rfl
    | some kid =>
      simp only [served]
      split <;> rfl

/-- **A call that is left alone is `keysFor`**: a run of the steps above, in
which no other call begins, ends with the cache and the result of it. -/
theorem keysFor_is_run {Key : Type} (o : Outside Key) (p : Provider) (c : OidcClient) {clock : Clock}
    (hclock : clock.instant ≤ clock.fetched) (kid : Option String) (hnow : s.now = clock.instant)
    (hidle : s.waiting = []) :
    ∃ as t, Runs.run step s as = some t ∧ Runs.Along step Serial s as ∧ t.waiting = [] ∧
      t.cache = (c.keysFor o p clock s.cache kid).2 ∧
      t.log.getLast? = some (.returned (c.keysFor o p clock s.cache kid).1 t.now) := by
  cases hlook : cachedKeys clock.instant s.cache kid with
  | some set =>
    have hkeys : c.keysFor o p clock s.cache kid = (.ok set, s.cache) := by simp only [OidcClient.keysFor, hlook]
    rw [← hnow] at hlook
    refine ⟨[.call kid], { s with log := s.log ++ [.returned (.ok set) s.now] }, ?_,
      ⟨hidle, fun _ _ => trivial⟩, hidle, ?_, ?_⟩
    · simp only [Runs.run_one, step, hlook]
    · rw [hkeys]
    · rw [hkeys]
      exact List.getLast?_concat
  | none =>
    rw [keysFor_miss o p c clock hlook]
    rw [← hnow] at hlook
    have hasked : step s (.call kid) =
        some { s with waiting := [kid], log := s.log ++ [.requested kid s.now] } := by
      simp only [step, hlook, hidle]
    cases c.fetchKeys o p with
    | error e =>
      refine ⟨[.call kid, .answer kid (.error e)], { s with
        log := s.log ++ [.requested kid s.now] ++ [.failed e s.now, .returned (.error e) s.now] },
        ?_, ⟨hidle, fun _ _ => ⟨trivial, fun _ _ => trivial⟩⟩, hidle, rfl, by simp⟩
      refine Runs.run_cons_some.2 ⟨_, hasked, ?_⟩
      simp [Runs.run, step, hidle]
    | ok set =>
      have hlater : s.now + (clock.fetched - clock.instant) = clock.fetched := by omega
      refine ⟨[.call kid, .tick (clock.fetched - clock.instant), .answer kid (.ok set)],
        { now := clock.fetched, cache := some ⟨set, clock.fetched⟩, waiting := []
          log := s.log ++ [.requested kid s.now] ++
            [.fetched set clock.fetched, .returned (served set kid) clock.fetched] },
        ?_, ⟨hidle, fun _ _ => ⟨trivial, fun _ _ => ⟨trivial, fun _ _ => trivial⟩⟩⟩, rfl, rfl, by simp⟩
      refine Runs.run_cons_some.2 ⟨_, hasked, ?_⟩
      simp [Runs.run, step, hlater]

end FerrKit.OAuth.Jwks
