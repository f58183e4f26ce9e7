/-
Installation tokens of a GitHub App (`crates/github/src/app.rs`,
`installation_token`): concurrent calls on one shared cache.

The cache is keyed by the installation and the repository names joined with
commas. Joining forgets where one name ends and the next begins, so a token
minted for the one name `a,b` is handed to a caller that asked for `a` and
`b`, and one minted for the whole installation (no names) to a caller that
asked for the empty name. This is all that can go wrong: a set of requests is
safe exactly when no two of them share a key.

A call reads the clock, looks into the cache, sends its request and stores
the answer in four steps, and other calls run in between. GitHub is the
`mint` action: any token, any expiry, dated 1970 or later when it parses
(`unsigned_abs` would turn an earlier date into a later one). Every request
GitHub has answered is kept in `mints`. Left out: the App's own JWT and what
an error says.
-/
import FerrKit.Lib.Runs
import Mathlib.Data.Set.Function

namespace FerrKit.Github

open Runs

/-- `installation_token(installation_id, repos)`. -/
structure Request where
  installationId : Int
  repos : List (List Char)
  deriving DecidableEq

def refreshMarginSecs : Nat := 60

def fallbackTtlSecs : Nat := 3000

def isFresh (expiry now : Nat) : Bool := expiry > now + refreshMarginSecs

/-- `(installation_id, repos.join(","))`. -/
def cacheKey (r : Request) : Int × List Char := (r.installationId, [','].intercalate r.repos)

/-- The `repositories` field of the body, left out when there are none. -/
def requestBody (repos : List (List Char)) : Option (List (List Char)) := if repos.isEmpty then none else some repos

/-- `parse_from_rfc3339(expires_at).map_or(now + FALLBACK_TTL_SECS, |at| at.timestamp().unsigned_abs())`. -/
def cachedExpiry (now : Nat) : Option Int → Nat
  | some instant => instant.natAbs
  | none => now + fallbackTtlSecs

/-- A request that GitHub answered with a token, and its answer;
`expiresAt` is `none` when it does not parse. -/
structure Mint where
  installationId : Int
  repositories : Option (List (List Char))
  now : Nat
  token : String
  expiresAt : Option Int

/-- When the token expires: as GitHub says, or else the fallback. -/
def Mint.expiry (m : Mint) : Int := m.expiresAt.getD (m.now + fallbackTtlSecs : Nat)

inductive Phase
  | started
  /-- The cache had no fresh token. -/
  | requesting
  | minted (token : String) (expiry : Nat)
  | returned (token : String) (cached : Bool)
  | failed
  deriving DecidableEq

structure Call where
  request : Request
  now : Nat
  phase : Phase

structure St where
  cache : Int × List Char → Option (String × Nat)
  calls : List Call
  mints : List Mint

def init : St := ⟨fun _ => none, [], []⟩

inductive Action
  | call (request : Request) (now : Nat)
  | lookup (k : Nat)
  | mint (k : Nat) (token : String) (expiresAt : Option Int)
  | store (k : Nat)
  | fail (k : Nat)

/-- `if let Some(entry) = self.cache.get(&key) && is_fresh(entry.1, now)`. -/
def lookedUp (now : Nat) : Option (String × Nat) → Phase
  | some (token, expiry) => if isFresh expiry now then .returned token true else .requesting
  | none => .requesting

def St.goto (s : St) (k : Nat) (c : Call) (phase : Phase) : St := { s with calls := s.calls.set k { c with phase } }

def step (s : St) : Action → Option St
  | .call request now => some { s with calls := s.calls ++ [⟨request, now, .started⟩] }
  | .lookup k => do
    let c ← s.calls[k]?
    match c.phase with
    | .started => some (s.goto k c (lookedUp c.now (s.cache (cacheKey c.request))))
    | _ => none
  | .mint k token expiresAt => do
    let c ← s.calls[k]?
    match c.phase with
    | .requesting =>
      some { s.goto k c (.minted token (cachedExpiry c.now expiresAt)) with
        mints := s.mints ++ [⟨c.request.installationId, requestBody c.request.repos, c.now, token, expiresAt⟩] }
    | _ => none
  | .store k => do
    let c ← s.calls[k]?
    match c.phase with
    | .minted token expiry =>
      some { s.goto k c (.returned token false) with
        cache := fun key => if key = cacheKey c.request then some (token, expiry) else s.cache key }
    | _ => none
  | .fail k => do
    let c ← s.calls[k]?
    match c.phase with
    | .requesting => some (s.goto k c .failed)
    | _ => none

/-! ## Scope -/

/-- The token was minted for this installation and exactly these names. -/
def Mint.For (m : Mint) (r : Request) (token : String) : Prop :=
  m.token = token ∧ m.installationId = r.installationId ∧ m.repositories = requestBody r.repos

/-- Every returned token was minted for what its caller asked for, and one from
the cache had more than a minute to go. -/
def Scoped (s : St) : Prop :=
  ∀ c ∈ s.calls, ∀ token cached, c.phase = .returned token cached →
    ∃ m ∈ s.mints, m.For c.request token ∧ (cached = true → (c.now : Int) + 60 < m.expiry)

/-- Calls are from `X`, and GitHub dates no expiry before 1970. -/
def Over (X : Set Request) (_ : St) : Action → Prop
  | .call request _ => request ∈ X
  | .mint _ _ (some instant) => 0 ≤ instant
  | _ => True

structure TokenInv (X : Set Request) (s : St) : Prop where
  requests : ∀ c ∈ s.calls, c.request ∈ X
  cache : ∀ key token expiry, s.cache key = some (token, expiry) →
    ∃ r ∈ X, cacheKey r = key ∧ ∃ m ∈ s.mints, m.For r token ∧ m.expiry = expiry
  minted : ∀ c ∈ s.calls, ∀ token expiry, c.phase = .minted token expiry →
    ∃ m ∈ s.mints, m.For c.request token ∧ m.expiry = expiry
  served : Scoped s

theorem tokenInv_init (X : Set Request) : TokenInv X init := by
  constructor <;> simp [init, Scoped]

/-- A call moves on: what it needs is only what its new phase asks for. -/
theorem TokenInv.goto {X : Set Request} {s : St} {k : Nat} {c : Call} {phase : Phase} (hi : TokenInv X s)
    (hk : s.calls[k]? = some c)
    (hminted : ∀ token expiry, phase = .minted token expiry →
      ∃ m ∈ s.mints, m.For c.request token ∧ m.expiry = expiry)
    (hret : ∀ token cached, phase = .returned token cached →
      ∃ m ∈ s.mints, m.For c.request token ∧ (cached = true → (c.now : Int) + 60 < m.expiry)) :
    TokenInv X (s.goto k c phase) where
  requests d hd := by
    rcases List.mem_or_eq_of_mem_set hd with hold | rfl
    · exact hi.requests d hold
    · exact hi.requests c (List.mem_of_getElem? hk)
  cache := hi.cache
  minted d hd token expiry hp := by
    rcases List.mem_or_eq_of_mem_set hd with hold | rfl
    · exact hi.minted d hold token expiry hp
    · exact hminted token expiry hp
  served d hd token cached hp := by
    rcases List.mem_or_eq_of_mem_set hd with hold | rfl
    · exact hi.served d hold token cached hp
    · exact hret token cached hp

/-- GitHub answers one more request. -/
theorem TokenInv.mint {X : Set Request} {s : St} (hi : TokenInv X s) (m : Mint) :
    TokenInv X { s with mints := s.mints ++ [m] } where
  requests := hi.requests
  cache key token expiry h := by
    obtain ⟨r, hr, hkey, m', hm', hfor⟩ := hi.cache key token expiry h
    exact ⟨r, hr, hkey, m', List.mem_append_left _ hm', hfor⟩
  minted c hc token expiry hp := by
    obtain ⟨m', hm', hfor⟩ := hi.minted c hc token expiry hp
    exact ⟨m', List.mem_append_left _ hm', hfor⟩
  served c hc token cached hp := by
    obtain ⟨m', hm', hfor⟩ := hi.served c hc token cached hp
    exact ⟨m', List.mem_append_left _ hm', hfor⟩

/-- A returned token is the cache's, and fresh. -/
theorem lookedUp_returned {now : Nat} {entry : Option (String × Nat)} {token : String} {cached : Bool}
    (h : lookedUp now entry = .returned token cached) : ∃ expiry, entry = some (token, expiry) ∧ now + 60 < expiry := by
  unfold lookedUp at h
  split at h
  · next tok expiry =>
    split at h
    · next hfresh =>
      simp only [Phase.returned.injEq] at h
      obtain ⟨rfl, -⟩ := h
      exact ⟨expiry, rfl, by simpa [isFresh, refreshMarginSecs] using hfresh⟩
    · cases h
  · cases h

theorem lookedUp_ne_minted {now : Nat} {entry : Option (String × Nat)} {token : String} {expiry : Nat} :
    lookedUp now entry ≠ .minted token expiry := by
  unfold lookedUp
  split
  · split <;> simp
  · simp

/-- A minted token enters the cache under its caller's key. -/
theorem TokenInv.store {X : Set Request} {s : St} {r : Request} {token : String} {expiry : Nat} (hi : TokenInv X s)
    (hr : r ∈ X) (hm : ∃ m ∈ s.mints, m.For r token ∧ m.expiry = expiry) :
    TokenInv X { s with cache := fun key => if key = cacheKey r then some (token, expiry) else s.cache key } where
  requests := hi.requests
  cache key tok e hc := by
    simp only at hc
    split at hc
    · next hkey =>
      simp only [Option.some.injEq, Prod.mk.injEq] at hc
      obtain ⟨rfl, rfl⟩ := hc
      exact ⟨r, hr, hkey.symm, hm⟩
    · exact hi.cache key tok e hc
  minted := hi.minted
  served := hi.served

theorem cachedExpiry_eq {now : Nat} {expiresAt : Option Int} (h : ∀ instant, expiresAt = some instant → 0 ≤ instant) :
    (cachedExpiry now expiresAt : Int) = expiresAt.getD (now + fallbackTtlSecs : Nat) := by
  cases expiresAt with
  | none => rfl
  | some instant =>
    have := h instant rfl
    simp only [cachedExpiry, Option.getD_some]
    omega

theorem TokenInv.call {X : Set Request} {s : St} {request : Request} (hi : TokenInv X s) (hr : request ∈ X) (now : Nat) :
    TokenInv X { s with calls := s.calls ++ [⟨request, now, .started⟩] } := by
  refine ⟨fun c hc => ?_, hi.cache, fun c hc token expiry hp => ?_, fun c hc token cached hp => ?_⟩
  all_goals rcases List.mem_append.1 hc with hold | hnew
  · exact hi.requests c hold
  · rw [List.mem_singleton.1 hnew]
    exact hr
  · exact hi.minted c hold token expiry hp
  · simp [List.mem_singleton.1 hnew] at hp
  · exact hi.served c hold token cached hp
  · simp [List.mem_singleton.1 hnew] at hp

/-- With keys that tell the requests of `X` apart, a hit is a token for the
same request. -/
theorem TokenInv.lookup {X : Set Request} (hinj : Set.InjOn cacheKey X) {s : St} {k : Nat} {c : Call}
    (hi : TokenInv X s) (hk : s.calls[k]? = some c) :
    TokenInv X (s.goto k c (lookedUp c.now (s.cache (cacheKey c.request)))) := by
  refine hi.goto hk (fun token expiry hp => absurd hp lookedUp_ne_minted) fun token cached hp => ?_
  obtain ⟨expiry, hcache, hfresh⟩ := lookedUp_returned hp
  obtain ⟨r, hr, hkey, m, hm, hfor, hexp⟩ := hi.cache _ _ _ hcache
  -- the entry under this key was minted for this very request
  have hsame : r = c.request := hinj hr (hi.requests c (List.mem_of_getElem? hk)) hkey
  subst hsame
  exact ⟨m, hm, hfor, fun _ => by rw [hexp]; omega⟩

/-- The token GitHub answers with is for what the call has asked. -/
theorem TokenInv.answer {X : Set Request} {s : St} {k : Nat} {c : Call} {expiresAt : Option Int} (hi : TokenInv X s)
    (hk : s.calls[k]? = some c) (hdated : ∀ instant, expiresAt = some instant → 0 ≤ instant) (token : String) :
    TokenInv X { s.goto k c (.minted token (cachedExpiry c.now expiresAt)) with
      mints := s.mints ++ [⟨c.request.installationId, requestBody c.request.repos, c.now, token, expiresAt⟩] } := by
  let m : Mint := ⟨c.request.installationId, requestBody c.request.repos, c.now, token, expiresAt⟩
  refine (hi.mint m).goto (s := { s with mints := s.mints ++ [m] }) hk (fun tok expiry hp => ?_) fun tok cached hp => ?_
  · simp only [Phase.minted.injEq] at hp
    obtain ⟨rfl, rfl⟩ := hp
    refine ⟨m, by simp, ⟨rfl, rfl, rfl⟩, ?_⟩
    rw [cachedExpiry_eq hdated]
    rfl
  · cases hp

/-- A call stores its token and returns it. -/
theorem TokenInv.handOut {X : Set Request} {s : St} {k : Nat} {c : Call} {token : String} {expiry : Nat}
    (hi : TokenInv X s) (hk : s.calls[k]? = some c) (hphase : c.phase = .minted token expiry) :
    TokenInv X { s.goto k c (.returned token false) with
      cache := fun key => if key = cacheKey c.request then some (token, expiry) else s.cache key } := by
  have hmem := List.mem_of_getElem? hk
  obtain ⟨m, hm, hfor, hexp⟩ := hi.minted c hmem token expiry hphase
  have hgo : TokenInv X (s.goto k c (.returned token false)) := by
    refine hi.goto hk (by simp) fun tok cached hp => ?_
    simp only [Phase.returned.injEq] at hp
    obtain ⟨rfl, rfl⟩ := hp
    exact ⟨m, hm, hfor, by simp⟩
  exact hgo.store (hi.requests c hmem) ⟨m, hm, hfor, hexp⟩

theorem step_tokenInv {X : Set Request} (hinj : Set.InjOn cacheKey X) {s s' : St} {a : Action} (hi : TokenInv X s)
    (ha : Over X s a) (h : step s a = some s') : TokenInv X s' := by
  cases a with
  | call request now =>
    cases h
    exact hi.call ha now
  | lookup k =>
    simp only [step, Option.bind_eq_bind, Option.bind_eq_some_iff] at h
    obtain ⟨c, hk, h⟩ := h
    split at h
    · cases h
      exact hi.lookup hinj hk
    · cases h
  | mint k token expiresAt =>
    simp only [step, Option.bind_eq_bind, Option.bind_eq_some_iff] at h
    obtain ⟨c, hk, h⟩ := h
    have hdated : ∀ instant, expiresAt = some instant → 0 ≤ instant := by
      rintro instant rfl
      exact ha
    split at h
    · cases h
      exact hi.answer hk hdated token
    · cases h
  | store k =>
    simp only [step, Option.bind_eq_bind, Option.bind_eq_some_iff] at h
    obtain ⟨c, hk, h⟩ := h
    split at h
    · next token expiry hphase =>
      cases h
      exact hi.handOut hk hphase
    · cases h
  | fail k =>
    simp only [step, Option.bind_eq_bind, Option.bind_eq_some_iff] at h
    obtain ⟨c, hk, h⟩ := h
    split at h
    · cases h
      exact hi.goto hk (by simp) (by simp)
    · cases h

/-! ## Keys -/

theorem requestBody_injective : Function.Injective requestBody := by
  intro R R' h
  cases R with
  | nil =>
    cases R' with
    | nil => rfl
    | cons n R' => simp [requestBody] at h
  | cons n R =>
    cases R' with
    | nil => simp [requestBody] at h
    | cons n' R' => simpa [requestBody] using h

/-- Names without commas are told apart, as long as nobody asks for the empty
name alone. -/
theorem cacheKey_injOn_names : Set.InjOn cacheKey { r | (∀ n ∈ r.repos, ',' ∉ n) ∧ r.repos ≠ [[]] } := by
  have names : ∀ r : Request, (∀ n ∈ r.repos, ',' ∉ n) ∧ r.repos ≠ [[]] →
      r.repos = if [','].intercalate r.repos = [] then [] else ([','].intercalate r.repos).splitOn ',' := by
    rintro ⟨i, R⟩ ⟨hcomma, hone⟩
    cases R with
    | nil => simp
    | cons n R =>
      have hsplit := List.splitOn_intercalate ',' hcomma (by simp)
      rw [if_neg ?_, hsplit]
      intro he
      rw [he] at hsplit
      exact hone (by simpa using hsplit.symm)
  rintro ⟨i, R⟩ hr ⟨j, R'⟩ hr' hkey
  simp only [cacheKey, Prod.mk.injEq] at hkey
  obtain ⟨rfl, hjoin⟩ := hkey
  have h := names ⟨i, R⟩ hr
  have h' := names ⟨i, R'⟩ hr'
  simp only at h h'
  rw [h, h', hjoin]

/-- One caller has a token minted and stored, then another asks with the same
key. -/
def mintThenAsk (r r' : Request) : List Action :=
  [.call r 0, .lookup 0, .mint 0 "ghs_1" (some 3600), .store 0, .call r' 10, .lookup 1]

theorem mintThenAsk_served (r r' : Request) (hkey : cacheKey r' = cacheKey r) :
    ∃ s, run step init (mintThenAsk r r') = some s ∧
      s.mints = [⟨r.installationId, requestBody r.repos, 0, "ghs_1", some 3600⟩] ∧
      ⟨r', 10, .returned "ghs_1" true⟩ ∈ s.calls := by
  refine ⟨_, rfl, rfl, ?_⟩
  simp [St.goto, lookedUp, hkey, cachedExpiry, isFresh, refreshMarginSecs, init]

/-- If the requests differ, the second caller's token was not minted for it. -/
theorem mintThenAsk_not_scoped (r r' : Request) (hkey : cacheKey r' = cacheKey r) (hne : r' ≠ r) :
    ∃ s, run step init (mintThenAsk r r') = some s ∧ ¬ Scoped s := by
  obtain ⟨s, hs, hmints, hcall⟩ := mintThenAsk_served r r' hkey
  refine ⟨s, hs, fun h => hne ?_⟩
  obtain ⟨m, hm, ⟨-, hinst, hbody⟩, -⟩ := h _ hcall _ _ rfl
  rw [hmints, List.mem_singleton] at hm
  subst hm
  obtain ⟨i, R⟩ := r
  obtain ⟨i', R'⟩ := r'
  simp only at hinst hbody
  rw [hinst, requestBody_injective hbody]

theorem mintThenAsk_over {X : Set Request} {r r' : Request} (hr : r ∈ X) (hr' : r' ∈ X) :
    Along step (Over X) init (mintThenAsk r r') := by
  refine Along.of_at fun pre a post t he _ => ?_
  have ha : a ∈ mintThenAsk r r' := by rw [he]; simp
  simp only [mintThenAsk, List.mem_cons, List.not_mem_nil, or_false] at ha
  rcases ha with rfl | rfl | rfl | rfl | rfl | rfl
  · exact hr
  · trivial
  · show (0 : Int) ≤ 3600
    decide
  · trivial
  · exact hr'
  · trivial

/-- **Which requests the cache keeps apart.** For a set of requests, every run
of concurrent calls from it returns only tokens that were minted for the
caller's own installation and exactly its repository list, those from the
cache with more than a minute to go, if and only if no two requests of the
set share a cache key. -/
theorem tokens_scoped_iff (X : Set Request) :
    (∀ as s, Along step (Over X) init as → run step init as = some s → Scoped s) ↔ Set.InjOn cacheKey X := by
  constructor
  · intro h r hr r' hr' hkey
    by_contra hne
    obtain ⟨s, hs, hbad⟩ := mintThenAsk_not_scoped r r' hkey.symm (Ne.symm hne)
    exact hbad (h _ s (mintThenAsk_over hr hr') hs)
  · intro hinj as s hover hr
    exact (invariant_along (fun hi ha hs => step_tokenInv hinj hi ha hs) hover hr (tokenInv_init X)).served

/-- The name `a,b`, then the names `a` and `b`; and the whole installation, then
the empty name. -/
theorem joinedNames_collide :
    (∃ s, run step init (mintThenAsk ⟨1, ["a,b".toList]⟩ ⟨1, ["a".toList, "b".toList]⟩) = some s ∧ ¬ Scoped s) ∧
      ∃ s, run step init (mintThenAsk ⟨1, []⟩ ⟨1, [[]]⟩) = some s ∧ ¬ Scoped s :=
  ⟨mintThenAsk_not_scoped _ _ (by decide) (by decide), mintThenAsk_not_scoped _ _ (by decide) (by decide)⟩

end FerrKit.Github
