/-
Which refresh tokens are usable. `get_active` asks in SQL for a row that is
not revoked and expires after now; `rotate` reads the row and compares in
Rust. At the very instant of `expires_at` they answer differently.

"`rotate` would succeed" is said of a run: the calls that are open in the
state are aborted (`settle`), and then the statements of one `rotate` run,
all at the one instant.
-/
import FerrKit.Auth.Expiry
import FerrKit.Auth.SessionInvariant

namespace FerrKit.Auth

open ReadCommitted Runs

variable {hashRefreshToken : String → List UInt8}

/-- `WHERE refresh_token_hash = $1 AND revoked_at IS NULL AND expires_at > now()`. -/
def activeAt (hash : List UInt8) (now : Int) (r : Session) : Bool :=
  r.refreshTokenHash == hash && r.revokedAt.isNone && decide (now < r.expiresAt)

/-- `get_active`; the clock is the database's. -/
def getActive (hashRefreshToken : String → List UInt8) (rows : List Session) (refreshTokenPlain : String) (now : Int) :
    Except SessionError Session :=
  match rows.find? (activeAt (hashRefreshToken refreshTokenPlain) now) with
  | some r => .ok r
  | none => .error .notFound

theorem getActive_ok_iff {rows : List Session} {token : String} {now : Int} :
    (∃ r, getActive hashRefreshToken rows token now = .ok r) ↔
      ∃ r ∈ rows, r.refreshTokenHash = hashRefreshToken token ∧ r.revokedAt = none ∧ now < r.expiresAt := by
  have hfind : (∃ r, getActive hashRefreshToken rows token now = .ok r) ↔
      (rows.find? (activeAt (hashRefreshToken token) now)).isSome := by
    unfold getActive
    cases rows.find? (activeAt (hashRefreshToken token) now) <;> simp
  simp only [hfind, List.find?_isSome, activeAt, Bool.and_eq_true, beq_iff_eq, Option.isNone_iff_eq_none,
    decide_eq_true_eq, and_assoc]

/-! ## Nobody else at the table -/

/-- A call that is not through fails. -/
def Call.ended (c : Call) : Call :=
  match c.pc with
  | .returned _ => c
  | _ => { c with pc := .returned (.error .db) }

/-- The same table, with every open call rolled back. -/
def settle (s : St) : St := { s with calls := s.calls.map Call.ended }

theorem Call.ended_tx (c : Call) : c.ended.pc.tx = {} := by
  obtain ⟨request, pc⟩ := c
  cases pc <;> rfl

theorem step_abort {s : St} {k : Nat} {c : Call} (hk : s.calls[k]? = some c) (hc : ∀ o, c.pc ≠ .returned o) :
    step hashRefreshToken s (.abort k) = some { s with calls := s.calls.set k c.ended } := by
  obtain ⟨request, pc⟩ := c
  cases pc with
  | returned o => exact absurd rfl (hc o)
  | begun | waiting _ | live _ | marked _ _ | inserted _ _ _ | revoking _ _ | burning _ _ _ _ _ =>
    simp only [step, stepCall, hk, Call.next, Option.bind_eq_bind, Option.bind_some]
    rfl

/-- Aborting one call after the other. -/
theorem reachable_ended (s : St) (before after : List Call) (h : s.calls = before ++ after) :
    Reachable (step hashRefreshToken) s { s with calls := before ++ after.map Call.ended } := by
  induction after generalizing s before with
  | nil => exact ⟨[], by simp [← h]⟩
  | cons c after ih =>
    have hk : s.calls[before.length]? = some c := by simp [h]
    by_cases hc : ∃ o, c.pc = .returned o
    · obtain ⟨o, ho⟩ := hc
      have hended : c.ended = c := by simp [Call.ended, ho]
      have hrest := ih s (before ++ [c]) (by simp [h])
      simpa [hended] using hrest
    · have hstep : step hashRefreshToken s (.abort before.length) =
          some { s with calls := s.calls.set before.length c.ended } := step_abort hk (not_exists.1 hc)
      obtain ⟨as, hrun⟩ := ih { s with calls := s.calls.set before.length c.ended } (before ++ [c.ended]) (by simp [h])
      exact ⟨.abort before.length :: as, run_cons_some.2 ⟨_, hstep, by simpa using hrun⟩⟩

theorem reachable_settle (s : St) : Reachable (step hashRefreshToken) s (settle s) :=
  reachable_ended s [] s.calls rfl

/-! ## A rotation alone -/

/-- The state with one more call, the last. -/
def St.withCall (s : St) (c : Call) : St := { s with calls := s.calls ++ [c] }

/-- A statement of the last call. -/
theorem stepCall_last {s : St} {c : Call} {a : Action} :
    stepCall hashRefreshToken (s.withCall c) s.calls.length a =
      (c.next hashRefreshToken (s.withCall c) s.calls.length a).map fun p =>
        St.withCall { s with drawn := p.2.1 ++ s.drawn, hashes := p.2.2 ++ s.hashes } { c with pc := p.1 } := by
  have hlast : (s.withCall c).calls[s.calls.length]? = some c := by simp [St.withCall]
  simp only [stepCall, hlast, Option.bind_eq_bind, Option.bind_some]
  cases c.next hashRefreshToken (s.withCall c) s.calls.length a with
  | none => rfl
  | some p => simp [St.withCall, St.goto]

theorem lockFree_withCall {s : St} {c : Call} {id : Uuid} (hquiet : ∀ c ∈ s.calls, c.pc.tx = {}) :
    lockFree (s.withCall c).txs s.calls.length id = true := by
  refine lockFree_iff.2 fun j t ht hid => ?_
  simp only [St.txs, St.withCall, List.map_append, List.map_cons, List.map_nil] at ht
  obtain hold | ⟨hj, -⟩ := Table.getElem?_append_inv ht
  · obtain ⟨c', hc', rfl⟩ := List.mem_map.1 (List.mem_of_getElem? hold)
    rw [hquiet c' hc'] at hid
    cases hid
  · simpa using hj

/-- The statements of a `rotate`, up to its answer. -/
def rotation (s : St) (token : String) (ttl : Duration) (now : Int) (id : Uuid) (newToken : String) : List Action :=
  let k := s.calls.length
  [.rotate token ttl, .select k, .lockRow k, .mark k now, .insert k id newToken, .commit k true]

/-- `rotate` succeeds at that instant, alone. -/
def Rotates (hashRefreshToken : String → List UInt8) (s : St) (token : String) (ttl : Duration) (now : Int) (id : Uuid)
    (newToken : String) : Prop :=
  ∃ s' x, run (step hashRefreshToken) s (rotation s token ttl now id newToken) = some s' ∧
    s'.calls[s.calls.length]? = some ⟨.rotate token ttl, .returned (.issued x)⟩

section Alone

variable {s : St} {token newToken : String} {ttl : Duration} {now : Int} {id : Uuid}

theorem step_select : step hashRefreshToken (s.withCall ⟨.rotate token ttl, .begun⟩) (.select s.calls.length) =
    some (s.withCall ⟨.rotate token ttl,
      (s.rows.find? fun r => r.refreshTokenHash == hashRefreshToken token).elim (.returned (.error .notFound))
        fun r => .waiting r.id⟩) := by
  show stepCall _ _ _ (.select s.calls.length) = _
  rw [stepCall_last]
  simp only [Call.next, Request.hash, St.withCall]
  cases s.rows.find? fun r => r.refreshTokenHash == hashRefreshToken token <;> rfl

/-- The row of the token is read, and it is the committed one. -/
theorem run_to_locked (hi : Inv hashRefreshToken s) (hquiet : ∀ c ∈ s.calls, c.pc.tx = {}) {r : Session}
    (hr : r ∈ s.rows) (hhash : r.refreshTokenHash = hashRefreshToken token) :
    run (step hashRefreshToken) s [.rotate token ttl, .select s.calls.length, .lockRow s.calls.length] =
      some (s.withCall ⟨.rotate token ttl, lockedPc (hashRefreshToken token) (some r)⟩) := by
  have hfind : (s.rows.find? fun r => r.refreshTokenHash == hashRefreshToken token) = some r := by
    have hget := (Table.get_eq_some_iff hi.hashes).2 ⟨hr, hhash⟩
    simpa only [Table.get, beq_eq_decide] using hget
  have hget : Table.get Session.id s.rows r.id = some r := (Table.get_eq_some_iff hi.ids).2 ⟨hr, rfl⟩
  have hselect : step hashRefreshToken (s.withCall ⟨.rotate token ttl, .begun⟩) (.select s.calls.length) =
      some (s.withCall ⟨.rotate token ttl, .waiting r.id⟩) := by
    rw [step_select, hfind]
    rfl
  have hlock : step hashRefreshToken (s.withCall ⟨.rotate token ttl, .waiting r.id⟩) (.lockRow s.calls.length) =
      some (s.withCall ⟨.rotate token ttl, lockedPc (hashRefreshToken token) (some r)⟩) := by
    show stepCall _ _ _ (.lockRow s.calls.length) = _
    rw [stepCall_last]
    simp only [Call.next, Request.hash, lockFree_withCall hquiet, if_true, Option.map_some]
    rw [show (s.withCall ⟨.rotate token ttl, .waiting r.id⟩).rows = s.rows from rfl, hget]
    rfl
  exact run_cons_some.2 ⟨_, rfl, run_cons_some.2 ⟨_, hselect, run_one.trans hlock⟩⟩

theorem run_unknown (hnone : ∀ r ∈ s.rows, r.refreshTokenHash ≠ hashRefreshToken token) :
    run (step hashRefreshToken) s [.rotate token ttl, .select s.calls.length, .lockRow s.calls.length] = none := by
  have hfind : (s.rows.find? fun r => r.refreshTokenHash == hashRefreshToken token) = none := by
    simpa [List.find?_eq_none] using hnone
  have hselect : step hashRefreshToken (s.withCall ⟨.rotate token ttl, .begun⟩) (.select s.calls.length) =
      some (s.withCall ⟨.rotate token ttl, .returned (.error .notFound)⟩) := by
    rw [step_select, hfind]
    rfl
  have hlock : step hashRefreshToken (s.withCall ⟨.rotate token ttl, .returned (.error .notFound)⟩)
      (.lockRow s.calls.length) = none := by
    show stepCall _ _ _ (.lockRow s.calls.length) = _
    rw [stepCall_last]
    rfl
  show (step hashRefreshToken (s.withCall ⟨.rotate token ttl, .begun⟩) (.select s.calls.length)).bind _ = none
  rw [hselect]
  show (step hashRefreshToken _ (.lockRow s.calls.length)).bind _ = none
  rw [hlock]
  rfl

theorem step_mark {r : Session} (hrev : r.revokedAt = none) (hhash : r.refreshTokenHash = hashRefreshToken token) :
    step hashRefreshToken (s.withCall ⟨.rotate token ttl, lockedPc (hashRefreshToken token) (some r)⟩)
        (.mark s.calls.length now) =
      some (s.withCall
        ⟨.rotate token ttl, if r.expiresAt < now then .returned (.error .expired) else .marked r now⟩) := by
  have hlive : lockedPc (hashRefreshToken token) (some r) = .live r := by simp [lockedPc, hhash, hrev]
  rw [hlive]
  show stepCall _ _ _ (.mark s.calls.length now) = _
  rw [stepCall_last]
  rfl

theorem step_insert (token : String) (r : Session) (hid : id ∉ s.drawn) (hnew : hashRefreshToken newToken ∉ s.hashes) :
    step hashRefreshToken (s.withCall ⟨.rotate token ttl, .marked r now⟩) (.insert s.calls.length id newToken) =
      (refreshExpiry now ttl).map fun expiresAt =>
        St.withCall { s with drawn := id :: s.drawn, hashes := hashRefreshToken newToken :: s.hashes }
          ⟨.rotate token ttl, .inserted r now
            ⟨newSession id r.userId r.familyId (hashRefreshToken newToken) none none now expiresAt, newToken⟩⟩ := by
  show stepCall _ _ _ (.insert s.calls.length id newToken) = _
  have hfresh : ¬ (id ∈ s.drawn ∨ hashRefreshToken newToken ∈ s.hashes) := by simp [hid, hnew]
  rw [stepCall_last]
  refine (congrArg _ (if_neg hfresh)).trans ?_
  rw [Option.map_map]
  rfl

theorem step_commit {request : Request} {r : Session} {new : IssuedSession} :
    step hashRefreshToken (s.withCall ⟨request, .inserted r now new⟩) (.commit s.calls.length true) =
      some { s.withCall ⟨request, .returned (.issued new)⟩ with
        rows := (Pc.inserted r now new).tx.commit Session.id s.rows } := by
  have hlast : (s.withCall ⟨request, .inserted r now new⟩).calls[s.calls.length]? =
      some ⟨request, .inserted r now new⟩ := by simp [St.withCall]
  simp only [step, hlast, Option.bind_eq_bind, Option.bind_some, Call.committed, if_true]
  simp [St.goto, St.withCall]

/-- What is left of a rotation that has its row. -/
theorem run_from_locked (hid : id ∉ s.drawn) (hnew : hashRefreshToken newToken ∉ s.hashes) {r : Session}
    (hhash : r.refreshTokenHash = hashRefreshToken token) :
    (∃ s' x, run (step hashRefreshToken) (s.withCall ⟨.rotate token ttl, lockedPc (hashRefreshToken token) (some r)⟩)
        [.mark s.calls.length now, .insert s.calls.length id newToken, .commit s.calls.length true] = some s' ∧
        s'.calls[s.calls.length]? = some ⟨.rotate token ttl, .returned (.issued x)⟩) ↔
      r.revokedAt = none ∧ now ≤ r.expiresAt ∧ (refreshExpiry now ttl).isSome := by
  constructor
  · rintro ⟨s', x, hrun, -⟩
    obtain ⟨t, hmark, hrun⟩ := run_cons_some.1 hrun
    obtain ⟨u, hinsert, -⟩ := run_cons_some.1 hrun
    have hrev : r.revokedAt = none := by
      by_contra hrev
      have hburn : lockedPc (hashRefreshToken token) (some r) = .revoking r.familyId [r.id] := by
        simp [lockedPc, hhash, Option.isSome_iff_ne_none.2 hrev]
      rw [hburn] at hmark
      change stepCall _ _ _ (.mark s.calls.length now) = _ at hmark
      rw [stepCall_last] at hmark
      cases hmark
    rw [step_mark hrev hhash, Option.some.injEq] at hmark
    subst hmark
    split at hinsert
    · change stepCall _ _ _ (.insert s.calls.length id newToken) = _ at hinsert
      rw [stepCall_last] at hinsert
      cases hinsert
    · next hlive =>
      rw [step_insert token r hid hnew] at hinsert
      obtain ⟨expiresAt, hexpiry, -⟩ := Option.map_eq_some_iff.1 hinsert
      exact ⟨hrev, Int.not_lt.1 hlive, by simp [hexpiry]⟩
  · rintro ⟨hrev, hlive, hsome⟩
    obtain ⟨expiresAt, hexpiry⟩ := Option.isSome_iff_exists.1 hsome
    have hmark : step hashRefreshToken
        (s.withCall ⟨.rotate token ttl, lockedPc (hashRefreshToken token) (some r)⟩) (.mark s.calls.length now) =
        some (s.withCall ⟨.rotate token ttl, .marked r now⟩) := by
      rw [step_mark hrev hhash, if_neg (Int.not_lt.2 hlive)]
    have hinsert := (step_insert token r hid hnew).trans (congrArg (Option.map _) hexpiry)
    exact ⟨_, _, run_cons_some.2 ⟨_, hmark, run_cons_some.2 ⟨_, hinsert, run_one.trans step_commit⟩⟩,
      List.getElem?_concat_length⟩

theorem rotates_iff (hi : Inv hashRefreshToken s) (hquiet : ∀ c ∈ s.calls, c.pc.tx = {}) (hid : id ∉ s.drawn)
    (hnew : hashRefreshToken newToken ∉ s.hashes) :
    Rotates hashRefreshToken s token ttl now id newToken ↔
      ∃ r ∈ s.rows, r.refreshTokenHash = hashRefreshToken token ∧ r.revokedAt = none ∧ now ≤ r.expiresAt ∧
        (refreshExpiry now ttl).isSome := by
  have hsplit : rotation s token ttl now id newToken =
      [.rotate token ttl, .select s.calls.length, .lockRow s.calls.length] ++
        [.mark s.calls.length now, .insert s.calls.length id newToken, .commit s.calls.length true] := rfl
  rw [Rotates, hsplit, run_append]
  by_cases hknown : ∃ r ∈ s.rows, r.refreshTokenHash = hashRefreshToken token
  · obtain ⟨r, hr, hhash⟩ := hknown
    rw [run_to_locked hi hquiet hr hhash, Option.bind_some, run_from_locked hid hnew hhash]
    constructor
    · exact fun h => ⟨r, hr, hhash, h⟩
    · rintro ⟨r', hr', hhash', h⟩
      obtain rfl : r' = r := List.inj_on_of_nodup_map hi.hashes hr' hr (hhash'.trans hhash.symm)
      exact h
  · rw [run_unknown fun r hr hhash => hknown ⟨r, hr, hhash⟩]
    constructor
    · rintro ⟨_, _, hrun, -⟩
      cases hrun
    · rintro ⟨r, hr, hhash, -⟩
      exact absurd ⟨r, hr, hhash⟩ hknown

end Alone

/-- **Where `get_active` and `rotate` agree.** In every reachable state they
agree on a token exactly when the token has no session that is not revoked, or
that session has expired before, or expires later and the new expiry is a date
chrono has, or expires at this very instant and the new expiry is none: then
neither goes through. -/
theorem getActive_agrees_iff {s : St} {id : Uuid} {newToken : String} (h : Reachable (step hashRefreshToken) init s)
    (token : String) (ttl : Duration) (now : Int) (hid : id ∉ s.drawn) (hnew : hashRefreshToken newToken ∉ s.hashes) :
    Reachable (step hashRefreshToken) init (settle s) ∧
    (((∃ r, getActive hashRefreshToken s.rows token now = .ok r) ↔
        Rotates hashRefreshToken (settle s) token ttl now id newToken) ↔
      ∀ r ∈ s.rows, r.refreshTokenHash = hashRefreshToken token → r.revokedAt = none →
        (r.expiresAt = now → refreshExpiry now ttl = none) ∧ (now < r.expiresAt → (refreshExpiry now ttl).isSome)) := by
  have hsettled : Reachable (step hashRefreshToken) init (settle s) := by
    obtain ⟨as, hs⟩ := h
    obtain ⟨bs, ht⟩ : Reachable (step hashRefreshToken) s (settle s) := reachable_settle s
    exact ⟨as ++ bs, run_append_some.2 ⟨s, hs, ht⟩⟩
  have hi := reachable_inv hsettled
  have hquiet : ∀ c ∈ (settle s).calls, c.pc.tx = {} := by
    intro c hc
    obtain ⟨c, -, rfl⟩ := List.mem_map.1 hc
    exact c.ended_tx
  refine ⟨hsettled, ?_⟩
  rw [getActive_ok_iff, rotates_iff hi hquiet hid hnew]
  constructor
  · intro hagree r hr hhash hrev
    constructor
    · -- at `expires_at` itself `rotate` would go through
      intro hexp
      by_contra hsome
      obtain ⟨r', hr', hhash', -, hlt⟩ := hagree.2
        ⟨r, hr, hhash, hrev, hexp.ge, Option.isSome_iff_ne_none.2 hsome⟩
      obtain rfl : r' = r := List.inj_on_of_nodup_map hi.hashes hr' hr (hhash'.trans hhash.symm)
      omega
    · intro hlt
      obtain ⟨-, -, -, -, -, hsome⟩ := hagree.1 ⟨r, hr, hhash, hrev, hlt⟩
      exact hsome
  · intro hall
    constructor
    · rintro ⟨r, hr, hhash, hrev, hlt⟩
      exact ⟨r, hr, hhash, hrev, hlt.le, (hall r hr hhash hrev).2 hlt⟩
    · rintro ⟨r, hr, hhash, hrev, hle, hsome⟩
      refine ⟨r, hr, hhash, hrev, lt_of_le_of_ne hle fun heq => ?_⟩
      rw [(hall r hr hhash hrev).1 heq.symm] at hsome
      cases hsome

/-- One session, of one second. -/
def oneLogin : List Action := [.create 1 2 3 "login" none none (.fromSecs 1) 0]

theorem getActive_agrees_iff_oneLogin : ∃ s, run (step plainHash) init oneLogin = some s ∧
    ((∃ r, getActive plainHash s.rows "login" 1 = .ok r) ↔
      Rotates plainHash (settle s) "login" (.fromSecs 1) 1 4 "next") := by
  have hrun : ∃ s, run (step plainHash) init oneLogin = some s ∧ 4 ∉ s.drawn ∧ plainHash "next" ∉ s.hashes ∧
      ∀ r ∈ s.rows, r.expiresAt = nanosPerSec := ⟨_, rfl, by decide, by decide, by decide⟩
  obtain ⟨s, hs, hid, hnew, hexp⟩ := hrun
  refine ⟨s, hs, (getActive_agrees_iff ⟨oneLogin, hs⟩ "login" _ 1 hid hnew).2.2 fun r hr _ _ => ?_⟩
  rw [hexp r hr]
  exact ⟨fun h => absurd h (by decide), fun _ => by decide⟩

/-- At the instant the session expires, `rotate` goes through and
`get_active` does not find it. -/
theorem expiry_instant_disagrees : ∃ s, run (step plainHash) init oneLogin = some s ∧
    getActive plainHash s.rows "login" nanosPerSec = .error .notFound ∧
      Rotates plainHash (settle s) "login" (.fromSecs 1) nanosPerSec 4 "next" :=
  ⟨_, rfl, rfl, _, _, rfl, rfl⟩

end FerrKit.Auth
