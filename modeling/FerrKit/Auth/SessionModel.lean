/-
Refresh sessions in Postgres (`crates/auth/src/session.rs`, `PgSessionStore`):
the `sessions` table and the statements of `create`, `rotate` and
`revoke_family`, run by any number of concurrent calls under READ COMMITTED.

Each statement takes its snapshot in one step and each row lock in another,
so other calls run in between. `SELECT .. FOR UPDATE` and `UPDATE` wait for
a row's lock and then go by the version committed by that time. The family
`UPDATE` visits the rows of its snapshot in any order. `now()` and
`Utc::now()` are whatever the action says.

Uuids and tokens that are drawn are new: `drawn` keeps the uuids drawn and
the families given to `revoke_family`, `hashes` the hashes of the tokens
drawn. A token given to `rotate` is in neither, so it may be drawn later on.
The hash itself (SHA-256) is a parameter. A call may fail at any statement, which rolls its
transaction back, and a commit may go through without its answer coming
back. `get_active`, which writes nothing, is in
`FerrKit.Auth.Usable`.
-/
import FerrKit.Lib.Duration
import FerrKit.Lib.ReadCommitted
import FerrKit.Lib.Runs

namespace FerrKit.Auth

open ReadCommitted

/-- Ids are only compared. -/
abbrev Uuid := Nat

/-- A row of `sessions`. -/
structure Session where
  id : Uuid
  userId : Uuid
  familyId : Uuid
  refreshTokenHash : List UInt8
  userAgent : Option String
  ip : Option String
  createdAt : Int
  lastUsedAt : Int
  revokedAt : Option Int
  expiresAt : Int
  deriving DecidableEq

structure IssuedSession where
  session : Session
  refreshTokenPlain : String
  deriving DecidableEq

inductive SessionError
  | notFound | expired | revoked | reuseDetected | db
  deriving DecidableEq, Repr

/-- `now + Duration::from_std(refresh_ttl).unwrap_or_else(|_| Duration::days(14))`;
`none` where the sum panics. -/
def refreshExpiry (now : Int) (refreshTtl : Duration) : Option Int :=
  chronoAdd now ((chronoFromStd refreshTtl).getD (chronoDays 14))

/-- The row `create` and `rotate` insert; `revoked_at` is null by default. -/
def newSession (id userId familyId : Uuid) (hash : List UInt8) (userAgent ip : Option String) (now expiresAt : Int) :
    Session where
  id
  userId
  familyId
  refreshTokenHash := hash
  userAgent
  ip
  createdAt := now
  lastUsedAt := now
  revokedAt := none
  expiresAt

/-- `SET revoked_at = now`. -/
def Session.revoke (now : Int) (r : Session) : Session := { r with revokedAt := some now }

/-- `WHERE family_id = $1 AND revoked_at IS NULL`. -/
def unrevokedOf (familyId : Uuid) (r : Session) : Bool := r.familyId == familyId && r.revokedAt.isNone

/-! ## Calls -/

inductive Request
  | rotate (refreshTokenPlain : String) (refreshTtl : Duration)
  | revokeFamily (familyId : Uuid)
  deriving DecidableEq

inductive Outcome
  | issued (session : IssuedSession)
  /-- `Ok(())` of `revoke_family`. -/
  | ok
  | error (e : SessionError)
  deriving DecidableEq

/-- Where a call stands in its statements. -/
inductive Pc
  /-- `rotate` has its transaction and has not sent the `SELECT`. -/
  | begun
  /-- The `SELECT` found the row in its snapshot and wants its lock. -/
  | waiting (id : Uuid)
  /-- The `SELECT` returned a row that is not revoked. -/
  | live (old : Session)
  /-- The old row is updated, not yet committed. -/
  | marked (old : Session) (now : Int)
  | inserted (old : Session) (now : Int) (new : IssuedSession)
  /-- About to send the family `UPDATE`, with the lock `rotate` has from its
  `SELECT`. -/
  | revoking (familyId : Uuid) (held : List Uuid)
  /-- The family `UPDATE` is running: the rows of its snapshot it has yet to
  visit, and those it has locked and updated. -/
  | burning (familyId : Uuid) (held todo : List Uuid) (done : List Session) (now : Int)
  | returned (o : Outcome)
  deriving DecidableEq

/-- What the call's transaction holds. -/
def Pc.tx : Pc → Tx Session Uuid
  | .begun | .waiting _ | .returned _ => {}
  | .live old => { locks := [old.id] }
  | .marked old now => { locks := [old.id], writes := [old.revoke now] }
  | .inserted old now new => { locks := [old.id], writes := [old.revoke now], inserts := [new.session] }
  | .revoking _ held => { locks := held }
  | .burning _ held _ done now => { locks := held ++ done.map Session.id, writes := done.map (Session.revoke now) }

structure Call where
  request : Request
  pc : Pc
  deriving DecidableEq

/-- How a call ends when its transaction has committed. -/
def Call.committed (c : Call) : Option Outcome :=
  match c.pc, c.request with
  | .inserted _ _ new, _ => some (.issued new)
  | .burning _ _ [] _ _, .rotate _ _ => some (.error .reuseDetected)
  | .burning _ _ [] _ _, .revokeFamily _ => some .ok
  | _, _ => none

structure St where
  rows : List Session
  calls : List Call
  drawn : List Uuid
  hashes : List (List UInt8)
  deriving DecidableEq

def init : St := ⟨[], [], [], []⟩

/-- The call moves on; the table stays as it is. -/
def St.goto (s : St) (k : Nat) (c : Call) (pc : Pc) : St := { s with calls := s.calls.set k { c with pc } }

def St.txs (s : St) : List (Tx Session Uuid) := s.calls.map fun c => c.pc.tx

inductive Action
  | create (id familyId userId : Uuid) (token : String) (userAgent ip : Option String) (refreshTtl : Duration) (now : Int)
  | rotate (token : String) (refreshTtl : Duration)
  | revokeFamily (familyId : Uuid)
  | select (k : Nat)
  | lockRow (k : Nat)
  | mark (k : Nat) (now : Int)
  | insert (k : Nat) (id : Uuid) (token : String)
  | burn (k : Nat) (now : Int)
  | visit (k : Nat) (id : Uuid)
  /-- `acked` says whether the answer of the commit arrives. -/
  | commit (k : Nat) (acked : Bool)
  | abort (k : Nat)

section
variable (hashRefreshToken : String → List UInt8)

/-- The hash `rotate` looks for. -/
def Request.hash : Request → Option (List UInt8)
  | .rotate token _ => some (hashRefreshToken token)
  | .revokeFamily _ => none

/-- The row under the lock, read again: gone for the `WHERE`, revoked (a
replay, so the family burns) or live. -/
def lockedPc (hash : List UInt8) : Option Session → Pc
  | none => .returned (.error .notFound)
  | some r =>
    if r.refreshTokenHash ≠ hash then .returned (.error .notFound)
    else if r.revokedAt.isSome then .revoking r.familyId [r.id]
    else .live r

/-- The visit of one row by the family `UPDATE`: the `WHERE` is evaluated
again on the committed version. -/
def visited (familyId : Uuid) (done : List Session) : Option Session → List Session
  | none => done
  | some r => if unrevokedOf familyId r then done ++ [r] else done

/-- The step of the call `c`, number `k`, inside its transaction; also the id
and the hash it draws. -/
def Call.next (s : St) (k : Nat) (c : Call) : Action → Option (Pc × List Uuid × List (List UInt8))
  | .select _ =>
    match c.pc, c.request.hash hashRefreshToken with
    | .begun, some hash =>
      match s.rows.find? fun r => r.refreshTokenHash == hash with
      | none => some (.returned (.error .notFound), [], [])
      | some r => some (.waiting r.id, [], [])
    | _, _ => none
  | .lockRow _ =>
    match c.pc, c.request.hash hashRefreshToken with
    | .waiting id, some hash =>
      if lockFree s.txs k id then some (lockedPc hash (Table.get Session.id s.rows id), [], []) else none
    | _, _ => none
  | .mark _ now =>
    match c.pc with
    | .live old => some (if old.expiresAt < now then .returned (.error .expired) else .marked old now, [], [])
    | _ => none
  | .insert _ id token =>
    match c.pc, c.request with
    | .marked old now, .rotate _ refreshTtl =>
      let hash := hashRefreshToken token
      if id ∈ s.drawn ∨ hash ∈ s.hashes then none
      else (refreshExpiry now refreshTtl).map fun expiresAt =>
        (.inserted old now ⟨newSession id old.userId old.familyId hash none none now expiresAt, token⟩, [id], [hash])
    | _, _ => none
  | .burn _ now =>
    match c.pc with
    | .revoking familyId held =>
      some (.burning familyId held ((s.rows.filter (unrevokedOf familyId)).map Session.id) [] now, [], [])
    | _ => none
  | .visit _ id =>
    match c.pc with
    | .burning familyId held todo done now =>
      if id ∈ todo ∧ lockFree s.txs k id then
        some (.burning familyId held (todo.erase id) (visited familyId done (Table.get Session.id s.rows id)) now,
          [], [])
      else none
    | _ => none
  | .abort _ =>
    match c.pc with
    | .returned _ => none
    | _ => some (.returned (.error .db), [], [])
  | _ => none

/-- The call whose statement the action runs. -/
def Action.call : Action → Option Nat
  | .select k | .lockRow k | .mark k _ | .insert k _ _ | .burn k _ | .visit k _ | .commit k _ | .abort k => some k
  | .create .. | .rotate .. | .revokeFamily _ => none

/-- A call's step that commits nothing. -/
def stepCall (s : St) (k : Nat) (a : Action) : Option St := do
  let c ← s.calls[k]?
  let (pc, ids, hashes) ← c.next hashRefreshToken s k a
  pure { s.goto k c pc with drawn := ids ++ s.drawn, hashes := hashes ++ s.hashes }

def step (s : St) : Action → Option St
  | .create id familyId userId token userAgent ip refreshTtl now =>
    let hash := hashRefreshToken token
    if id ∈ s.drawn ∨ familyId ∈ s.drawn ∨ hash ∈ s.hashes then none
    else (refreshExpiry now refreshTtl).map fun expiresAt =>
      { s with
        rows := s.rows ++ [newSession id userId familyId hash userAgent ip now expiresAt]
        drawn := id :: familyId :: s.drawn
        hashes := hash :: s.hashes }
  | .rotate token refreshTtl => some { s with calls := s.calls ++ [⟨.rotate token refreshTtl, .begun⟩] }
  | .revokeFamily familyId =>
    some { s with
      calls := s.calls ++ [⟨.revokeFamily familyId, .revoking familyId []⟩]
      drawn := familyId :: s.drawn }
  | .commit k acked => do
    let c ← s.calls[k]?
    let o ← c.committed
    pure { s.goto k c (.returned (if acked then o else .error .db)) with
      rows := c.pc.tx.commit Session.id s.rows }
  | .select k => stepCall hashRefreshToken s k (.select k)
  | .lockRow k => stepCall hashRefreshToken s k (.lockRow k)
  | .mark k now => stepCall hashRefreshToken s k (.mark k now)
  | .insert k id token => stepCall hashRefreshToken s k (.insert k id token)
  | .burn k now => stepCall hashRefreshToken s k (.burn k now)
  | .visit k id => stepCall hashRefreshToken s k (.visit k id)
  | .abort k => stepCall hashRefreshToken s k (.abort k)

end

end FerrKit.Auth
