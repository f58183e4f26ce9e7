/-
Idempotent enqueues. `enqueue` is an `INSERT .. ON CONFLICT DO NOTHING` and,
when that inserts nothing, a `SELECT` of the row that is there. Here the two
are steps of their own, with every other statement of the queue in between;
the `INSERT` and the rest are the steps of the queue model.

A call that lost the race reads the row of the call that won: rows are never
deleted, and no statement writes the queue or the key of a row. So both
return one id, and what the row holds is what the winner put there. Of these
columns only `run_at` is written again, by the retries of a claimed job.
-/
import FerrKit.Queue.Attempts

namespace FerrKit.Queue

open Runs

/-! ## The two statements of `enqueue` -/

/-- `sqlx::Error`, as far as it is told apart. -/
inductive DbError
  | rowNotFound
  | other (e : String)

/-- Where a call is: before its `pg_notify` with an id in hand, before its
`SELECT`, or done. -/
inductive CallPhase
  | notifying (id : Uuid)
  | selecting (key : String)
  | returned (result : Except DbError Uuid)

/-- An `INSERT`: what it was given, the id it drew, when it ran, and whether
it inserted. -/
structure Insert where
  queue : String
  payload : String
  opts : EnqueueOptions
  id : Uuid
  insertedAt : Int
  won : Bool

/-- A call of `enqueue`, from its `INSERT` on. -/
structure Call extends Insert where
  phase : CallPhase

/-- The `SELECT` of `enqueue`. -/
def selectExisting (jobs : List JobRow) (queue key : String) : Option Uuid :=
  (jobs.find? fun r => r.queue == queue && r.idempotencyKey == some key).map (·.id)

/-- What the answer to the `INSERT` makes of a call. -/
def afterInsert (opts : EnqueueOptions) : Option Uuid → CallPhase
  | some id => .notifying id
  | none =>
    match opts.idempotencyKey with
    | some key => .selecting key
    | none => .returned (.error .rowNotFound)

/-- What the answer to the `SELECT` makes of it. -/
def afterSelect : Option Uuid → CallPhase
  | some id => .notifying id
  | none => .returned (.error .rowNotFound)

/-! ## The system -/

structure CallsSt where
  db : St
  calls : List Call := []

inductive CallsAction
  /-- Any statement but an `INSERT`. -/
  | other (a : Action)
  | insert (id : Uuid) (queue payload : String) (opts : EnqueueOptions)
  | select (k : Nat)
  | finish (k : Nat)
  /-- The connection of a call fails. -/
  | fail (k : Nat) (e : String)

def Action.isEnqueue : Action → Bool
  | .enqueue _ _ _ _ => true
  | _ => false

def CallsSt.move (s : CallsSt) (k : Nat) (c : Call) (phase : CallPhase) : CallsSt :=
  { s with calls := s.calls.set k { c with phase } }

def callsStep (s : CallsSt) : CallsAction → Option CallsSt
  | .other a => if a.isEnqueue then none else (step s.db a).map fun db => { s with db }
  | .insert id queue payload opts =>
    (step s.db (.enqueue id queue payload opts)).map fun db =>
      let answer := (enqueueInsert s.db.now id queue payload opts s.db.jobs).2
      { db
        calls := s.calls ++ [⟨⟨queue, payload, opts, id, s.db.now, answer.isSome⟩, afterInsert opts answer⟩] }
  | .select k =>
    match s.calls[k]? with
    | none => none
    | some c =>
      match c.phase with
      | .selecting key => some (s.move k c (afterSelect (selectExisting s.db.jobs c.queue key)))
      | _ => none
  | .finish k =>
    match s.calls[k]? with
    | none => none
    | some c =>
      match c.phase with
      | .notifying id => some (s.move k c (.returned (.ok id)))
      | _ => none
  | .fail k e =>
    match s.calls[k]? with
    | none => none
    | some c =>
      match c.phase with
      | .returned _ => none
      | _ => some (s.move k c (.returned (.error (.other e))))

def callsInit (now : Int) : CallsSt := { db := init now }

/-- Every step of the calls, with what it found. -/
inductive CallsR (s : CallsSt) : CallsSt → Prop
  | other {a db} : step s.db a = some db → a.isEnqueue = false → CallsR s { s with db }
  | won {id queue payload opts} : s.db.row id = none → conflicts s.db.jobs queue opts.idempotencyKey = false →
      step s.db (.enqueue id queue payload opts) =
        some { s.db with jobs := s.db.jobs ++ [newRow s.db.now id queue payload opts] } →
      CallsR s
        { db := { s.db with jobs := s.db.jobs ++ [newRow s.db.now id queue payload opts] }
          calls := s.calls ++ [⟨⟨queue, payload, opts, id, s.db.now, true⟩, .notifying id⟩] }
  | lost {id queue payload opts} : conflicts s.db.jobs queue opts.idempotencyKey = true →
      CallsR s
        { s with calls := s.calls ++ [⟨⟨queue, payload, opts, id, s.db.now, false⟩, afterInsert opts none⟩] }
  | selected {k c key} : s.calls[k]? = some c → c.phase = .selecting key →
      CallsR s (s.move k c (afterSelect (selectExisting s.db.jobs c.queue key)))
  | finished {k c id} : s.calls[k]? = some c → c.phase = .notifying id → CallsR s (s.move k c (.returned (.ok id)))
  | failed {k c e} : s.calls[k]? = some c → CallsR s (s.move k c (.returned (.error (.other e))))

theorem callsStep_inv {s t : CallsSt} {a : CallsAction} (h : callsStep s a = some t) : CallsR s t := by
  cases a with
  | other a =>
    simp only [callsStep] at h
    split at h
    · cases h
    next ha =>
    obtain ⟨db, hdb, rfl⟩ := Option.map_eq_some_iff.1 h
    exact .other hdb (by simpa using ha)
  | insert id queue payload opts =>
    simp only [callsStep, Option.map_eq_some_iff] at h
    obtain ⟨db, hdb, rfl⟩ := h
    have hstep := hdb
    simp only [step] at hdb
    split at hdb
    · cases hdb
    next hid =>
    cases hdb
    cases hc : conflicts s.db.jobs queue opts.idempotencyKey with
    | true =>
      simp only [enqueueInsert, hc, if_true]
      exact .lost hc
    | false =>
      simp only [enqueueInsert, hc, Bool.false_eq_true, if_false] at hstep ⊢
      exact .won (by simpa using hid) hc hstep
  | select k =>
    simp only [callsStep] at h
    split at h
    · cases h
    next c hc =>
    split at h
    · next key hp => cases h; exact .selected hc hp
    · cases h
  | finish k =>
    simp only [callsStep] at h
    split at h
    · cases h
    next c hc =>
    split at h
    · next id hp => cases h; exact .finished hc hp
    · cases h
  | fail k e =>
    simp only [callsStep] at h
    split at h
    · cases h
    next c hc =>
    split at h
    · cases h
    · cases h; exact .failed hc

end FerrKit.Queue
