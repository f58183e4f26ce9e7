/-
The job queue (`crates/queue`): the `jobs` table, each SQL statement the
crate runs on it, and the system of producers, workers and sweepers that
run them.

A statement is atomic and reads one clock (`NOW()` and `Utc::now()` alike).
What the environment decides is in the action: the id `gen_random_uuid()`
draws, the rows another statement has locked when `SKIP LOCKED` passes over
them, how a handler ends, which claim never gets its completion write (a
crash, an abort, a failed write), and how much time goes by. Workers run in
any order and any number.

`list` and `get`, which write nothing, are in `Inspect`. Left out: the
notifications, and `poll_interval` and `sweep_interval`, since a step may
come at any time.
-/
import FerrKit.Lib.Duration
import FerrKit.Lib.Runs
import FerrKit.Lib.Table

namespace FerrKit.Queue

/-- Ids are only compared. -/
abbrev Uuid := Nat

/-- `job.rs`, `JobStatus`. -/
inductive JobStatus
  | queued | running | done | failed | cancelled | dead
  deriving DecidableEq, Repr

def JobStatus.isTerminal : JobStatus → Bool
  | .done | .cancelled | .dead => true
  | .queued | .running | .failed => false

/-- A row of `jobs` (`schema.rs`). The payload is the JSON text. -/
structure JobRow where
  id : Uuid
  queue : String
  payload : String
  status : JobStatus
  priority : Int
  attempts : Int
  maxAttempts : Int
  runAt : Int
  lockedAt : Option Int
  lockedBy : Option String
  lastError : Option String
  idempotencyKey : Option String
  orgId : Option Uuid
  actorId : Option Uuid
  createdAt : Int
  startedAt : Option Int
  completedAt : Option Int
  deriving DecidableEq

/-! ## `queue.rs` -/

structure EnqueueOptions where
  runAt : Option Int := none
  priority : Int := 0
  maxAttempts : Option UInt32 := none
  idempotencyKey : Option String := none
  orgId : Option Uuid := none
  actorId : Option Uuid := none

/-- `i32::try_from(opts.max_attempts.unwrap_or(3)).unwrap_or(3)`. -/
def EnqueueOptions.storedMaxAttempts (opts : EnqueueOptions) : Int :=
  let n := (opts.maxAttempts.getD 3).toNat
  if n < 2 ^ 31 then n else 3

/-- The row `enqueue` inserts, with the column defaults of the schema. -/
def newRow (now : Int) (id : Uuid) (queue payload : String) (opts : EnqueueOptions) : JobRow where
  id
  queue
  payload
  status := .queued
  priority := opts.priority
  attempts := 0
  maxAttempts := opts.storedMaxAttempts
  runAt := opts.runAt.getD now
  lockedAt := none
  lockedBy := none
  lastError := none
  idempotencyKey := opts.idempotencyKey
  orgId := opts.orgId
  actorId := opts.actorId
  createdAt := now
  startedAt := none
  completedAt := none

/-- The unique index on `(queue, idempotency_key)`, where the key is set. -/
def conflicts (jobs : List JobRow) (queue : String) (key : Option String) : Bool :=
  key.isSome && jobs.any fun r => r.queue == queue && r.idempotencyKey == key

/-- The `INSERT .. ON CONFLICT DO NOTHING RETURNING id` of `enqueue`. -/
def enqueueInsert (now : Int) (id : Uuid) (queue payload : String) (opts : EnqueueOptions)
    (jobs : List JobRow) : List JobRow × Option Uuid :=
  if conflicts jobs queue opts.idempotencyKey then (jobs, none)
  else (jobs ++ [newRow now id queue payload opts], some id)

/-- The `WHERE` of `cancel`. -/
def cancellable (queue : String) (id : Uuid) (r : JobRow) : Bool :=
  r.id == id && r.queue == queue && !r.status.isTerminal

/-- The `UPDATE` of `cancel`. The lock columns stay. -/
def cancel (now : Int) (queue : String) (id : Uuid) : List JobRow → List JobRow :=
  Table.update (cancellable queue id) fun r => { r with status := .cancelled, completedAt := some now }

/-- `cancel` answers `Ok` when its statement affected a row, `JobNotFound`
otherwise. -/
def cancelOk (queue : String) (id : Uuid) (jobs : List JobRow) : Bool :=
  jobs.any (cancellable queue id)

/-! ## `worker.rs` -/

/-- A spawned worker: its `worker_id`, the queue of its payload type and the
`stale_after` of its config. -/
structure Worker where
  workerId : String
  queue : String
  staleAfter : Duration
  deriving DecidableEq

/-- What `claim_one` returns. -/
structure Claimed where
  id : Uuid
  payload : String
  attempts : Int
  maxAttempts : Int
  orgId : Option Uuid
  actorId : Option Uuid
  runAt : Int
  createdAt : Int
  deriving DecidableEq

def JobRow.toClaimed (r : JobRow) : Claimed :=
  { id := r.id, payload := r.payload, attempts := r.attempts, maxAttempts := r.maxAttempts,
    orgId := r.orgId, actorId := r.actorId, runAt := r.runAt, createdAt := r.createdAt }

/-- The `WHERE` of the select inside `claim_one`. -/
def claimable (now : Int) (queue : String) (r : JobRow) : Bool :=
  r.queue == queue && (r.status == .queued || r.status == .failed) && decide (r.runAt ≤ now) &&
    decide (r.attempts < r.maxAttempts)

/-- `ORDER BY priority DESC, run_at ASC`. -/
def claimOrder (a b : JobRow) : Bool :=
  decide (b.priority < a.priority) || (a.priority == b.priority && decide (a.runAt ≤ b.runAt))

/-- The select inside `claim_one`; `locked` are the rows other statements
hold, which `SKIP LOCKED` passes over. -/
def selectNext (now : Int) (queue : String) (locked : List Uuid) (jobs : List JobRow) : Option JobRow :=
  Table.first claimOrder (jobs.filter fun r => claimable now queue r && !locked.contains r.id)

/-- The `SET` of `claim_one`. -/
def claimSet (now : Int) (workerId : String) (r : JobRow) : JobRow :=
  { r with
    status := .running
    lockedAt := some now
    lockedBy := some workerId
    attempts := r.attempts + 1
    startedAt := r.startedAt.or (some now) }

/-- The claimed job, when there is one, and the table after. -/
def claimOne (now : Int) (queue workerId : String) (locked : List Uuid) (jobs : List JobRow) :
    Option Claimed × List JobRow :=
  match selectNext now queue locked jobs with
  | none => (none, jobs)
  | some r =>
    (some (claimSet now workerId r).toClaimed, Table.update (·.id == r.id) (claimSet now workerId) jobs)

def markDone (now : Int) (id : Uuid) : List JobRow → List JobRow :=
  Table.update (·.id == id) fun r =>
    { r with status := .done, completedAt := some now, lastError := none, lockedAt := none, lockedBy := none }

def markDead (now : Int) (id : Uuid) (errMsg : String) : List JobRow → List JobRow :=
  Table.update (·.id == id) fun r =>
    { r with status := .dead, completedAt := some now, lastError := some errMsg, lockedAt := none, lockedBy := none }

def markFailedForRetry (id : Uuid) (errMsg : String) (nextRun : Int) : List JobRow → List JobRow :=
  Table.update (·.id == id) fun r =>
    { r with status := .failed, lastError := some errMsg, runAt := nextRun, lockedAt := none, lockedBy := none }

/-- `2_u64.saturating_pow(attempt).min(3600)`. -/
def backoffSeconds (attempt : Nat) : Nat := min (min (2 ^ attempt) (2 ^ 64 - 1)) 3600

/-- A completion write: one of the three `mark_*` statements. -/
inductive Completion
  | markDone
  | markDead (errMsg : String)
  | markFailedForRetry (errMsg : String) (nextRun : Int)

/-- The status a completion write leaves. -/
def Completion.status : Completion → JobStatus
  | .markDone => .done
  | .markDead _ => .dead
  | .markFailedForRetry _ _ => .failed

def Completion.write (now : Int) (id : Uuid) : Completion → List JobRow → List JobRow
  | .markDone => Queue.markDone now id
  | .markDead errMsg => Queue.markDead now id errMsg
  | .markFailedForRetry errMsg nextRun => Queue.markFailedForRetry id errMsg nextRun

def retryOrBury (now : Int) (attempt : Nat) (attempts maxAttempts : Int) (errMsg : String) : Completion :=
  if attempts ≥ maxAttempts then .markDead errMsg
  else .markFailedForRetry errMsg (now + backoffSeconds attempt * nanosPerSec)

/-- How a claim's processing ends: its payload does not deserialize, or
`Worker::handle` returns. -/
inductive Handled
  | badPayload (err : String)
  | ok
  | permanent (err : String)
  | retriable (err : String)

/-- The completion write `process_claimed` issues. -/
def processClaimed (now : Int) (c : Claimed) : Handled → Completion
  | .badPayload err => .markDead ("payload deserialization failed: " ++ err)
  | .ok => .markDone
  | .permanent err => .markDead err
  | .retriable err => retryOrBury now c.attempts.toNat c.attempts c.maxAttempts err

/-- `Utc::now() - chrono::Duration::seconds(stale_secs)`. -/
def sweepCutoff (now : Int) (staleAfter : Duration) : Option Int :=
  chronoSubSeconds now (if staleAfter.asSecs < 2 ^ 63 then staleAfter.asSecs else 2 ^ 63 - 1)

/-- The `WHERE` of the sweeper. -/
def abandoned (cutoff : Int) (r : JobRow) : Bool :=
  r.status == .running && r.lockedAt.any (· < cutoff)

/-- One pass of `sweeper_loop`. -/
def sweepPass (cutoff : Int) : List JobRow → List JobRow :=
  Table.update (abandoned cutoff) fun r => { r with status := .queued, lockedAt := none, lockedBy := none }

/-! ## The system -/

/-- What became of a claim: still being handled, its completion write
issued, or gone without one. -/
inductive Phase
  | handling | completed | lost
  deriving DecidableEq, Repr

/-- A job handed to a worker: what `claim_one` returned, to whom and when. -/
structure Claim where
  worker : Worker
  claimed : Claimed
  claimedAt : Int
  phase : Phase

/-- The table, every claim ever handed out (the latest last), the workers
spawned and the clock. -/
structure St where
  jobs : List JobRow := []
  claims : List Claim := []
  workers : List Worker := []
  now : Int := 0

inductive Action
  | tick (d : Nat)
  | spawn (w : Worker)
  | enqueue (id : Uuid) (queue payload : String) (opts : EnqueueOptions)
  | cancel (queue : String) (id : Uuid)
  | claim (w : Worker) (locked : List Uuid)
  | complete (k : Nat) (h : Handled)
  | lose (k : Nat)
  | sweep (w : Worker)

/-- The row of a job. -/
def St.row (s : St) (id : Uuid) : Option JobRow := Table.get JobRow.id s.jobs id

/-- `run_loop` claims only between jobs. -/
def St.idle (s : St) (w : Worker) : Bool :=
  s.claims.all fun c => c.worker != w || c.phase != .handling

/-- The claim that is being handled under number `k`. -/
def St.handling (s : St) (k : Nat) : Option Claim :=
  s.claims[k]?.filter fun c => c.phase == .handling

def Claim.settle (p : Phase) (c : Claim) : Claim := { c with phase := p }

def step (s : St) : Action → Option St
  | .tick d => some { s with now := s.now + d }
  | .spawn w =>
    -- the worker id ends in a fresh uuid
    if s.workers.any (·.workerId == w.workerId) then none else some { s with workers := s.workers ++ [w] }
  | .enqueue id queue payload opts =>
    if (s.row id).isSome then none
    else some { s with jobs := (enqueueInsert s.now id queue payload opts s.jobs).1 }
  | .cancel queue id => some { s with jobs := Queue.cancel s.now queue id s.jobs }
  | .claim w locked =>
    if s.workers.contains w && s.idle w then
      match claimOne s.now w.queue w.workerId locked s.jobs with
      | (none, _) => some s
      | (some c, jobs) => some { s with jobs, claims := s.claims ++ [⟨w, c, s.now, .handling⟩] }
    else none
  | .complete k h =>
    (s.handling k).map fun c =>
      { s with
        jobs := (processClaimed s.now c.claimed h).write s.now c.claimed.id s.jobs
        claims := s.claims.modify k (Claim.settle .completed) }
  | .lose k => (s.handling k).map fun _ => { s with claims := s.claims.modify k (Claim.settle .lost) }
  | .sweep w =>
    if s.workers.contains w then
      -- where chrono panics the sweeper task is gone and no statement runs
      match sweepCutoff s.now w.staleAfter with
      | none => some s
      | some cutoff => some { s with jobs := sweepPass cutoff s.jobs }
    else none

/-- Before anything is enqueued or spawned. -/
def init (now : Int) : St := { now }

end FerrKit.Queue
