/-
What an operator sees of the queue (`Queue::list`, `Queue::get`,
`JobRow::into_meta` in `queue.rs`, `JobStatus` in `job.rs`). The status of a
row comes back from the database as text and is parsed, and the counters are
converted to `u32` with zero for what does not fit. In every reachable state
neither of these ever shows.

`ORDER BY created_at DESC` leaves the order of rows of one instant open: any
order that is newest first (`NewestFirst`) is allowed.
-/
import FerrKit.Lib.Results
import FerrKit.Queue.Attempts

namespace FerrKit.Queue

open Runs

/-! ## `job.rs` -/

def JobStatus.asStr : JobStatus → String
  | .queued => "queued"
  | .running => "running"
  | .done => "done"
  | .failed => "failed"
  | .cancelled => "cancelled"
  | .dead => "dead"

/-- `from_str`; the error holds the text. -/
def JobStatus.fromStr (s : String) : Except String JobStatus :=
  if s = "queued" then .ok .queued
  else if s = "running" then .ok .running
  else if s = "done" then .ok .done
  else if s = "failed" then .ok .failed
  else if s = "cancelled" then .ok .cancelled
  else if s = "dead" then .ok .dead
  else .error s

@[simp] theorem fromStr_asStr (status : JobStatus) : JobStatus.fromStr status.asStr = .ok status := by
  cases status <;> rfl

theorem asStr_injective {a b : JobStatus} (h : a.asStr = b.asStr) : a = b := by
  have hb := fromStr_asStr b
  rw [← h, fromStr_asStr, Except.ok.injEq] at hb
  exact hb

structure JobMeta where
  id : Uuid
  queue : String
  status : JobStatus
  priority : Int
  attempts : Nat
  maxAttempts : Nat
  runAt : Int
  lockedAt : Option Int
  lockedBy : Option String
  lastError : Option String
  idempotencyKey : Option String
  orgId : Option Uuid
  actorId : Option Uuid
  createdAt : Int
  startedAt : Option Int
  completedAt : Option Int
  payload : String
  deriving DecidableEq

inductive QueueError
  | jobNotFound (id : Uuid)
  /-- `sqlx::Error::Decode` of an `UnknownJobStatus`. -/
  | unknownJobStatus (text : String)
  deriving DecidableEq

/-! ## `queue.rs` -/

/-- `u32::try_from(n).unwrap_or(0)`. -/
def u32OrZero (n : Int) : Nat := if 0 ≤ n then n.toNat else 0

/-- `into_meta`, of a row whose `status` column holds `status`. -/
def intoMeta (r : JobRow) (status : String) : Except QueueError JobMeta :=
  match JobStatus.fromStr status with
  | .error text => .error (.unknownJobStatus text)
  | .ok status => .ok
    { id := r.id, queue := r.queue, status := status, priority := r.priority, attempts := u32OrZero r.attempts
      maxAttempts := u32OrZero r.maxAttempts, runAt := r.runAt, lockedAt := r.lockedAt, lockedBy := r.lockedBy
      lastError := r.lastError, idempotencyKey := r.idempotencyKey, orgId := r.orgId, actorId := r.actorId
      createdAt := r.createdAt, startedAt := r.startedAt, completedAt := r.completedAt, payload := r.payload }

structure JobFilter where
  status : Option JobStatus := none
  orgId : Option Uuid := none
  limit : Option Int := none

/-- `filter.limit.unwrap_or(100).clamp(1, 1000)`. -/
def JobFilter.rowLimit (filter : JobFilter) : Nat := (max 1 (min (filter.limit.getD 100) 1000)).toNat

/-- The `WHERE` of `list`. -/
def JobFilter.selects (filter : JobFilter) (queue : String) (r : JobRow) : Bool :=
  r.queue == queue && filter.status.all (fun status => r.status.asStr == status.asStr) &&
    filter.orgId.all fun orgId => r.orgId == some orgId

/-- `list`, where `order` is what the database makes of `ORDER BY created_at
DESC`. -/
def list (order : List JobRow → List JobRow) (queue : String) (filter : JobFilter) (jobs : List JobRow) :
    Except QueueError (List JobMeta) :=
  ((order (jobs.filter (filter.selects queue))).take filter.rowLimit).mapM fun r => intoMeta r r.status.asStr

def get (queue : String) (id : Uuid) (jobs : List JobRow) : Except QueueError JobMeta :=
  match jobs.find? fun r => r.id == id && r.queue == queue with
  | none => .error (.jobNotFound id)
  | some r => intoMeta r r.status.asStr

structure NewestFirst (order : List JobRow → List JobRow) : Prop where
  perm : ∀ rows, (order rows).Perm rows
  sorted : ∀ rows, (order rows).Pairwise fun a b => b.createdAt ≤ a.createdAt

/-! ## Rows and what is shown of them -/

/-- What is shown of a row when nothing is lost. -/
def JobRow.shown (r : JobRow) : JobMeta :=
  { id := r.id, queue := r.queue, status := r.status, priority := r.priority, attempts := r.attempts.toNat
    maxAttempts := r.maxAttempts.toNat, runAt := r.runAt, lockedAt := r.lockedAt, lockedBy := r.lockedBy
    lastError := r.lastError, idempotencyKey := r.idempotencyKey, orgId := r.orgId, actorId := r.actorId
    createdAt := r.createdAt, startedAt := r.startedAt, completedAt := r.completedAt, payload := r.payload }

theorem u32OrZero_eq (n : Int) : u32OrZero n = n.toNat := by
  unfold u32OrZero
  split <;> omega

theorem intoMeta_asStr (r : JobRow) : intoMeta r r.status.asStr = .ok r.shown := by
  simp only [intoMeta, fromStr_asStr, u32OrZero_eq, JobRow.shown]

theorem list_eq (order : List JobRow → List JobRow) (queue : String) (filter : JobFilter) (jobs : List JobRow) :
    list order queue filter jobs =
      .ok (((order (jobs.filter (filter.selects queue))).take filter.rowLimit).map JobRow.shown) := by
  have hshown : (fun r : JobRow => intoMeta r r.status.asStr) = fun r => pure r.shown := funext intoMeta_asStr
  rw [list, hshown, List.mapM_pure]
  rfl

/-- No counter is negative, and none is over its budget. -/
def CountersFit (s : St) : Prop := ∀ r ∈ s.jobs, 0 ≤ r.attempts ∧ r.attempts ≤ r.maxAttempts

theorem storedMaxAttempts_nonneg (opts : EnqueueOptions) : 0 ≤ opts.storedMaxAttempts := by
  unfold EnqueueOptions.storedMaxAttempts
  simp only
  split <;> omega

theorem maxAttempts_nonneg {now : Int} {s : St} (hs : Reachable step (init now) s) :
    ∀ j r, s.row j = some r → 0 ≤ r.maxAttempts := by
  have hi : UniqueIds s ∧ ∀ j r, s.row j = some r → 0 ≤ r.maxAttempts :=
    hs.invariant (I := fun s => UniqueIds s ∧ ∀ j r, s.row j = some r → 0 ≤ r.maxAttempts) (fun hi h => by
      refine ⟨step_uniqueIds hi.1 h, fun j r' hr' => ?_⟩
      rcases row_inv h hr' hi.1 with ⟨r, hr, hR⟩ | ⟨-, queue, payload, opts, -, rfl⟩
      · rw [hR.frame.2.2.1]
        exact hi.2 j r hr
      · exact storedMaxAttempts_nonneg opts)
    ⟨uniqueIds_init now, fun j r hr => by simp [init, St.row, Table.get] at hr⟩
  exact hi.2

theorem countersFit {now : Int} {s : St} (hs : Reachable step (init now) s) : CountersFit s := by
  intro r hr
  have hi : Tallied s := hs.invariant step_tallied (tallied_init now)
  have hrow : s.row r.id = some r := (row_iff_mem hi.unique).2 ⟨hr, rfl⟩
  obtain ⟨hcount, hbound⟩ := hi.counted r.id r hrow
  have hmax := maxAttempts_nonneg hs r.id r hrow
  omega

/-! ## The two calls -/

/-- What `list` shows of the table. -/
structure Listed (s : St) (queue : String) (filter : JobFilter) (metas : List JobMeta) : Prop where
  count : metas.length = min filter.rowLimit (s.jobs.filter (filter.selects queue)).length
  newest : metas.Pairwise fun a b => b.createdAt ≤ a.createdAt
  distinct : (metas.map (·.id)).Nodup
  /-- Each is a row the filter selects, with its counters. -/
  shown : ∀ m ∈ metas, ∃ r ∈ s.jobs, filter.selects queue r = true ∧ m = r.shown ∧
    (m.attempts : Int) = r.attempts ∧ (m.maxAttempts : Int) = r.maxAttempts
  /-- What is left out is no newer than what is shown. -/
  leftOut : ∀ r ∈ s.jobs, filter.selects queue r = true → r.shown ∉ metas →
    metas.length = filter.rowLimit ∧ ∀ m ∈ metas, r.createdAt ≤ m.createdAt
  found : ∀ m ∈ metas, get queue m.id s.jobs = .ok m

theorem get_eq {s : St} (hu : UniqueIds s) (queue : String) (id : Uuid) :
    get queue id s.jobs = match s.row id with
      | some r => if r.queue = queue then .ok r.shown else .error (.jobNotFound id)
      | none => .error (.jobNotFound id) := by
  unfold get
  cases hf : s.jobs.find? fun r => r.id == id && r.queue == queue with
  | some r =>
    have hr := List.find?_some hf
    simp only [Bool.and_eq_true, beq_iff_eq] at hr
    have hrow : s.row id = some r := (row_iff_mem hu).2 ⟨List.mem_of_find?_eq_some hf, hr.1⟩
    simp only [hrow, hr.2, if_true, intoMeta_asStr]
  | none =>
    cases hrow : s.row id with
    | none => rfl
    | some r =>
      obtain ⟨hmem, hid⟩ := (row_iff_mem hu).1 hrow
      have hno := List.find?_eq_none.1 hf r hmem
      have hq : r.queue ≠ queue := by simpa [hid] using hno
      simp [hq]

/-- **An operator sees the queue as it is**, in every reachable state:
`list` never fails, and shows the newest of the rows its filter selects, as
many as the limit, clamped to 1 to 1000, allows, each once and with its real
counters; what it leaves out is no newer; and `get` finds each of them, and
every job of its queue by its id. -/
theorem list_newest {now : Int} {s : St} (hs : Reachable step (init now) s) {order : List JobRow → List JobRow}
    (ho : NewestFirst order) (queue : String) (filter : JobFilter) :
    (∃ metas, list order queue filter s.jobs = .ok metas ∧ Listed s queue filter metas) ∧
      ∀ r ∈ s.jobs, get r.queue r.id s.jobs = .ok r.shown := by
  have hu : UniqueIds s := hs.invariant step_uniqueIds (uniqueIds_init now)
  have hfound : ∀ r ∈ s.jobs, get r.queue r.id s.jobs = .ok r.shown := by
    intro r hr
    rw [get_eq hu, (row_iff_mem hu).2 ⟨hr, rfl⟩]
    simp
  refine ⟨⟨_, list_eq order queue filter s.jobs, ?_⟩, hfound⟩
  let matching := s.jobs.filter (filter.selects queue)
  have hperm : (order matching).Perm matching := ho.perm matching
  have hsub : ∀ r ∈ (order matching).take filter.rowLimit, r ∈ s.jobs ∧ filter.selects queue r = true := by
    intro r hr
    exact List.mem_filter.1 (hperm.mem_iff.1 (List.mem_of_mem_take hr))
  have hsorted := ho.sorted matching
  constructor
  case count =>
    rw [List.length_map, List.length_take, hperm.length_eq]
  case newest =>
    rw [List.pairwise_map]
    exact hsorted.sublist (List.take_sublist _ _)
  case distinct =>
    have hids : ((order matching).map JobRow.id).Nodup := by
      refine (hperm.map JobRow.id).nodup_iff.2 ?_
      exact hu.sublist (List.filter_sublist.map JobRow.id)
    rw [List.map_map]
    exact hids.sublist ((List.take_sublist _ _).map JobRow.id)
  case shown =>
    intro m hm
    obtain ⟨r, hr, rfl⟩ := List.mem_map.1 hm
    obtain ⟨hmem, hsel⟩ := hsub r hr
    obtain ⟨hpos, hle⟩ := countersFit hs r hmem
    refine ⟨r, hmem, hsel, rfl, ?_, ?_⟩
    · show ((r.attempts.toNat : Nat) : Int) = r.attempts
      omega
    · show ((r.maxAttempts.toNat : Nat) : Int) = r.maxAttempts
      omega
  case leftOut =>
    intro r hr hsel hout
    have hin : r ∈ order matching := hperm.mem_iff.2 (List.mem_filter.2 ⟨hr, hsel⟩)
    -- it is in the part that `LIMIT` cuts off
    have hdrop : r ∈ (order matching).drop filter.rowLimit := by
      rw [← List.take_append_drop filter.rowLimit (order matching), List.mem_append] at hin
      exact hin.resolve_left fun htake => hout (List.mem_map.2 ⟨r, htake, rfl⟩)
    have hlong : filter.rowLimit < (order matching).length := by
      have := List.length_pos_of_mem hdrop
      rw [List.length_drop] at this
      omega
    refine ⟨?_, fun m hm => ?_⟩
    · rw [List.length_map, List.length_take]
      exact Nat.min_eq_left (Nat.le_of_lt hlong)
    obtain ⟨r', hr', rfl⟩ := List.mem_map.1 hm
    rw [← List.take_append_drop filter.rowLimit (order matching), List.pairwise_append] at hsorted
    exact hsorted.2.2 r' hr' r hdrop
  case found =>
    intro m hm
    obtain ⟨r, hr, rfl⟩ := List.mem_map.1 hm
    obtain ⟨hmem, hsel⟩ := hsub r hr
    have hq : r.queue = queue := by
      simp only [JobFilter.selects, Bool.and_eq_true, beq_iff_eq] at hsel
      exact hsel.1.1
    rw [← hq]
    exact hfound r hmem

/-- A stable sort. -/
def stableOrder (rows : List JobRow) : List JobRow := rows.mergeSort fun a b => decide (b.createdAt ≤ a.createdAt)

theorem stableOrder_newestFirst : NewestFirst stableOrder where
  perm rows := List.mergeSort_perm rows _
  sorted rows := by
    have hsorted : (stableOrder rows).Pairwise fun a b => decide (b.createdAt ≤ a.createdAt) = true := by
      refine List.pairwise_mergeSort (fun a b c hab hbc => ?_) (fun a b => ?_) rows
      · simp only [decide_eq_true_eq] at hab hbc ⊢
        omega
      · simp only [Bool.or_eq_true, decide_eq_true_eq]
        omega
    exact hsorted.imp of_decide_eq_true

/-- Three jobs of two queues. -/
def threeJobs : List Action :=
  [.enqueue 1 "mail" "{}" { }, .tick 1, .enqueue 2 "mail" "{}" { }, .enqueue 3 "ping" "{}" { }]

theorem list_newest_threeJobs : ∃ s, run step (init 0) threeJobs = some s ∧
    (∃ metas, list stableOrder "mail" { limit := some 1 } s.jobs = .ok metas ∧
      Listed s "mail" { limit := some 1 } metas) ∧
    ∀ r ∈ s.jobs, get r.queue r.id s.jobs = .ok r.shown :=
  ⟨_, rfl, list_newest (⟨threeJobs, rfl⟩ : Reachable step (init 0) _) stableOrder_newestFirst "mail"
    { limit := some 1 }⟩

end FerrKit.Queue
