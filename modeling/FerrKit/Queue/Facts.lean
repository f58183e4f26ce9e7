/-
What a step of the queue can do, said once: `StepR` has one constructor for
each outcome of each statement, with its guards, and `step_inv` reads it off
the model. The row of a job is followed through a step by `row_inv`
(backwards) and `row_next` (forwards); every result about the queue is
derived from these.
-/
import FerrKit.Queue.Model

namespace FerrKit.Queue

open Runs

/-! ## Completion writes -/

/-- The `SET` of a completion write. -/
def Completion.set (now : Int) : Completion → JobRow → JobRow
  | .markDone, r =>
    { r with status := .done, completedAt := some now, lastError := none, lockedAt := none, lockedBy := none }
  | .markDead errMsg, r =>
    { r with status := .dead, completedAt := some now, lastError := some errMsg, lockedAt := none, lockedBy := none }
  | .markFailedForRetry errMsg nextRun, r =>
    { r with status := .failed, lastError := some errMsg, runAt := nextRun, lockedAt := none, lockedBy := none }

/-- The three writes are keyed by the id alone. -/
theorem Completion.write_eq (now : Int) (id : Uuid) (w : Completion) :
    w.write now id = Table.update (·.id == id) (w.set now) := by
  cases w <;> rfl

@[simp] theorem Completion.set_id (now : Int) (w : Completion) (r : JobRow) : (w.set now r).id = r.id := by
  cases w <;> rfl

@[simp] theorem Completion.set_queue (now : Int) (w : Completion) (r : JobRow) :
    (w.set now r).queue = r.queue := by
  cases w <;> rfl

@[simp] theorem Completion.set_attempts (now : Int) (w : Completion) (r : JobRow) :
    (w.set now r).attempts = r.attempts := by
  cases w <;> rfl

@[simp] theorem Completion.set_maxAttempts (now : Int) (w : Completion) (r : JobRow) :
    (w.set now r).maxAttempts = r.maxAttempts := by
  cases w <;> rfl

@[simp] theorem Completion.set_status (now : Int) (w : Completion) (r : JobRow) :
    (w.set now r).status = w.status := by
  cases w <;> rfl

/-- `process_claimed` reschedules a job: the handler asks for a retry and the
claim is not the last the budget allows. -/
def Reschedules (c : Claimed) : Handled → Prop
  | .retriable _ => c.attempts < c.maxAttempts
  | .badPayload _ | .ok | .permanent _ => False

theorem processClaimed_status (now : Int) (c : Claimed) (h : Handled) :
    (Reschedules c h ∧ (processClaimed now c h).status = .failed) ∨
      (¬ Reschedules c h ∧ (processClaimed now c h).status.isTerminal = true) := by
  cases h with
  | badPayload err | ok | permanent err => exact .inr ⟨id, rfl⟩
  | retriable err =>
    simp only [processClaimed, retryOrBury, Reschedules, ge_iff_le]
    split
    · next hle => exact .inr ⟨by omega, rfl⟩
    · next hlt => exact .inl ⟨by omega, rfl⟩

/-! ## What a step can do -/

/-- A released row, as the sweeper writes it. -/
def JobRow.release (r : JobRow) : JobRow := { r with status := .queued, lockedAt := none, lockedBy := none }

/-- A cancelled row. -/
def JobRow.cancelAt (now : Int) (r : JobRow) : JobRow := { r with status := .cancelled, completedAt := some now }

/-- Every step, with what its statement checked and wrote. -/
inductive StepR (s : St) : Action → St → Prop
  | tick {d : Nat} : StepR s (.tick d) { s with now := s.now + d }
  | spawn {w : Worker} : StepR s (.spawn w) { s with workers := s.workers ++ [w] }
  | enqueue {id queue payload opts} : s.row id = none →
      StepR s (.enqueue id queue payload opts) { s with jobs := s.jobs ++ [newRow s.now id queue payload opts] }
  /-- The idempotency key is taken: nothing is inserted. -/
  | duplicate {id queue payload opts} : StepR s (.enqueue id queue payload opts) s
  | cancel {queue id} : StepR s (.cancel queue id)
      { s with jobs := Table.update (cancellable queue id) (JobRow.cancelAt s.now) s.jobs }
  /-- `claim_one` found no job. -/
  | noJob {w locked} : StepR s (.claim w locked) s
  | claim {w locked r} : w ∈ s.workers → r ∈ s.jobs → claimable s.now w.queue r = true →
      StepR s (.claim w locked)
        { s with
          jobs := Table.update (·.id == r.id) (claimSet s.now w.workerId) s.jobs
          claims := s.claims ++ [⟨w, (claimSet s.now w.workerId r).toClaimed, s.now, .handling⟩] }
  | complete {k h c} : s.claims[k]? = some c → c.phase = .handling →
      StepR s (.complete k h)
        { s with
          jobs := Table.update (·.id == c.claimed.id) ((processClaimed s.now c.claimed h).set s.now) s.jobs
          claims := s.claims.modify k (Claim.settle .completed) }
  | lose {k c} : s.claims[k]? = some c → c.phase = .handling →
      StepR s (.lose k) { s with claims := s.claims.modify k (Claim.settle .lost) }
  /-- The sweeper task has panicked. -/
  | noSweep {w} : StepR s (.sweep w) s
  | sweep {w cutoff} : w ∈ s.workers → sweepCutoff s.now w.staleAfter = some cutoff →
      StepR s (.sweep w) { s with jobs := Table.update (abandoned cutoff) JobRow.release s.jobs }

theorem handling_eq_some {s : St} {k : Nat} {c : Claim} :
    s.handling k = some c ↔ s.claims[k]? = some c ∧ c.phase = .handling := by
  simp [St.handling, Option.filter_eq_some_iff]

theorem selectNext_some {now queue locked jobs r} (h : selectNext now queue locked jobs = some r) :
    r ∈ jobs ∧ claimable now queue r = true := by
  have hm := Table.first_mem h
  simp only [List.mem_filter, Bool.and_eq_true] at hm
  exact ⟨hm.1, hm.2.1⟩

theorem step_inv {s s' : St} {a : Action} (h : step s a = some s') : StepR s a s' := by
  cases a with
  | tick d =>
    simp only [step, Option.some.injEq] at h
    exact h ▸ .tick
  | spawn w =>
    simp only [step] at h
    split at h
    · cases h
    · cases h; exact .spawn
  | enqueue id queue payload opts =>
    simp only [step, enqueueInsert] at h
    split at h
    · cases h
    next hid =>
    cases h
    split
    · exact .duplicate
    · exact .enqueue (by simpa using hid)
  | cancel queue id =>
    simp only [step, Option.some.injEq] at h
    exact h ▸ .cancel
  | claim w locked =>
    simp only [step] at h
    split at h
    · next hw =>
      simp only [Bool.and_eq_true, List.contains_eq_mem, decide_eq_true_eq] at hw
      cases hn : selectNext s.now w.queue locked s.jobs with
      | none =>
        simp only [claimOne, hn, Option.some.injEq] at h
        exact h ▸ .noJob
      | some r =>
        simp only [claimOne, hn, Option.some.injEq] at h
        obtain ⟨hr, hc⟩ := selectNext_some hn
        exact h ▸ .claim hw.1 hr hc
    · cases h
  | complete k hd =>
    simp only [step, Option.map_eq_some_iff, Completion.write_eq] at h
    obtain ⟨c, hc, rfl⟩ := h
    obtain ⟨hk, hp⟩ := handling_eq_some.1 hc
    exact .complete hk hp
  | lose k =>
    simp only [step, Option.map_eq_some_iff] at h
    obtain ⟨c, hc, rfl⟩ := h
    obtain ⟨hk, hp⟩ := handling_eq_some.1 hc
    exact .lose hk hp
  | sweep w =>
    simp only [step] at h
    split at h
    · next hw =>
      simp only [List.contains_eq_mem, decide_eq_true_eq] at hw
      split at h
      · cases h; exact .noSweep
      · next cutoff hcut => cases h; exact .sweep hw hcut
    · cases h

/-! ## The row of a job through a step -/

theorem claimSet_id (now : Int) (w : String) (r : JobRow) : (claimSet now w r).id = r.id := rfl

theorem claimable_iff {now queue r} : claimable now queue r = true ↔
    r.queue = queue ∧ (r.status = .queued ∨ r.status = .failed) ∧ r.runAt ≤ now ∧ r.attempts < r.maxAttempts := by
  simp [claimable, and_assoc]

theorem abandoned_iff {cutoff r} : abandoned cutoff r = true ↔
    r.status = .running ∧ ∃ l, r.lockedAt = some l ∧ l < cutoff := by
  simp [abandoned, Option.any_eq_true]

theorem cancellable_iff {queue id r} : cancellable queue id r = true ↔
    r.id = id ∧ r.queue = queue ∧ r.status.isTerminal = false := by
  simp [cancellable, and_assoc]

/-- The cutoff is `stale_after` rounded down to whole seconds before now. -/
theorem sweepCutoff_some {now : Int} {d : Duration} {cutoff : Int} (h : sweepCutoff now d = some cutoff) :
    cutoff = now - d.asSecs * nanosPerSec := by
  have hc := chronoSubSeconds_some h
  split at hc
  · exact hc
  · -- `i64::MAX` seconds are more than chrono accepts
    next hbig =>
    rw [sweepCutoff, if_neg hbig] at h
    simp [chronoSubSeconds, chronoMaxSecs] at h

/-- The row of a job after an `UPDATE`. -/
theorem row_of_update {s s' : St} {p : JobRow → Bool} {f : JobRow → JobRow} {j : Uuid} {r r' : JobRow}
    (hj : s'.jobs = Table.update p f s.jobs) (hf : ∀ r, (f r).id = r.id) (hr : s.row j = some r)
    (hr' : s'.row j = some r') : r' = if p r then f r else r := by
  rw [St.row, hj, Table.get_update_some hf hr, Option.some.injEq] at hr'
  exact hr'.symm

/-- What a step from `s` to `s'` does to the row `r` of a job. -/
inductive RowR (s s' : St) (r : JobRow) : Action → JobRow → Prop
  | kept {a} : (∀ k h c, a = .complete k h → s.handling k = some c → c.claimed.id ≠ r.id) → RowR s s' r a r
  | cancelled {queue} : cancellable queue r.id r = true → RowR s s' r (.cancel queue r.id) (r.cancelAt s.now)
  | claimed {w locked} : w ∈ s.workers → claimable s.now w.queue r = true →
      s'.claims = s.claims ++ [⟨w, (claimSet s.now w.workerId r).toClaimed, s.now, .handling⟩] →
      RowR s s' r (.claim w locked) (claimSet s.now w.workerId r)
  | completed {k h c} : s.handling k = some c → c.claimed.id = r.id →
      RowR s s' r (.complete k h) ((processClaimed s.now c.claimed h).set s.now r)
  | swept {w cutoff} : w ∈ s.workers → sweepCutoff s.now w.staleAfter = some cutoff →
      abandoned cutoff r = true → RowR s s' r (.sweep w) r.release

theorem RowR.same {s s' : St} {r : JobRow} {a : Action} (ha : ∀ k h, a ≠ .complete k h) : RowR s s' r a r :=
  .kept fun k h _ he _ => absurd he (ha k h)

/-- Rows are never deleted, and change in these ways only. -/
theorem row_next {s s' : St} {a : Action} {j : Uuid} {r : JobRow} (h : step s a = some s')
    (hr : s.row j = some r) (hu : (s.jobs.map JobRow.id).Nodup) :
    ∃ r', s'.row j = some r' ∧ RowR s s' r a r' := by
  cases step_inv h with
  | tick | spawn | duplicate | noJob | noSweep | lose _ _ => exact ⟨r, hr, .same (by simp)⟩
  | enqueue _ => exact ⟨r, Table.get_append_some hr _, .same (by simp)⟩
  | @cancel queue id =>
    refine ⟨_, Table.get_update_some (fun _ => rfl) hr, ?_⟩
    split
    · next hc =>
      have hid := (cancellable_iff.1 hc).1
      subst hid
      exact .cancelled hc
    · exact .same (by simp)
  | @claim w locked r₀ hw hr₀ hc =>
    refine ⟨_, Table.get_update_some (fun _ => rfl) hr, ?_⟩
    split
    · next he =>
      have : r₀ = r := List.inj_on_of_nodup_map hu hr₀ (Table.get_mem hr) (beq_iff_eq.1 he).symm
      subst this
      exact .claimed hw hc rfl
    · exact .same (by simp)
  | @complete k hd c hk hp =>
    have hc : s.handling k = some c := handling_eq_some.2 ⟨hk, hp⟩
    refine ⟨_, Table.get_update_some (fun _ => Completion.set_id _ _ _) hr, ?_⟩
    split
    · next he => exact .completed hc (beq_iff_eq.1 he).symm
    · next he =>
      refine .kept fun k' h' c' ha hc' => ?_
      cases ha
      rw [hc, Option.some.injEq] at hc'
      subst hc'
      intro hid
      simp [hid] at he
  | sweep hw hcut =>
    refine ⟨_, Table.get_update_some (fun _ => rfl) hr, ?_⟩
    split
    · next ha => exact .swept hw hcut ha
    · exact .same (by simp)

/-- The row of the job a handler has finished with. -/
theorem row_completed {s s' : St} {k : Nat} {hd : Handled} {c : Claim} {r : JobRow}
    (h : step s (.complete k hd) = some s') (hc : s.handling k = some c) (hr : s.row c.claimed.id = some r)
    (hu : (s.jobs.map JobRow.id).Nodup) :
    s'.row c.claimed.id = some ((processClaimed s.now c.claimed hd).set s.now r) := by
  obtain ⟨r', hr', hR⟩ := row_next h hr hu
  cases hR with
  | kept hno => exact absurd (Table.get_key hr).symm (hno k hd c rfl hc)
  | completed hc' _ =>
    rw [hc, Option.some.injEq] at hc'
    subst hc'
    exact hr'

/-- A row is there because it was, or because it was just inserted. -/
theorem row_inv {s s' : St} {a : Action} {j : Uuid} {r' : JobRow} (h : step s a = some s')
    (hr' : s'.row j = some r') (hu : (s.jobs.map JobRow.id).Nodup) :
    (∃ r, s.row j = some r ∧ RowR s s' r a r') ∨
      (s.row j = none ∧ ∃ queue payload opts, a = .enqueue j queue payload opts ∧
        r' = newRow s.now j queue payload opts) := by
  cases hr : s.row j with
  | some r =>
    obtain ⟨r₁, h₁, hR⟩ := row_next h hr hu
    rw [hr', Option.some.injEq] at h₁
    subst h₁
    exact .inl ⟨r, rfl, hR⟩
  | none =>
    have gone : ∀ {p f}, (∀ r : JobRow, (f r).id = r.id) → Table.get JobRow.id (Table.update p f s.jobs) j ≠ some r' := by
      intro p f hf he
      obtain ⟨r, hr₀, -⟩ := Table.of_get_update hf he
      exact absurd (hr.symm.trans hr₀) (by simp)
    cases step_inv h with
    | tick | spawn | duplicate | noJob | noSweep | lose _ _ => exact absurd (hr.symm.trans hr') (by simp)
    | enqueue hid =>
      rcases Table.of_get_append hr' with hold | ⟨-, hj, he⟩
      · exact absurd (hr.symm.trans hold) (by simp)
      · have hj : _ = j := hj
        subst hj
        exact .inr ⟨rfl, _, _, _, rfl, he⟩
    | cancel | claim _ _ _ | sweep _ _ => exact absurd hr' (gone fun _ => rfl)
    | complete _ _ => exact absurd hr' (gone fun _ => Completion.set_id _ _ _)

theorem step_now {s s' : St} {a : Action} (h : step s a = some s') : s.now ≤ s'.now := by
  cases step_inv h with
  | @tick d => exact Int.le_add_of_nonneg_right (Int.natCast_nonneg d)
  | _ => exact Int.le_refl _

/-! ## Invariants that need no condition -/

/-- The primary key: no two rows share an id. -/
def UniqueIds (s : St) : Prop := (s.jobs.map JobRow.id).Nodup

/-- The rows stay at their places; an `INSERT` may put one with a new id
after them. -/
theorem ids_next {s s' : St} {a : Action} (h : step s a = some s') :
    s'.jobs.map JobRow.id = s.jobs.map JobRow.id ∨
      ∃ queue payload opts r, a = .enqueue r.id queue payload opts ∧ s.row r.id = none ∧ s'.jobs = s.jobs ++ [r] := by
  cases step_inv h with
  | tick | spawn | duplicate | noJob | noSweep | lose _ _ => exact .inl rfl
  | enqueue hid => exact .inr ⟨_, _, _, newRow _ _ _ _ _, rfl, hid, rfl⟩
  | cancel | claim _ _ _ | sweep _ _ => exact .inl (Table.update_keys fun _ => rfl)
  | complete _ _ => exact .inl (Table.update_keys fun _ => Completion.set_id _ _ _)

theorem step_uniqueIds {s s' : St} {a : Action} (hu : UniqueIds s) (h : step s a = some s') : UniqueIds s' := by
  unfold UniqueIds
  rcases ids_next h with hids | ⟨_, _, _, r, -, hid, hjobs⟩
  · rw [hids]
    exact hu
  · rw [hjobs]
    exact Table.append_keys_nodup hu hid

theorem uniqueIds_init (now : Int) : UniqueIds (init now) := by simp [UniqueIds, init]

theorem row_iff_mem {s : St} (hu : UniqueIds s) {j : Uuid} {r : JobRow} : s.row j = some r ↔ r ∈ s.jobs ∧ r.id = j :=
  Table.get_eq_some_iff hu

/-- What no step changes of a row, and how `attempts` moves. -/
theorem RowR.frame {s s' : St} {a : Action} {r r' : JobRow} (h : RowR s s' r a r') :
    r'.id = r.id ∧ r'.queue = r.queue ∧ r'.maxAttempts = r.maxAttempts ∧ r.attempts ≤ r'.attempts := by
  cases h with
  | kept _ | cancelled _ | swept _ _ _ => exact ⟨rfl, rfl, rfl, Int.le_refl _⟩
  | claimed _ _ _ => exact ⟨rfl, rfl, rfl, by simp only [claimSet]; omega⟩
  | completed _ _ => simp

/-- Every claim is of a row of its worker's queue. -/
def ClaimsOwned (s : St) : Prop :=
  ∀ (k : Nat) (c : Claim), s.claims[k]? = some c → ∃ r, s.row c.claimed.id = some r ∧ r.queue = c.worker.queue

theorem getElem?_settle {l : List Claim} {k k' : Nat} {p : Phase} {c' : Claim}
    (h : (l.modify k (Claim.settle p))[k']? = some c') :
    ∃ c, l[k']? = some c ∧ c' = if k = k' then c.settle p else c := by
  rw [List.getElem?_modify, Option.map_eq_map, Option.map_eq_some_iff] at h
  obtain ⟨c, hc, he⟩ := h
  exact ⟨c, hc, he.symm⟩

/-- A claim in the ledger was there, or was just handed out; only its phase
changes. -/
theorem claims_inv {s s' : St} {a : Action} {k : Nat} {c' : Claim} (h : step s a = some s')
    (hc' : s'.claims[k]? = some c') :
    (∃ c, s.claims[k]? = some c ∧ c'.claimed = c.claimed ∧ c'.worker = c.worker ∧ c'.claimedAt = c.claimedAt ∧
        (c.phase = .handling ∨ c'.phase = c.phase)) ∨
      (k = s.claims.length ∧ ∃ w locked r, a = .claim w locked ∧ w ∈ s.workers ∧ r ∈ s.jobs ∧
        claimable s.now w.queue r = true ∧ s'.jobs = Table.update (·.id == r.id) (claimSet s.now w.workerId) s.jobs ∧
        c' = ⟨w, (claimSet s.now w.workerId r).toClaimed, s.now, .handling⟩) := by
  cases step_inv h with
  | tick | spawn | duplicate | noJob | noSweep | enqueue _ | cancel | sweep _ _ =>
    exact .inl ⟨c', hc', rfl, rfl, rfl, .inr rfl⟩
  | claim hw hr hcl =>
    rcases Table.getElem?_append_inv hc' with hold | ⟨hk, rfl⟩
    · exact .inl ⟨c', hold, rfl, rfl, rfl, .inr rfl⟩
    · exact .inr ⟨hk, _, _, _, rfl, hw, hr, hcl, rfl, rfl⟩
  | complete hk hp | lose hk hp =>
    obtain ⟨c, hc, he⟩ := getElem?_settle hc'
    refine .inl ⟨c, hc, ?_⟩
    split at he
    · next hkk =>
      subst hkk
      rw [hk, Option.some.injEq] at hc
      subst hc he
      exact ⟨rfl, rfl, rfl, .inl hp⟩
    · subst he
      exact ⟨rfl, rfl, rfl, .inr rfl⟩

/-- A claim stays in the ledger; its phase moves once, by its own completion
write or by its loss. -/
theorem claims_next {s s' : St} {a : Action} {k : Nat} {c : Claim} (h : step s a = some s')
    (hc : s.claims[k]? = some c) :
    ∃ c', s'.claims[k]? = some c' ∧ c'.claimed = c.claimed ∧
      (c'.phase = c.phase ∨ (s.handling k = some c ∧
        ((∃ hd, a = .complete k hd ∧ c'.phase = .completed) ∨ (a = .lose k ∧ c'.phase = .lost)))) := by
  have hlt := (List.getElem?_eq_some_iff.1 hc).1
  cases step_inv h with
  | tick | spawn | duplicate | noJob | noSweep | enqueue _ | cancel | sweep _ _ => exact ⟨c, hc, rfl, .inl rfl⟩
  | claim _ _ _ => exact ⟨c, (List.getElem?_append_left hlt).trans hc, rfl, .inl rfl⟩
  | @complete k₀ hd c₀ hk hp =>
    by_cases hkk : k₀ = k
    · subst hkk
      rw [hk, Option.some.injEq] at hc
      subst hc
      exact ⟨c₀.settle .completed, by simp [hk], rfl, .inr ⟨handling_eq_some.2 ⟨hk, hp⟩, .inl ⟨hd, rfl, rfl⟩⟩⟩
    · exact ⟨c, by simp [hkk, hc], rfl, .inl rfl⟩
  | @lose k₀ c₀ hk hp =>
    by_cases hkk : k₀ = k
    · subst hkk
      rw [hk, Option.some.injEq] at hc
      subst hc
      exact ⟨c₀.settle .lost, by simp [hk], rfl, .inr ⟨handling_eq_some.2 ⟨hk, hp⟩, .inr ⟨rfl, rfl⟩⟩⟩
    · exact ⟨c, by simp [hkk, hc], rfl, .inl rfl⟩

theorem step_claimsOwned {s s' : St} {a : Action} (hu : UniqueIds s) (ho : ClaimsOwned s)
    (h : step s a = some s') : ClaimsOwned s' := by
  intro k c' hc'
  have old : ∀ {j q r}, s.row j = some r → r.queue = q → ∃ r', s'.row j = some r' ∧ r'.queue = q := by
    intro j q r hr hq
    obtain ⟨r', hr', hR⟩ := row_next h hr hu
    exact ⟨r', hr', hR.frame.2.1.trans hq⟩
  rcases claims_inv h hc' with ⟨c, hc, hcl, hw, -, -⟩ | ⟨-, w, locked, r, rfl, hw, hr, hcl, -, rfl⟩
  · obtain ⟨r, hr, hq⟩ := ho k c hc
    rw [hcl, hw]
    exact old hr hq
  · exact old ((row_iff_mem hu).2 ⟨hr, rfl⟩) (claimable_iff.1 hcl).1

/-- Both hold of every state the system reaches. -/
theorem reachable_invariants {now : Int} {s : St} (h : Reachable step (init now) s) :
    UniqueIds s ∧ ClaimsOwned s :=
  h.invariant (I := fun s => UniqueIds s ∧ ClaimsOwned s)
    (fun hi hs => ⟨step_uniqueIds hi.1 hs, step_claimsOwned hi.1 hi.2 hs⟩)
    ⟨uniqueIds_init now, by intro k c hc; simp [init] at hc⟩

/-- A worker of the queue `mail` with the default `stale_after`, for the runs
that show a race. -/
def mailWorker (workerId : String) : Worker := ⟨workerId, "mail", .fromSecs 300⟩

/-- The only attempt's worker dies, and the sweeper puts the job back where
no `claim_one` will ever take it. -/
def crashOnLast : List Action :=
  [.enqueue 1 "mail" "{}" { maxAttempts := some 1 }, .spawn (mailWorker "a"), .claim (mailWorker "a") [], .lose 0,
    .tick (301 * nanosPerSec), .sweep (mailWorker "a")]

end FerrKit.Queue
