/-
Which jobs can still be done. A job that has not ended and has attempts left
can: a new worker waits until it is due, or until its lock is stale and a
sweep releases it, claims it and finishes it. A job with a handler at work
can, even when it was cancelled meanwhile. No other job ever is: in
particular one that was swept on its last attempt waits forever in a status
that is not terminal.
-/
import FerrKit.Queue.Shutdown

namespace FerrKit.Queue

open Runs

/-- Some continuation brings the job to `done`. -/
def CanFinish (s : St) (j : Uuid) : Prop := ∃ as t r, run step s as = some t ∧ t.row j = some r ∧ r.status = .done

/-- A handler of the job is at work. -/
def St.InHand (s : St) (j : Uuid) : Prop := ∃ k c, s.handling k = some c ∧ c.claimed.id = j

theorem CanFinish.step {s t : St} {a : Action} {j : Uuid} (h : CanFinish t j) (hs : Queue.step s a = some t) :
    CanFinish s j := by
  obtain ⟨as, u, r, hr, hrow, hdone⟩ := h
  exact ⟨a :: as, u, r, run_cons_some.2 ⟨t, hs, hr⟩, hrow, hdone⟩

/-! ## How to finish -/

section Finish

variable {s : St} {j : Uuid} {r : JobRow} {w : Worker}

/-- A handler at work may succeed. -/
theorem canFinish_inHand (hu : UniqueIds s) (hr : s.row j = some r) (h : s.InHand j) : CanFinish s j := by
  obtain ⟨k, c, hc, rfl⟩ := h
  have hstep : ∃ t, step s (.complete k .ok) = some t := by
    simp only [step, hc, Option.map_some]
    exact ⟨_, rfl⟩
  obtain ⟨t, ht⟩ := hstep
  refine CanFinish.step ⟨[], t, _, rfl, row_completed ht hc hr hu, ?_⟩ ht
  rfl

/-- With every other row locked, an idle worker claims this one. -/
theorem claim_only {others : List Uuid} (hw : w ∈ s.workers) (hidle : s.idle w = true) (hr : s.row j = some r)
    (hc : claimable s.now w.queue r = true) (ho : ∀ id ∈ s.jobs.map JobRow.id, id ∈ others ↔ id ≠ j) :
    ∃ t, step s (.claim w others) = some t ∧ t.InHand j := by
  have hid : r.id = j := Table.get_key hr
  have hmem : r ∈ s.jobs := Table.get_mem hr
  have hfree : r.id ∉ others := fun h => (ho r.id (List.mem_map.2 ⟨r, hmem, rfl⟩)).1 h hid
  have hsel : selectNext s.now w.queue others s.jobs ≠ none :=
    Table.first_ne_none (List.mem_filter.2 ⟨hmem, by simp [hc, hfree]⟩)
  obtain ⟨r', hr'⟩ := Option.ne_none_iff_exists'.1 hsel
  have hr'mem := List.mem_filter.1 (Table.first_mem hr')
  have hid' : r'.id = j := by
    have hnot : r'.id ∉ others := by simpa using (Bool.and_eq_true_iff.1 hr'mem.2).2
    by_contra hne
    exact hnot ((ho r'.id (List.mem_map.2 ⟨r', hr'mem.1, rfl⟩)).2 hne)
  refine ⟨{ s with
    jobs := Table.update (·.id == r'.id) (claimSet s.now w.workerId) s.jobs
    claims := s.claims ++ [⟨w, (claimSet s.now w.workerId r').toClaimed, s.now, .handling⟩] }, ?_, ?_⟩
  · simp only [step, hidle, List.contains_iff_mem.2 hw, Bool.and_self, if_true, claimOne, hr']
  · exact ⟨s.claims.length, _, handling_eq_some.2 ⟨List.getElem?_concat_length, rfl⟩, hid'⟩

theorem canFinish_claimable (hu : UniqueIds s) (hr : s.row j = some r) (hw : w ∈ s.workers)
    (hidle : s.idle w = true) (hc : claimable s.now w.queue r = true) : CanFinish s j := by
  have hothers : ∀ id ∈ s.jobs.map JobRow.id, id ∈ (s.jobs.map JobRow.id).filter (· != j) ↔ id ≠ j := by
    intro id hid
    simp [List.mem_filter, hid]
  obtain ⟨t, ht, hin⟩ := claim_only hw hidle hr hc hothers
  obtain ⟨r', hr', -⟩ := row_next ht hr hu
  exact (canFinish_inHand (step_uniqueIds hu ht) hr' hin).step ht

/-- A job that is waiting is due at some time. -/
theorem canFinish_waiting (hu : UniqueIds s) (hr : s.row j = some r) (hw : w ∈ s.workers) (hidle : s.idle w = true)
    (hq : r.queue = w.queue) (hst : r.status = .queued ∨ r.status = .failed) (hleft : r.attempts < r.maxAttempts) :
    CanFinish s j := by
  have ht : step s (.tick (r.runAt - s.now).toNat) = some { s with now := s.now + (r.runAt - s.now).toNat } := rfl
  refine (canFinish_claimable (s := { s with now := s.now + (r.runAt - s.now).toNat }) hu hr hw hidle ?_).step ht
  refine claimable_iff.2 ⟨hq, hst, ?_, hleft⟩
  show r.runAt ≤ s.now + (r.runAt - s.now).toNat
  omega

/-- The `stale_after` of a worker with the default config. -/
def fiveMinutes : Duration := .fromSecs 300

theorem sweepCutoff_fiveMinutes {now : Int} (h : 300 * nanosPerSec ≤ now) :
    sweepCutoff now fiveMinutes = some (now - 300 * nanosPerSec) := by
  have hsecs : fiveMinutes.asSecs = 300 := rfl
  rw [sweepCutoff, hsecs, if_pos (by decide), chronoSubSeconds]
  refine if_pos ⟨by decide, ?_⟩
  simp only [chronoMinUtc, nanosPerSec] at h ⊢
  omega

/-- A lock goes stale, and then a sweep releases the job. -/
theorem canFinish_running {l : Int} (hu : UniqueIds s) (hr : s.row j = some r) (hw : w ∈ s.workers)
    (hidle : s.idle w = true) (hstale : w.staleAfter = fiveMinutes) (hq : r.queue = w.queue)
    (hrun : r.status = .running) (hl : r.lockedAt = some l) (hleft : r.attempts < r.maxAttempts) : CanFinish s j := by
  let d : Nat := (max l 0 + 300 * nanosPerSec + 1 - s.now).toNat
  have hlate : max l 0 + 300 * nanosPerSec + 1 ≤ s.now + d := by
    simp only [d]
    omega
  have htick : step s (.tick d) = some { s with now := s.now + d } := rfl
  have hcut : sweepCutoff (s.now + d) w.staleAfter = some (s.now + d - 300 * nanosPerSec) := by
    rw [hstale]
    exact sweepCutoff_fiveMinutes (by omega)
  have hsweep : step { s with now := s.now + d } (.sweep w) = some
      { s with
        now := s.now + d
        jobs := sweepPass (s.now + d - 300 * nanosPerSec) s.jobs } := by
    simp only [step, List.contains_iff_mem.2 hw, if_true, hcut]
  have habandoned : abandoned (s.now + d - 300 * nanosPerSec) r = true :=
    abandoned_iff.2 ⟨hrun, l, hl, by omega⟩
  have hrow : Table.get JobRow.id (sweepPass (s.now + d - 300 * nanosPerSec) s.jobs) j = some r.release := by
    have hget := Table.get_update_some (p := abandoned (s.now + d - 300 * nanosPerSec)) (f := JobRow.release)
      (fun _ => rfl) hr
    rw [if_pos habandoned] at hget
    exact hget
  have hu' : UniqueIds { s with now := s.now + d, jobs := sweepPass (s.now + d - 300 * nanosPerSec) s.jobs } :=
    step_uniqueIds (s := { s with now := s.now + d }) hu hsweep
  exact ((canFinish_waiting hu' hrow hw hidle hq (.inl rfl) hleft).step hsweep).step htick

end Finish

/-! ## Nothing else is ever done -/

/-- The job has ended without success or has no attempts left, and no handler
is at work. -/
def Stranded (s : St) (j : Uuid) : Prop :=
  (∃ r, s.row j = some r ∧ r.status ≠ .done ∧ (r.status.isTerminal = true ∨ r.maxAttempts ≤ r.attempts)) ∧ ¬ s.InHand j

theorem Stranded.not_claimable {s : St} {j : Uuid} {r : JobRow} (h : Stranded s j) (hr : s.row j = some r)
    (now : Int) (queue : String) : claimable now queue r = false := by
  obtain ⟨⟨r', hr', -, hno⟩, -⟩ := h
  rw [hr, Option.some.injEq] at hr'
  subst hr'
  rw [Bool.eq_false_iff]
  intro hc
  obtain ⟨-, hst, -, hleft⟩ := claimable_iff.1 hc
  rcases hno with hterm | hspent
  · rcases hst with hst | hst <;> simp [hst, JobStatus.isTerminal] at hterm
  · omega

theorem step_stranded {s t : St} {a : Action} {j : Uuid} (hu : UniqueIds s) (h : Stranded s j)
    (hs : step s a = some t) : Stranded t j := by
  have hclaim : ∀ {r}, s.row j = some r → ∀ now queue, claimable now queue r = false := h.not_claimable
  obtain ⟨⟨r, hr, hdone, hno⟩, hhand⟩ := h
  have hid : r.id = j := Table.get_key hr
  obtain ⟨r', hr', hR⟩ := row_next hs hr hu
  refine ⟨⟨r', hr', ?_⟩, ?_⟩
  · cases hR with
    | kept _ => exact ⟨hdone, hno⟩
    | cancelled _ => exact ⟨by simp [JobRow.cancelAt], .inl rfl⟩
    | claimed _ hc _ => rw [hclaim hr] at hc; cases hc
    | completed hc hcid => exact absurd ⟨_, _, hc, hcid.trans hid⟩ hhand
    | swept _ _ ha =>
      have hrun := (abandoned_iff.1 ha).1
      refine ⟨by simp [JobRow.release], .inr ?_⟩
      rcases hno with hterm | hspent
      · simp [hrun, JobStatus.isTerminal] at hterm
      · exact hspent
  · rintro ⟨k, c', hc', hcid⟩
    obtain ⟨hk, hp⟩ := handling_eq_some.1 hc'
    rcases claims_inv hs hk with ⟨c, hc, hcl, -, -, hph⟩ | ⟨-, w, locked, r₀, -, -, hr₀, hcl, -, rfl⟩
    · refine hhand ⟨k, c, handling_eq_some.2 ⟨hc, ?_⟩, hcl ▸ hcid⟩
      rcases hph with hph | hph
      · exact hph
      · rw [← hph]
        exact hp
    · have hrow : s.row j = some r₀ := (row_iff_mem hu).2 ⟨hr₀, hcid⟩
      rw [hclaim hrow] at hcl
      cases hcl

theorem Stranded.not_canFinish {s : St} {j : Uuid} (hu : UniqueIds s) (h : Stranded s j) : ¬ CanFinish s j := by
  rintro ⟨as, t, r, hrun, hr, hdone⟩
  have ht : UniqueIds t ∧ Stranded t j := invariant_run (I := fun s => UniqueIds s ∧ Stranded s j)
    (fun hi hs => ⟨step_uniqueIds hi.1 hs, step_stranded hi.1 hi.2 hs⟩) hrun ⟨hu, h⟩
  obtain ⟨⟨r', hr', hne, -⟩, -⟩ := ht.2
  rw [hr, Option.some.injEq] at hr'
  subst hr'
  exact hne hdone

/-! ## Every reachable state -/

/-- A running row has a lock. -/
def RunningLocked (s : St) : Prop := ∀ j r, s.row j = some r → r.status = .running → ∃ l, r.lockedAt = some l

theorem step_runningLocked {s t : St} {a : Action} (hu : UniqueIds s) (h : RunningLocked s) (hs : step s a = some t) :
    RunningLocked t := by
  intro j r' hr' hrun
  rcases row_inv hs hr' hu with ⟨r, hr, hR⟩ | ⟨-, queue, payload, opts, -, rfl⟩
  · cases hR with
    | kept _ => exact h j _ hr hrun
    | cancelled _ => cases hrun
    | claimed _ _ _ => exact ⟨s.now, rfl⟩
    | @completed k hd c _ _ =>
      rw [Completion.set_status] at hrun
      rcases processClaimed_status s.now c.claimed hd with ⟨-, hst⟩ | ⟨-, hst⟩
      · rw [hst] at hrun; cases hrun
      · rw [hrun] at hst; cases hst
    | swept _ _ _ => cases hrun
  · cases hrun

/-- A worker nobody has spawned yet. -/
theorem exists_worker (s : St) (queue : String) :
    ∃ w : Worker, w.queue = queue ∧ w.staleAfter = fiveMinutes ∧ ∀ w' ∈ s.workers, w'.workerId ≠ w.workerId := by
  obtain ⟨id, hid⟩ := Infinite.exists_notMem_finset (s.workers.map Worker.workerId).toFinset
  refine ⟨⟨id, queue, fiveMinutes⟩, rfl, rfl, fun w' hw' he => hid ?_⟩
  exact List.mem_toFinset.2 (List.mem_map.2 ⟨w', hw', he⟩)

/-- **Which jobs can still be done**: in every reachable state, a job is done
in some continuation exactly when it is done already, a handler of it is at
work, or it has not ended and has attempts left. -/
theorem canFinish_iff {now : Int} {s : St} {j : Uuid} {r : JobRow} (hs : Reachable step (init now) s)
    (hr : s.row j = some r) :
    CanFinish s j ↔ r.status = .done ∨ s.InHand j ∨ (r.status.isTerminal = false ∧ r.attempts < r.maxAttempts) := by
  have hu : UniqueIds s := hs.invariant step_uniqueIds (uniqueIds_init now)
  constructor
  · intro hcan
    by_contra hno
    simp only [not_or, not_and] at hno
    obtain ⟨hdone, hhand, hleft⟩ := hno
    refine Stranded.not_canFinish hu ⟨⟨r, hr, hdone, ?_⟩, hhand⟩ hcan
    cases hterm : r.status.isTerminal with
    | true => exact .inl rfl
    | false => exact .inr (Int.not_lt.1 (hleft hterm))
  · rintro (hdone | hhand | ⟨hopen, hleft⟩)
    · exact ⟨[], s, r, rfl, hr, hdone⟩
    · exact canFinish_inHand hu hr hhand
    · -- a new worker, of this queue, with nothing in hand
      obtain ⟨w, hq, hstale, hnew⟩ := exists_worker s r.queue
      have hspawn : step s (.spawn w) = some { s with workers := s.workers ++ [w] } := by
        have hfresh : (s.workers.any (·.workerId == w.workerId)) = false := by simpa using hnew
        simp only [step, hfresh, Bool.false_eq_true, if_false]
      have hw : w ∈ s.workers ++ [w] := by simp
      have hidle : ({ s with workers := s.workers ++ [w] } : St).idle w = true := by
        refine List.all_eq_true.2 fun c hc => ?_
        obtain ⟨k, hk⟩ := List.getElem?_of_mem hc
        have hne : c.worker ≠ w := fun he => hnew c.worker (claims_spawned hs k c hk) (by rw [he])
        simp [hne]
      refine CanFinish.step ?_ hspawn
      have hwait := canFinish_waiting (s := { s with workers := s.workers ++ [w] }) hu hr hw hidle hq.symm
      cases hst : r.status with
      | queued => exact hwait (.inl hst) hleft
      | failed => exact hwait (.inr hst) hleft
      | running =>
        have hlocked : UniqueIds s ∧ RunningLocked s := hs.invariant (I := fun s => UniqueIds s ∧ RunningLocked s)
          (fun hi h => ⟨step_uniqueIds hi.1 h, step_runningLocked hi.1 hi.2 h⟩)
          ⟨uniqueIds_init now, fun j r hr => by simp [init, St.row, Table.get] at hr⟩
        obtain ⟨l, hl⟩ := hlocked.2 j r hr hst
        exact canFinish_running (s := { s with workers := s.workers ++ [w] }) hu hr hw hidle hstale hq.symm hst hl hleft
      | done | cancelled | dead => rw [hst] at hopen; cases hopen

theorem canFinish_iff_crashOnLast : ∃ s r, run step (init 0) crashOnLast = some s ∧ s.row 1 = some r ∧
    r.status = .queued ∧
    (CanFinish s 1 ↔ r.status = .done ∨ s.InHand 1 ∨ (r.status.isTerminal = false ∧ r.attempts < r.maxAttempts)) :=
  ⟨_, _, rfl, rfl, rfl, canFinish_iff (⟨crashOnLast, rfl⟩ : Reachable step (init 0) _) rfl⟩

end FerrKit.Queue
