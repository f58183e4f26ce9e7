/-
The lock and completion columns. The representation invariant would be:
`locked_at` and `locked_by` are set exactly while a job runs, `completed_at`
exactly once it has ended. Two statements write a status without the columns
that belong to it: `cancel` leaves the lock of a running job, and
`mark_failed_for_retry` leaves the completion time of a job that has ended
in the meantime. Every other statement keeps the invariant, so a run keeps
it exactly when neither of the two happens in it.
-/
import FerrKit.Queue.Facts

namespace FerrKit.Queue

open Runs

/-- The columns of a row agree with its status. -/
structure Shaped (r : JobRow) : Prop where
  locked : (r.lockedAt.isSome ∧ r.lockedBy.isSome) ↔ r.status = .running
  completed : r.completedAt.isSome ↔ r.status.isTerminal = true

def AllShaped (s : St) : Prop := ∀ r ∈ s.jobs, Shaped r

/-- No `cancel` reaches a running job, and no reschedule one that has ended. -/
def Tidy (s : St) : Action → Prop
  | .cancel queue id => ∀ r, s.row id = some r → r.queue = queue → r.status ≠ .running
  | .complete k h => ∀ c r, s.handling k = some c → Reschedules c.claimed h → s.row c.claimed.id = some r →
      r.status.isTerminal = false
  | _ => True

/-! ## What one statement does to the columns -/

theorem newRow_shaped (now : Int) (id : Uuid) (queue payload : String) (opts : EnqueueOptions) :
    Shaped (newRow now id queue payload opts) :=
  ⟨by simp [newRow], by simp [newRow, JobStatus.isTerminal]⟩

theorem cancelAt_shaped_iff {now : Int} {r : JobRow} (h : Shaped r) :
    Shaped (r.cancelAt now) ↔ r.status ≠ .running := by
  constructor
  · intro h' hrun
    have hcan : JobStatus.cancelled = .running := h'.locked.1 (h.locked.2 hrun)
    cases hcan
  · intro hrun
    refine ⟨?_, by simp [JobRow.cancelAt, JobStatus.isTerminal]⟩
    simp only [JobRow.cancelAt, reduceCtorEq, iff_false]
    exact fun hl => hrun (h.locked.1 hl)

theorem claimSet_shaped {now : Int} {w : String} {r : JobRow} (h : Shaped r) (ht : r.status.isTerminal = false) :
    Shaped (claimSet now w r) := by
  refine ⟨by simp [claimSet], ?_⟩
  have hc := h.completed
  simp only [ht, Bool.false_eq_true, iff_false] at hc
  simpa [claimSet, JobStatus.isTerminal] using hc

theorem release_shaped {r : JobRow} (h : Shaped r) (hrun : r.status = .running) : Shaped r.release := by
  refine ⟨by simp [JobRow.release], ?_⟩
  have hc := h.completed
  simp only [hrun, JobStatus.isTerminal, Bool.false_eq_true, iff_false] at hc
  simpa [JobRow.release, JobStatus.isTerminal] using hc

/-- A completion write sets the columns that belong to its status, but a
reschedule takes the completion time over. -/
theorem set_shaped_iff {now : Int} {w : Completion} {r : JobRow} (h : Shaped r) :
    Shaped (w.set now r) ↔ (w.status = .failed → r.status.isTerminal = false) := by
  cases w with
  | markDone | markDead _ =>
    simp only [Completion.status, reduceCtorEq, false_imp_iff, iff_true]
    exact ⟨by simp [Completion.set], by simp [Completion.set, JobStatus.isTerminal]⟩
  | markFailedForRetry errMsg nextRun =>
    have hc : Shaped ((Completion.markFailedForRetry errMsg nextRun).set now r) ↔ r.completedAt.isSome = false := by
      constructor
      · intro h'
        have := h'.completed
        simpa [Completion.set, JobStatus.isTerminal] using this
      · intro hnone
        exact ⟨by simp [Completion.set], by simp [Completion.set, JobStatus.isTerminal, hnone]⟩
    rw [hc, Completion.status]
    have := h.completed
    cases hs : r.completedAt.isSome <;> cases ht : r.status.isTerminal <;> simp_all

/-! ## Steps and runs -/

theorem reschedules_iff (now : Int) (c : Claimed) (h : Handled) :
    Reschedules c h ↔ (processClaimed now c h).status = .failed := by
  rcases processClaimed_status now c h with ⟨hr, hs⟩ | ⟨hr, ht⟩
  · simp [hr, hs]
  · simp only [hr, false_iff]
    intro hs
    rw [hs] at ht
    cases ht

theorem row_shaped_next {s s' : St} {a : Action} {r r' : JobRow} (hR : RowR s s' r a r') (hr : s.row r.id = some r)
    (ht : Tidy s a) (h : Shaped r) : Shaped r' := by
  cases hR with
  | kept _ => exact h
  | cancelled hc => exact (cancelAt_shaped_iff h).2 (ht r hr (cancellable_iff.1 hc).2.1)
  | claimed _ hc _ =>
    refine claimSet_shaped h ?_
    obtain ⟨-, hq | hf, -⟩ := claimable_iff.1 hc
    · rw [hq]; rfl
    · rw [hf]; rfl
  | completed hc hid =>
    refine (set_shaped_iff h).2 fun hf => ?_
    exact ht _ r hc ((reschedules_iff s.now _ _).2 hf) (by rw [hid]; exact hr)
  | swept _ _ ha => exact release_shaped h (abandoned_iff.1 ha).1

theorem step_shaped_iff {s s' : St} {a : Action} (hu : UniqueIds s) (hq : AllShaped s) (h : step s a = some s') :
    AllShaped s' ↔ Tidy s a := by
  have hu' := step_uniqueIds hu h
  constructor
  · intro hq'
    cases a with
    | cancel queue id =>
      intro r hr hqueue
      by_cases hterm : r.status.isTerminal = true
      · intro hrun; rw [hrun] at hterm; cases hterm
      · simp only [step, Option.some.injEq] at h
        subst h
        have hc : cancellable queue id r = true := cancellable_iff.2 ⟨Table.get_key hr, hqueue, by simpa using hterm⟩
        have hr' := Table.get_update_some (p := cancellable queue id) (f := JobRow.cancelAt s.now) (fun _ => rfl) hr
        rw [if_pos hc] at hr'
        exact (cancelAt_shaped_iff (hq r (Table.get_mem hr))).1 (hq' _ (Table.get_mem hr'))
    | complete k hd =>
      intro c r hc hres hr
      have hshaped := hq' _ (Table.get_mem (row_completed h hc hr hu))
      exact (set_shaped_iff (hq r (Table.get_mem hr))).1 hshaped ((reschedules_iff s.now _ _).1 hres)
    | _ => trivial
  · intro ht r' hm'
    have hr' : s'.row r'.id = some r' := (row_iff_mem hu').2 ⟨hm', rfl⟩
    rcases row_inv h hr' hu with ⟨r, hr, hR⟩ | ⟨-, queue, payload, opts, -, he⟩
    · have hid : r.id = r'.id := Table.get_key hr
      exact row_shaped_next hR (by rw [hid]; exact hr) ht (hq r (Table.get_mem hr))
    · rw [he]
      exact newRow_shaped _ _ _ _ _

/-- **The columns agree with the status in every state of a run exactly when
no `cancel` of the run reaches a running job and no reschedule one that has
ended.** -/
theorem columns_iff {now : Int} {as : List Action} {s : St} (hr : run step (init now) as = some s) :
    Always step AllShaped (init now) as ↔ Along step Tidy (init now) as :=
  always_iff_along step_uniqueIds step_shaped_iff (uniqueIds_init now) (fun r hm => by simp [init] at hm) hr

/-! ## The cancelled lock -/

/-- A job is cancelled while it runs: its lock stays. -/
def cancelRunning : List Action :=
  [.enqueue 1 "mail" "{}" { }, .spawn (mailWorker "a"), .claim (mailWorker "a") [], .cancel "mail" 1]

theorem cancelRunning_keeps_lock : ¬ ∀ now as s, run step (init now) as = some s → ∀ r ∈ s.jobs, Shaped r := by
  intro h
  have hs := h 0 cancelRunning _ rfl _ List.mem_cons_self
  have hrun : JobStatus.cancelled = .running := hs.locked.1 ⟨rfl, rfl⟩
  cases hrun

/-- A job is refused once, retried and done. -/
def retriedAndDone : List Action :=
  [.enqueue 1 "mail" "{}" { }, .spawn (mailWorker "a"), .claim (mailWorker "a") [], .complete 0 (.retriable "busy"),
    .tick (2 * nanosPerSec), .claim (mailWorker "a") [], .complete 1 .ok]

theorem columns_retriedAndDone : Always step AllShaped (init 0) retriedAndDone := by
  refine (columns_iff (rfl : run step (init 0) retriedAndDone = some _)).2 ?_
  refine .cons trivial rfl (.cons trivial rfl (.cons trivial rfl (.cons ?_ rfl (.cons trivial rfl (.cons trivial rfl
    (.cons ?_ rfl trivial))))))
  · -- the row is `running` when the retry is written
    intro c r hc _ hr
    cases hc
    cases hr
    rfl
  · intro c r _ hres
    exact hres.elim

end FerrKit.Queue
