/-
Queues share one table. Every statement of a worker that names a queue
filters on its own (`claim_one`), and the completion writes go to jobs the
worker claimed, so to its own queue too. The sweeper names no queue: a
worker's sweep releases whatever row of any queue is older than its own
cutoff, and the cutoff is `stale_after` rounded down to whole seconds.
Where the rows a sweep finds stale are its own and older than the whole of
`stale_after` (`OwnStale`), each worker stays within its queue.
-/
import FerrKit.Queue.Facts

namespace FerrKit.Queue

open Runs

/-- The worker whose background tasks take the step. -/
def actor (s : St) : Action → Option Worker
  | .claim w _ | .sweep w => some w
  | .complete k _ | .lose k => (s.handling k).map Claim.worker
  | .tick _ | .spawn _ | .enqueue _ _ _ _ | .cancel _ _ => none

/-- A sweep puts a running job back only if it is older than the
`stale_after` of some worker of the job's queue, and no task of a worker
touches a row of another queue. -/
structure Confined (s : St) (a : Action) (s' : St) : Prop where
  released : ∀ w j r r', a = .sweep w → s.row j = some r → s'.row j = some r' →
    r.status = .running → r'.status = .queued →
    ∃ w' ∈ s.workers, w'.queue = r.queue ∧ ∃ l, r.lockedAt = some l ∧ l + w'.staleAfter.asNanos < s.now
  foreign : ∀ w j r, actor s a = some w → s.row j = some r → r.queue ≠ w.queue → s'.row j = some r

/-- Every running row older than the sweep's cutoff is of the sweeper's own
queue, and older than the whole of its `stale_after`. -/
def OwnStale (s : St) : Action → Prop
  | .sweep w => ∀ cutoff r l, sweepCutoff s.now w.staleAfter = some cutoff → r ∈ s.jobs →
      abandoned cutoff r = true → r.lockedAt = some l →
      r.queue = w.queue ∧ l + w.staleAfter.asNanos < s.now
  | _ => True

/-- The second half of `OwnStale` is the rounding alone. -/
theorem stale_of_whole {now cutoff l : Int} {d : Duration} (hd : d.nanos = 0) (hcut : sweepCutoff now d = some cutoff)
    (hl : l < cutoff) : l + d.asNanos < now := by
  have hc := sweepCutoff_some hcut
  rw [Duration.asNanos_of_whole hd, Int.natCast_mul]
  omega

theorem step_confined {s s' : St} {a : Action} (hi : UniqueIds s ∧ ClaimsOwned s) (ho : OwnStale s a)
    (h : step s a = some s') : Confined s a s' := by
  obtain ⟨hu, hown⟩ := hi
  constructor
  · intro w j r r' ha hr hr' hrun hq
    subst ha
    obtain ⟨r₁, hr₁, hR⟩ := row_next h hr hu
    rw [hr', Option.some.injEq] at hr₁
    subst hr₁
    cases hR with
    | kept _ => rw [hrun] at hq; cases hq
    | swept hw hcut hab =>
      obtain ⟨-, l, hl, -⟩ := abandoned_iff.1 hab
      obtain ⟨hqueue, hold⟩ := ho _ r l hcut (Table.get_mem hr) hab hl
      exact ⟨w, hw, hqueue.symm, l, hl, hold⟩
  · intro w j r hact hr hne
    obtain ⟨r', hr', hR⟩ := row_next h hr hu
    cases hR with
    | kept _ => exact hr'
    | cancelled _ => cases hact
    | claimed _ hc _ =>
      cases hact
      exact absurd (claimable_iff.1 hc).1 hne
    | @completed k hd c hc hid =>
      -- the job was claimed from the worker's queue, and rows do not change queues
      simp only [actor, hc, Option.map_some, Option.some.injEq] at hact
      subst hact
      obtain ⟨r₀, hr₀, hq₀⟩ := hown k c (handling_eq_some.1 hc).1
      rw [hid, Table.get_key hr, hr, Option.some.injEq] at hr₀
      subst hr₀
      exact absurd hq₀ hne
    | swept _ hcut hab =>
      cases hact
      obtain ⟨-, l, hl, -⟩ := abandoned_iff.1 hab
      exact absurd (ho _ r l hcut (Table.get_mem hr) hab hl).1 hne

/-- **Workers stay within their queue** in every run whose sweeps find only
their own rows stale: each step of the run is confined. -/
theorem confined_along {now : Int} {as : List Action} (h : Along step OwnStale (init now) as) :
    EachStep step Confined (init now) as :=
  eachStep_of_along (I := fun s => UniqueIds s ∧ ClaimsOwned s)
    (fun hi _ hs => ⟨step_uniqueIds hi.1 hs, step_claimsOwned hi.1 hi.2 hs⟩) step_confined
    ⟨uniqueIds_init now, by intro k c hc; simp [init] at hc⟩ h

/-! ## A sweep across queues -/

/-- A worker of another queue, with a `stale_after` of one second. -/
def pingWorker : Worker := ⟨"p", "ping", .fromSecs 1⟩

/-- Two seconds into a five-minute lease, the other queue's sweeper puts the
job back. -/
def foreignSweep : List Action :=
  [.enqueue 1 "mail" "{}" { }, .spawn (mailWorker "a"), .spawn pingWorker, .claim (mailWorker "a") [],
    .tick (2 * nanosPerSec), .sweep pingWorker]

theorem foreignSweep_not_confined : ¬ ∀ now as u, run step (init now) as = some u →
    EachStep step Confined (init now) as := by
  intro h
  have hc := h 0 foreignSweep _ rfl (foreignSweep.take 5) (.sweep pingWorker) [] _ _ rfl rfl rfl
  have hrow := hc.foreign pingWorker 1 _ rfl rfl (by decide)
  exact absurd (congrArg (Option.map JobRow.status) hrow) (by decide)

/-- The job's own sweeper comes after five minutes, and the other queue has
nothing running. -/
def ownSweep : List Action :=
  [.enqueue 1 "mail" "{}" { }, .spawn (mailWorker "a"), .claim (mailWorker "a") [], .tick (301 * nanosPerSec),
    .sweep (mailWorker "a"), .spawn pingWorker, .sweep pingWorker]

theorem confined_ownSweep : EachStep step Confined (init 0) ownSweep := by
  refine confined_along (.cons trivial rfl (.cons trivial rfl (.cons trivial rfl (.cons trivial rfl
    (.cons ?_ rfl (.cons trivial rfl (.cons ?_ rfl trivial)))))))
  · intro cutoff r l hcut hr hab hl
    obtain ⟨-, l', hl', hlt⟩ := abandoned_iff.1 hab
    rw [hl, Option.some.injEq] at hl'
    subst hl'
    exact ⟨by rw [List.mem_singleton.1 hr]; rfl, stale_of_whole rfl hcut hlt⟩
  · -- the row is `queued`
    intro cutoff r l _ hr hab
    rw [List.mem_singleton.1 hr] at hab
    exact absurd (abandoned_iff.1 hab).1 (by decide)

end FerrKit.Queue
