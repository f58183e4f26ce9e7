/-
A claim as a lease: the worker that was handed a job has it to itself for
`stale_after`. What guards the lease is the row's status, `running` since
the claim's `locked_at`; a sweep that comes late enough takes it away, and
the row can then be claimed again.

The lease can be broken from two sides, and these are the two conditions of
`Fenced`. A completion write is keyed by the id alone, so the late write of
a claim that was swept long ago puts the row of the present claimant back to
`failed`, from where a third worker takes it. And a sweep releases rows by
its own cutoff: it rounds `stale_after` down to whole seconds, and it does
not look at the row's queue. Where neither happens, the lease holds in every
state of the run.
-/
import FerrKit.Queue.Facts

namespace FerrKit.Queue

open Runs

variable {S : String → Duration}

/-- The completion write is not issued and fewer than `stale_after` (of the
queue, `S`) have passed since the claim. -/
def Claim.Live (S : String → Duration) (now : Int) (c : Claim) : Prop :=
  c.phase ≠ .completed ∧ now < c.claimedAt + (S c.worker.queue).asNanos

/-- The numbers of the live claims of job `j`. -/
def live (S : String → Duration) (s : St) (j : Uuid) : Set Nat :=
  {k | ∃ c, s.claims[k]? = some c ∧ c.claimed.id = j ∧ c.Live S s.now}

/-- All workers of a queue share one `stale_after`. -/
def SharedStaleAfter (S : String → Duration) (_ : St) : Action → Prop
  | .spawn w => w.staleAfter = S w.queue
  | _ => True

/-- A write that reschedules a job finds no other live claim of it; and a row
that a sweep finds stale is of the sweeper's own queue with a `stale_after`
of whole seconds, or was locked its queue's `stale_after` ago or longer. -/
def Fenced (S : String → Duration) (s : St) : Action → Prop
  | .complete k h => ∀ c, s.handling k = some c → Reschedules c.claimed h → ∀ k' ∈ live S s c.claimed.id, k' = k
  | .sweep w => ∀ cutoff r l, sweepCutoff s.now w.staleAfter = some cutoff → r ∈ s.jobs →
      abandoned cutoff r = true → r.lockedAt = some l →
      (r.queue = w.queue ∧ (S w.queue).nanos = 0) ∨ l + (S r.queue).asNanos ≤ s.now
  | _ => True

/-- At most one claim of each job is live, and a job with a live claim is not
handed out. -/
structure LeasesHold (S : String → Duration) (s : St) : Prop where
  one : ∀ j, (live S s j).Subsingleton
  refused : ∀ w locked s' k c, step s (.claim w locked) = some s' → s'.claims[k]? = some c →
    s.claims.length ≤ k → live S s c.claimed.id = ∅

/-! ## The invariant -/

/-- The row under a live claim: running since the claim, or ended. -/
def HeldBy (c : Claim) (r : JobRow) : Prop :=
  (r.status = .running ∧ r.lockedAt = some c.claimedAt) ∨ r.status.isTerminal = true

theorem HeldBy.not_claimable {c : Claim} {r : JobRow} {now : Int} {queue : String} (h : HeldBy c r) :
    claimable now queue r = false := by
  cases hc : claimable now queue r with
  | false => rfl
  | true =>
    obtain ⟨-, hq | hq, -⟩ := claimable_iff.1 hc <;> rcases h with ⟨hs, -⟩ | ht
    all_goals simp_all [JobStatus.isTerminal]

structure Leased (S : String → Duration) (s : St) : Prop where
  unique : UniqueIds s
  owned : ClaimsOwned s
  workers : ∀ w ∈ s.workers, w.staleAfter = S w.queue
  held : ∀ (k : Nat) (c : Claim), s.claims[k]? = some c → c.Live S s.now →
    ∃ r, s.row c.claimed.id = some r ∧ HeldBy c r
  one : ∀ j, (live S s j).Subsingleton

theorem leased_init (now : Int) : Leased S (init now) where
  unique := uniqueIds_init now
  owned k c hc := by simp [init] at hc
  workers w hw := by simp [init] at hw
  held k c hc := by simp [init] at hc
  one j := by simp [live, init]

/-- A claim that is live after a step was live before it, or is the one just
handed out. -/
theorem live_of_step {s s' : St} {a : Action} {k : Nat} {c' : Claim} (h : step s a = some s')
    (hc' : s'.claims[k]? = some c') (hl : c'.Live S s'.now) :
    (∃ c, s.claims[k]? = some c ∧ c'.claimed = c.claimed ∧ c'.claimedAt = c.claimedAt ∧ c.Live S s.now) ∨
      (k = s.claims.length ∧ ∃ w locked r, a = .claim w locked ∧ w ∈ s.workers ∧ r ∈ s.jobs ∧
        claimable s.now w.queue r = true ∧ s'.jobs = Table.update (·.id == r.id) (claimSet s.now w.workerId) s.jobs ∧
        c' = ⟨w, (claimSet s.now w.workerId r).toClaimed, s.now, .handling⟩) := by
  rcases claims_inv h hc' with ⟨c, hc, hcl, hw, hat, hp⟩ | hnew
  · refine .inl ⟨c, hc, hcl, hat, ?_, ?_⟩
    · rcases hp with hp | hp
      · rw [hp]; decide
      · rw [← hp]; exact hl.1
    · have hn := step_now h
      have ht := hl.2
      rw [hw, hat] at ht
      omega
  · exact .inr hnew

/-- The lease outlives the sweeper's cutoff on its own queue, when
`stale_after` has no fraction of a second. -/
theorem not_swept {s : St} {w : Worker} {c : Claim} {cutoff l : Int} (hcut : sweepCutoff s.now w.staleAfter = some cutoff)
    (hw : w.staleAfter = S w.queue) (hq : c.worker.queue = w.queue) (hn : (S w.queue).nanos = 0)
    (hl : c.Live S s.now) (hat : c.claimedAt = l) : cutoff ≤ l := by
  have hc := sweepCutoff_some hcut
  have ht := hl.2
  rw [hw] at hc
  rw [hq, hat, Duration.asNanos_of_whole hn, Int.natCast_mul] at ht
  omega

/-- A step that meets `Fenced` leaves the row of a live claim held. -/
theorem heldBy_step {s s' : St} {a : Action} {k : Nat} {c c' : Claim} {r r' : JobRow} (hi : Leased S s)
    (hf : Fenced S s a) (h : step s a = some s') (hk : s.claims[k]? = some c) (hk' : s'.claims[k]? = some c')
    (hl : c.Live S s.now) (hl' : c'.Live S s'.now) (hr : s.row c.claimed.id = some r) (hR : RowR s s' r a r')
    (hh : HeldBy c r) : HeldBy c r' := by
  cases hR with
  | kept _ => exact hh
  | cancelled _ => exact .inr rfl
  | claimed _ hc _ => rw [hh.not_claimable] at hc; cases hc
  | @completed k₀ hd c₀ hc₀ hid =>
    right
    rw [Completion.set_status]
    rcases processClaimed_status s.now c₀.claimed hd with ⟨hres, -⟩ | ⟨-, ht⟩
    · -- the write is the live claim's own, which then is no longer live
      have hrid : r.id = c.claimed.id := Table.get_key hr
      have hmem : k ∈ live S s c₀.claimed.id := ⟨c, hk, by rw [hid, hrid], hl⟩
      have hkk := hf c₀ hc₀ hres k hmem
      subst hkk
      cases step_inv h with
      | complete _ _ =>
        obtain ⟨c₁, -, he⟩ := getElem?_settle hk'
        rw [if_pos rfl] at he
        exact absurd (congrArg Claim.phase he) hl'.1
    · exact ht
  | @swept w cutoff hw hcut ha =>
    obtain ⟨hrun, l, hlock, hlt⟩ := abandoned_iff.1 ha
    rcases hh with ⟨-, hat⟩ | ht
    · rw [hlock, Option.some.injEq] at hat
      obtain ⟨r₀, hr₀, hq₀⟩ := hi.owned k c hk
      rw [hr, Option.some.injEq] at hr₀
      subst hr₀
      rcases hf cutoff r l hcut (Table.get_mem hr) ha hlock with ⟨hq, hn⟩ | hold
      · have := not_swept hcut (hi.workers w hw) (hq₀.symm.trans hq) hn hl hat.symm
        omega
      · have ht := hl.2
        rw [← hat, ← hq₀] at ht
        omega
    · rw [hrun] at ht; cases ht

/-- A claimable row has no live claim. -/
theorem live_empty_of_claimable {s : St} (hi : Leased S s) {now : Int} {queue : String} {r : JobRow}
    (hr : r ∈ s.jobs) (hc : claimable now queue r = true) : live S s r.id = ∅ := by
  rw [Set.eq_empty_iff_forall_notMem]
  rintro k ⟨c, hk, hid, hl⟩
  obtain ⟨r₀, hr₀, hh⟩ := hi.held k c hk hl
  have hrow : s.row c.claimed.id = some r := (row_iff_mem hi.unique).2 ⟨hr, hid.symm⟩
  rw [hr₀, Option.some.injEq] at hrow
  subst hrow
  rw [hh.not_claimable] at hc
  cases hc

theorem step_admits {s s' : St} {a : Action} (hi : Leased S s) (h : step s a = some s') (j : Uuid) :
    Admits (live S s j) (live S s' j) := by
  by_cases hnew : ∃ k ∈ live S s' j, k ∉ live S s j
  · obtain ⟨k, ⟨c', hk', hid, hl⟩, hnot⟩ := hnew
    rcases live_of_step h hk' hl with ⟨c, hk, hcl, -, hlc⟩ | ⟨rfl, w, locked, r, rfl, -, hr, hc, -, rfl⟩
    · exact absurd ⟨c, hk, by rw [← hcl]; exact hid, hlc⟩ hnot
    · have hid' : r.id = j := hid
      have hempty := hid' ▸ live_empty_of_claimable hi hr hc
      have last : ∀ {k}, k ∈ live S s' j → k = s.claims.length := by
        rintro k ⟨c', hk', hid, hl⟩
        rcases live_of_step h hk' hl with ⟨c, hk, hcl, -, hlc⟩ | ⟨he, -⟩
        · have : k ∈ live S s j := ⟨c, hk, by rw [← hcl]; exact hid, hlc⟩
          rw [hempty] at this
          exact absurd this (Set.notMem_empty k)
        · exact he
      exact .inr ⟨hempty, fun x hx y hy => (last hx).trans (last hy).symm⟩
  · left
    intro k hk
    by_contra hn
    exact hnew ⟨k, hk, hn⟩

theorem step_leased {s s' : St} {a : Action} (hi : Leased S s) (hS : SharedStaleAfter S s a) (hf : Fenced S s a)
    (h : step s a = some s') : Leased S s' where
  unique := step_uniqueIds hi.unique h
  owned := step_claimsOwned hi.unique hi.owned h
  workers := by
    cases step_inv h with
    | spawn =>
      intro w hw
      simp only [List.mem_append, List.mem_singleton] at hw
      rcases hw with hw | rfl
      · exact hi.workers w hw
      · exact hS
    | _ => exact hi.workers
  held k c' hk' hl' := by
    rcases live_of_step h hk' hl' with ⟨c, hk, hcl, hat, hl⟩ | ⟨-, w, locked, r, rfl, -, hr, -, hjobs, rfl⟩
    · obtain ⟨r, hr, hh⟩ := hi.held k c hk hl
      obtain ⟨r', hr', hR⟩ := row_next h hr hi.unique
      refine ⟨r', by rw [hcl]; exact hr', ?_⟩
      have := heldBy_step hi hf h hk hk' hl hl' hr hR hh
      simpa only [HeldBy, hat] using this
    · have hrow : s.row r.id = some r := (row_iff_mem hi.unique).2 ⟨hr, rfl⟩
      refine ⟨claimSet s.now w.workerId r, ?_, .inl ⟨rfl, rfl⟩⟩
      have hnew := Table.get_update_some (p := (·.id == r.id)) (claimSet_id s.now w.workerId) hrow
      rw [if_pos (beq_self_eq_true r.id)] at hnew
      rw [St.row, hjobs]
      exact hnew
  one j := (step_admits hi h j).subsingleton (hi.one j)

/-- **A claim is an exclusive lease** in every run whose reschedules and
sweeps are fenced: at most one claim of a job is live at any time, and no
worker is handed a job while its claimant is within `stale_after`. -/
theorem leases_hold {now : Int} {s : St} {as : List Action} (hS : Along step (SharedStaleAfter S) (init now) as)
    (hf : Along step (Fenced S) (init now) as) (hr : run step (init now) as = some s) : LeasesHold S s := by
  have hboth : Along step (fun s a => SharedStaleAfter S s a ∧ Fenced S s a) (init now) as := hS.and hf
  have hi : Leased S s := invariant_along (fun hi hp h => step_leased hi hp.1 hp.2 h) hboth hr (leased_init now)
  refine ⟨hi.one, fun w locked s' k c h hc hk => ?_⟩
  rcases claims_inv h hc with ⟨c₀, hc₀, -⟩ | ⟨-, w', locked', r, -, -, hr', hcl, -, rfl⟩
  · obtain ⟨hlt, -⟩ := List.getElem?_eq_some_iff.1 hc₀
    omega
  · exact live_empty_of_claimable (r := r) hi hr' hcl

/-! ## The late write -/

/-- Every queue with the default `stale_after`. -/
def defaultStaleAfter : String → Duration := fun _ => .fromSecs 300

/-- `a` is swept after five minutes and `b` is handed the job; then `a`'s
handler asks for a retry, and two seconds later `c` is handed it too, with
298 seconds of `b`'s lease to run. -/
def lateRetry : List Action :=
  [.enqueue 1 "mail" "{}" { }, .spawn (mailWorker "a"), .spawn (mailWorker "b"), .spawn (mailWorker "c"),
    .claim (mailWorker "a") [], .tick (301 * nanosPerSec), .sweep (mailWorker "b"), .claim (mailWorker "b") [],
    .complete 0 (.retriable "timeout"), .tick (2 * nanosPerSec), .claim (mailWorker "c") []]

theorem lateRetry_breaks_lease : ¬ ∀ S now as s, Along step (SharedStaleAfter S) (init now) as →
    run step (init now) as = some s → LeasesHold S s := by
  intro h
  have hS : Along step (SharedStaleAfter defaultStaleAfter) (init 0) lateRetry := by
    refine Along.of_at fun pre a post t he _ => ?_
    have ha : a ∈ lateRetry := by rw [he]; simp
    simp only [lateRetry, List.mem_cons, List.not_mem_nil, or_false] at ha
    rcases ha with rfl | rfl | rfl | rfl | rfl | rfl | rfl | rfl | rfl | rfl | rfl <;> first | rfl | trivial
  have hone := (h defaultStaleAfter 0 lateRetry _ hS rfl).one 1
  have htwo : (1 : Nat) = 2 := hone ⟨_, rfl, rfl, by decide, by decide⟩ ⟨_, rfl, rfl, by decide, by decide⟩
  cases htwo

/-- The same sweep, and `b` ends well. -/
def sweptAndDone : List Action :=
  [.enqueue 1 "mail" "{}" { }, .spawn (mailWorker "a"), .spawn (mailWorker "b"), .claim (mailWorker "a") [],
    .tick (301 * nanosPerSec), .sweep (mailWorker "b"), .claim (mailWorker "b") [], .complete 1 .ok]

theorem leases_hold_sweptAndDone :
    ∃ s, run step (init 0) sweptAndDone = some s ∧ LeasesHold defaultStaleAfter s := by
  have hS : Along step (SharedStaleAfter defaultStaleAfter) (init 0) sweptAndDone :=
    .cons trivial rfl (.cons rfl rfl (.cons rfl rfl (.cons trivial rfl (.cons trivial rfl
      (.cons trivial rfl (.cons trivial rfl (.cons trivial rfl trivial)))))))
  have hf : Along step (Fenced defaultStaleAfter) (init 0) sweptAndDone := by
    refine .cons trivial rfl (.cons trivial rfl (.cons trivial rfl (.cons trivial rfl (.cons trivial rfl
      (.cons ?_ rfl (.cons trivial rfl (.cons ?_ rfl trivial)))))))
    · intro cutoff r l _ hr _ _
      exact .inl ⟨congrArg JobRow.queue (List.mem_singleton.1 hr), rfl⟩
    · intro c _ hres
      exact hres.elim
  exact ⟨_, rfl, leases_hold hS hf rfl⟩

end FerrKit.Queue
