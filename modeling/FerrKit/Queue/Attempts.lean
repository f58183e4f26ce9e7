/-
The attempt counter. `claim_one` is the only statement that writes
`attempts`: it adds one, and only below `max_attempts`. The ledger of claims
grows by the same statement, so the counter is the number of claims of the
job, whatever sweeps, late writes, losses and cancels do to its status, and
`Worker::handle`, which `process_claimed` calls at most once a claim, runs
at most `max_attempts` times.
-/
import FerrKit.Queue.Facts

namespace FerrKit.Queue

open Runs

/-- How often a job was handed to a worker. -/
def St.timesClaimed (s : St) (j : Uuid) : Nat := (s.claims.map (·.claimed.id)).count j

/-- The claims that get as far as `Worker::handle`: their payload
deserializes (`decodes`). -/
def St.invocations (decodes : String → Bool) (s : St) (j : Uuid) : Nat :=
  s.claims.countP fun c => c.claimed.id == j && decodes c.claimed.payload

theorem invocations_le (decodes : String → Bool) (s : St) (j : Uuid) : s.invocations decodes j ≤ s.timesClaimed j := by
  rw [St.invocations, St.timesClaimed, List.count, List.countP_map]
  refine List.countP_mono_left fun c _ h => ?_
  simp only [Bool.and_eq_true] at h
  exact h.1

/-- The counter of a row counts its claims and keeps to its budget. -/
def Counted (s : St) (r : JobRow) : Prop :=
  r.attempts = s.timesClaimed r.id ∧ r.attempts ≤ max r.maxAttempts 0

theorem timesClaimed_eq_zero {s : St} {j : Uuid} (ho : ClaimsOwned s) (hr : s.row j = none) : s.timesClaimed j = 0 := by
  refine List.count_eq_zero_of_not_mem fun hm => ?_
  obtain ⟨c, hc, rfl⟩ := List.mem_map.1 hm
  obtain ⟨k, hk⟩ := List.getElem?_of_mem hc
  obtain ⟨r, hr', -⟩ := ho k c hk
  rw [hr] at hr'
  cases hr'

/-- A statement that leaves the counter and the ledger of claims alone. -/
theorem Counted.same {s s' : St} {r r' : JobRow} (h : Counted s r) (hid : r'.id = r.id)
    (hat : r'.attempts = r.attempts) (hmax : r'.maxAttempts = r.maxAttempts)
    (hc : s'.claims.map (·.claimed.id) = s.claims.map (·.claimed.id)) : Counted s' r' := by
  rw [Counted, St.timesClaimed, hid, hat, hmax, hc]
  exact h

theorem settle_ids (p : Phase) (claims : List Claim) (k : Nat) :
    (claims.modify k (Claim.settle p)).map (·.claimed.id) = claims.map (·.claimed.id) :=
  Table.map_modify (f := Claim.settle p) (fun _ => rfl) claims k

/-- The row of a job stays counted: `claim_one` moves its counter and the
ledger together, and nothing else moves either. -/
theorem counted_next {s s' : St} {a : Action} {j : Uuid} {r r' : JobRow} (h : step s a = some s')
    (hr : s.row j = some r) (hr' : s'.row j = some r') (hu : UniqueIds s) (hc : Counted s r) : Counted s' r' := by
  cases step_inv h with
  | tick | spawn | duplicate | noJob | noSweep =>
    have he : r = r' := Option.some.inj (hr.symm.trans hr')
    exact he ▸ hc
  | enqueue _ =>
    have he : r = r' := Option.some.inj ((Table.get_append_some hr _).symm.trans hr')
    exact he ▸ hc
  | lose _ _ =>
    have he : r = r' := Option.some.inj (hr.symm.trans hr')
    exact he ▸ hc.same rfl rfl rfl (settle_ids _ _ _)
  | cancel | sweep _ _ =>
    have he := row_of_update rfl (by intro; rfl) hr hr'
    split at he
    · exact he ▸ hc.same rfl rfl rfl rfl
    · exact he ▸ hc
  | complete _ _ =>
    have he := row_of_update rfl (fun _ => Completion.set_id _ _ _) hr hr'
    split at he
    · exact he ▸ hc.same (Completion.set_id _ _ _) (Completion.set_attempts _ _ _) (Completion.set_maxAttempts _ _ _)
        (settle_ids _ _ _)
    · exact he ▸ hc.same rfl rfl rfl (settle_ids _ _ _)
  | @claim w locked r₀ _ hr₀ hcl =>
    have he := row_of_update rfl (by intro; rfl) hr hr'
    obtain ⟨hcount, hbound⟩ := hc
    split at he
    · next hid =>
      -- this job: one more on both sides, and there was room for it
      have : r₀ = r := List.inj_on_of_nodup_map hu hr₀ (Table.get_mem hr) (beq_iff_eq.1 hid).symm
      subst this he
      have hlt := (claimable_iff.1 hcl).2.2.2
      refine ⟨?_, by simp only [claimSet]; omega⟩
      simp only [claimSet, St.timesClaimed, JobRow.toClaimed, List.map_append, List.map_cons, List.map_nil,
        List.count_append, List.count_singleton_self, hcount]
      push_cast
      rfl
    · next hid =>
      have hne : ¬ r₀.id = r.id := fun h' => hid (beq_iff_eq.2 h'.symm)
      subst he
      refine ⟨?_, hbound⟩
      rw [hcount]
      simp [St.timesClaimed, JobRow.toClaimed, claimSet, hne]

structure Tallied (s : St) : Prop where
  unique : UniqueIds s
  owned : ClaimsOwned s
  counted : ∀ j r, s.row j = some r → Counted s r

theorem step_tallied {s s' : St} {a : Action} (hi : Tallied s) (h : step s a = some s') : Tallied s' where
  unique := step_uniqueIds hi.unique h
  owned := step_claimsOwned hi.unique hi.owned h
  counted j r' hr' := by
    rcases row_inv h hr' hi.unique with ⟨r, hr, -⟩ | ⟨hnone, queue, payload, opts, rfl, rfl⟩
    · exact counted_next h hr hr' hi.unique (hi.counted j r hr)
    · -- a new job has no claims yet
      have hz := timesClaimed_eq_zero hi.owned hnone
      cases step_inv h with
      | duplicate => rw [hnone] at hr'; cases hr'
      | enqueue _ => exact ⟨(congrArg Nat.cast hz).symm, le_max_right _ _⟩

theorem tallied_init (now : Int) : Tallied (init now) where
  unique := uniqueIds_init now
  owned k c hc := by simp [init] at hc
  counted j r hr := by simp [init, St.row, Table.get] at hr

/-- What becomes of the attempts of each job between two states. -/
structure AttemptsKept (s t : St) : Prop where
  counted : ∀ r ∈ t.jobs, r.attempts = t.timesClaimed r.id
  bounded : ∀ r ∈ t.jobs, r.attempts ≤ max r.maxAttempts 0
  handled : ∀ decodes, ∀ r ∈ t.jobs, (t.invocations decodes r.id : Int) ≤ max r.maxAttempts 0
  grows : ∀ j r, s.row j = some r → ∃ r', t.row j = some r' ∧ r'.maxAttempts = r.maxAttempts ∧ r.attempts ≤ r'.attempts

/-- **A job is claimed as often as its counter says, and within its budget.**
In every reachable state `attempts` is the number of claims of the job and
at most `max_attempts`, it never falls from one state to a later one, and
`Worker::handle` is called at most `max_attempts` times. -/
theorem attempts_kept {now : Int} {s t : St} {as : List Action} (hs : Reachable step (init now) s)
    (hr : run step s as = some t) : AttemptsKept s t := by
  have hi : Tallied s := hs.invariant step_tallied (tallied_init now)
  have ht : Tallied t := invariant_run step_tallied hr hi
  have hrow : ∀ r ∈ t.jobs, Counted t r := fun r hm => ht.counted r.id r ((row_iff_mem ht.unique).2 ⟨hm, rfl⟩)
  refine ⟨fun r hm => (hrow r hm).1, fun r hm => (hrow r hm).2, fun decodes r hm => ?_, ?_⟩
  · have hle := invocations_le decodes t r.id
    obtain ⟨hcount, hbound⟩ := hrow r hm
    omega
  · exact rel_along (I := UniqueIds)
      (R := fun s t => ∀ j r, s.row j = some r →
        ∃ r', t.row j = some r' ∧ r'.maxAttempts = r.maxAttempts ∧ r.attempts ≤ r'.attempts)
      step_uniqueIds (fun s j r hr => ⟨r, hr, rfl, le_refl _⟩)
      (fun h₁ h₂ j r hr => by
        obtain ⟨r₁, hr₁, hm₁, ha₁⟩ := h₁ j r hr
        obtain ⟨r₂, hr₂, hm₂, ha₂⟩ := h₂ j r₁ hr₁
        exact ⟨r₂, hr₂, hm₂.trans hm₁, ha₁.trans ha₂⟩)
      (fun hu _ h j r hr => by
        obtain ⟨r', hr', hR⟩ := row_next h hr hu
        exact ⟨r', hr', hR.frame.2.2.1, hR.frame.2.2.2⟩)
      hi.unique along_true hr

/-- Two attempts: the worker of the first dies and the sweeper releases the
job, the second is refused and buried. -/
def twoAttempts : List Action :=
  [.enqueue 1 "mail" "{}" { maxAttempts := some 2 }, .spawn (mailWorker "a"), .spawn (mailWorker "b"),
    .claim (mailWorker "a") [], .lose 0, .tick (301 * nanosPerSec), .sweep (mailWorker "b"),
    .claim (mailWorker "b") [], .complete 1 (.retriable "busy"), .claim (mailWorker "b") []]

theorem attempts_kept_twoAttempts : ∃ t, run step (init 0) twoAttempts = some t ∧ t.timesClaimed 1 = 2 ∧
    AttemptsKept (init 0) t :=
  ⟨_, rfl, rfl, attempts_kept .refl (rfl : run step (init 0) twoAttempts = some _)⟩

end FerrKit.Queue
