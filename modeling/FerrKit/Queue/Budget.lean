/-
The retry budget. `claim_one` takes a job only while `attempts <
max_attempts`, so a job that is `queued` or `failed` with its budget spent
can never be claimed and never ends. `retry_or_bury` buries such a job, but
two writers put a row back without looking at the row's budget: the sweeper,
and a reschedule decided on the `attempts` of a claim that was swept and
re-claimed since. And a worker that dies on the last attempt leaves a job
nobody will finish. Where none of the three happens (`Funded`), the budget
is kept in every state of the run.
-/
import FerrKit.Queue.Facts

namespace FerrKit.Queue

open Runs

/-- Jobs are enqueued with `max_attempts` at least 1. -/
def PositiveBudget (_ : St) : Action → Prop
  | .enqueue _ _ _ opts => 1 ≤ opts.storedMaxAttempts
  | _ => True

/-- A reschedule lands on a row, a sweep releases a row and a worker is lost
only while there are attempts left. -/
def Funded (s : St) : Action → Prop
  | .complete k h => ∀ c r, s.handling k = some c → Reschedules c.claimed h → s.row c.claimed.id = some r →
      r.attempts < r.maxAttempts
  | .lose k => ∀ c, s.handling k = some c → c.claimed.attempts < c.claimed.maxAttempts
  | .sweep w => ∀ cutoff r, sweepCutoff s.now w.staleAfter = some cutoff → r ∈ s.jobs → abandoned cutoff r = true →
      r.attempts < r.maxAttempts
  | _ => True

/-- A waiting job can still be claimed once its `run_at` has passed; a job
whose budget is spent and that no worker holds has ended. -/
structure BudgetKept (s : St) : Prop where
  waiting : ∀ r ∈ s.jobs, r.status = .queued ∨ r.status = .failed →
    r.attempts < r.maxAttempts ∧ ∀ now, r.runAt ≤ now → claimable now r.queue r = true
  spent : ∀ r ∈ s.jobs, r.maxAttempts ≤ r.attempts →
    (∀ c ∈ s.claims, c.claimed.id = r.id → c.phase ≠ .handling) →
    r.status = .dead ∨ r.status = .done ∨ r.status = .cancelled

/-! ## The invariant -/

/-- The claim a running row is running for. -/
def RunsFor (s : St) (r : JobRow) : Prop :=
  ∃ (k : Nat) (c : Claim), s.claims[k]? = some c ∧ c.claimed.id = r.id ∧ c.phase ≠ .completed ∧
    c.claimed.attempts = r.attempts ∧ c.claimed.maxAttempts = r.maxAttempts

structure Budgeted (s : St) : Prop where
  unique : UniqueIds s
  waiting : ∀ j r, s.row j = some r → r.status = .queued ∨ r.status = .failed → r.attempts < r.maxAttempts
  running : ∀ j r, s.row j = some r → r.status = .running → RunsFor s r
  lost : ∀ (k : Nat) (c : Claim), s.claims[k]? = some c → c.phase = .lost →
    c.claimed.attempts < c.claimed.maxAttempts

theorem budgeted_init (now : Int) : Budgeted (init now) where
  unique := uniqueIds_init now
  waiting j r hr := by simp [init, St.row, Table.get] at hr
  running j r hr := by simp [init, St.row, Table.get] at hr
  lost k c hc := by simp [init] at hc

theorem waiting_step {s s' : St} {a : Action} {r r' : JobRow} (hf : Funded s a) (hr : s.row r.id = some r)
    (hR : RowR s s' r a r') (hw : r.status = .queued ∨ r.status = .failed → r.attempts < r.maxAttempts)
    (hw' : r'.status = .queued ∨ r'.status = .failed) : r'.attempts < r'.maxAttempts := by
  cases hR with
  | kept _ => exact hw hw'
  | cancelled _ => rcases hw' with h | h <;> cases h
  | claimed _ _ _ => rcases hw' with h | h <;> cases h
  | @completed k hd c hc hid =>
    rw [Completion.set_attempts, Completion.set_maxAttempts]
    rw [Completion.set_status] at hw'
    rcases processClaimed_status s.now c.claimed hd with ⟨hres, -⟩ | ⟨-, ht⟩
    · exact hf c r hc hres (by rw [hid]; exact hr)
    · rcases hw' with h | h <;> rw [h] at ht <;> cases ht
  | swept _ hcut ha => exact hf _ r hcut (Table.get_mem hr) ha

/-- The claim of a running row outlives every step that leaves the row
running. -/
theorem runsFor_step {s s' : St} {a : Action} {r r' : JobRow} (h : step s a = some s') (hR : RowR s s' r a r')
    (hrun : r.status = .running → RunsFor s r) (hrun' : r'.status = .running) : RunsFor s' r' := by
  cases hR with
  | kept hno =>
    obtain ⟨k, c, hk, hid, hp, hat, hmax⟩ := hrun hrun'
    obtain ⟨c', hk', hcl, hph⟩ := claims_next h hk
    refine ⟨k, c', hk', by rw [hcl]; exact hid, ?_, by rw [hcl]; exact hat, by rw [hcl]; exact hmax⟩
    rcases hph with hph | ⟨hc, ⟨hd, ha, -⟩ | ⟨-, hph⟩⟩
    · rw [hph]; exact hp
    · exact absurd hid (hno k hd c ha hc)
    · rw [hph]; decide
  | cancelled _ => cases hrun'
  | claimed _ _ hcl =>
    refine ⟨s.claims.length, _, by rw [hcl]; exact List.getElem?_concat_length, rfl, ?_, rfl, rfl⟩
    simp
  | @completed k hd c _ _ =>
    rw [Completion.set_status] at hrun'
    rcases processClaimed_status s.now c.claimed hd with ⟨-, ht⟩ | ⟨-, ht⟩ <;> rw [hrun'] at ht <;> cases ht
  | swept _ _ _ => cases hrun'

theorem step_budgeted {s s' : St} {a : Action} (hi : Budgeted s) (hp : PositiveBudget s a) (hf : Funded s a)
    (h : step s a = some s') : Budgeted s' where
  unique := step_uniqueIds hi.unique h
  waiting j r' hr' hw' := by
    rcases row_inv h hr' hi.unique with ⟨r, hr, hR⟩ | ⟨-, queue, payload, opts, rfl, rfl⟩
    · have hj : r.id = j := Table.get_key hr
      subst hj
      exact waiting_step hf hr hR (hi.waiting _ r hr) hw'
    · have : 1 ≤ opts.storedMaxAttempts := hp
      simp only [newRow]
      omega
  running j r' hr' hrun' := by
    rcases row_inv h hr' hi.unique with ⟨r, hr, hR⟩ | ⟨-, queue, payload, opts, -, rfl⟩
    · exact runsFor_step h hR (hi.running j r hr) hrun'
    · cases hrun'
  lost k c' hk' hl := by
    rcases claims_inv h hk' with ⟨c, hk, hcl, -, -, -⟩ | ⟨-, w, locked, r, -, -, -, -, -, rfl⟩
    · obtain ⟨c₁, hk₁, -, hph⟩ := claims_next h hk
      rw [hk', Option.some.injEq] at hk₁
      subst hk₁
      rw [hcl]
      rcases hph with hph | ⟨hc, ⟨hd, -, hph⟩ | ⟨rfl, -⟩⟩
      · exact hi.lost k c hk (hph.symm.trans hl)
      · rw [hph] at hl; cases hl
      · exact hf c hc
    · cases hl

/-- **The retry budget is kept** in every run whose reschedules, sweeps and
losses leave attempts: a `queued` or `failed` job can still be claimed, and
a job with its budget spent that no worker holds has ended. -/
theorem budget_kept {now : Int} {s : St} {as : List Action} (hp : Along step PositiveBudget (init now) as)
    (hf : Along step Funded (init now) as) (hr : run step (init now) as = some s) : BudgetKept s := by
  have hi : Budgeted s :=
    invariant_along (fun hi hb h => step_budgeted hi hb.1 hb.2 h) (hp.and hf) hr (budgeted_init now)
  refine ⟨fun r hr hw => ?_, fun r hr hspent hfree => ?_⟩
  · have hrow := (row_iff_mem hi.unique).2 ⟨hr, rfl⟩
    have hlt := hi.waiting _ r hrow hw
    exact ⟨hlt, fun now hnow => claimable_iff.2 ⟨rfl, hw, hnow, hlt⟩⟩
  · have hrow := (row_iff_mem hi.unique).2 ⟨hr, rfl⟩
    cases hs : r.status with
    | dead => exact .inl rfl
    | done => exact .inr (.inl rfl)
    | cancelled => exact .inr (.inr rfl)
    | queued => have := hi.waiting _ r hrow (.inl hs); omega
    | failed => have := hi.waiting _ r hrow (.inr hs); omega
    | running =>
      -- its claim is neither completed nor being handled, so it was lost with attempts left
      obtain ⟨k, c, hk, hid, hcp, hat, hmax⟩ := hi.running _ r hrow hs
      have hnh := hfree c (List.mem_of_getElem? hk) hid
      have hlost : c.phase = .lost := by
        cases hph : c.phase with
        | handling => exact absurd hph hnh
        | completed => exact absurd hph hcp
        | lost => rfl
      have := hi.lost k c hk hlost
      omega

/-! ## The crash on the last attempt -/

theorem crashOnLast_stuck : ¬ ∀ now as s, Along step PositiveBudget (init now) as →
    run step (init now) as = some s → BudgetKept s := by
  intro h
  have hp : Along step PositiveBudget (init 0) crashOnLast :=
    .cons (by simp only [PositiveBudget]; decide) rfl (.cons trivial rfl (.cons trivial rfl (.cons trivial rfl (.cons trivial rfl
      (.cons trivial rfl trivial)))))
  have hw := ((h 0 crashOnLast _ hp rfl).waiting _ List.mem_cons_self (.inl rfl)).1
  exact absurd hw (by decide)

/-- The worker of the first of three attempts dies, the sweeper releases the
job, and the second attempt is buried as permanent. -/
def crashAndBury : List Action :=
  [.enqueue 1 "mail" "{}" { }, .spawn (mailWorker "a"), .spawn (mailWorker "b"), .claim (mailWorker "a") [], .lose 0,
    .tick (301 * nanosPerSec), .sweep (mailWorker "b"), .claim (mailWorker "b") [], .complete 1 (.permanent "gone")]

theorem budget_kept_crashAndBury : ∃ s, run step (init 0) crashAndBury = some s ∧ BudgetKept s := by
  have hp : Along step PositiveBudget (init 0) crashAndBury :=
    .cons (by simp only [PositiveBudget]; decide) rfl (.cons trivial rfl (.cons trivial rfl (.cons trivial rfl (.cons trivial rfl
      (.cons trivial rfl (.cons trivial rfl (.cons trivial rfl (.cons trivial rfl trivial))))))))
  have hf : Along step Funded (init 0) crashAndBury := by
    refine .cons trivial rfl (.cons trivial rfl (.cons trivial rfl (.cons trivial rfl (.cons ?_ rfl
      (.cons trivial rfl (.cons ?_ rfl (.cons trivial rfl (.cons ?_ rfl trivial))))))))
    · intro c hc
      cases hc
      decide
    · intro cutoff r _ hr _
      rw [List.mem_singleton.1 hr]
      decide
    · intro c r _ hres
      exact hres.elim
  exact ⟨_, rfl, budget_kept hp hf rfl⟩

end FerrKit.Queue
