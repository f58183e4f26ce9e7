/-
Graceful shutdown. `WorkerHandle::shutdown` is one `notify_waiters` and a
wait for the loop to end. A loop that is in its `select!` hears it; one that
is claiming, processing or on its way to the `select!` does not, and goes on
to claim whatever comes. That is exact: from every such place some
continuation claims another job.
-/
import FerrKit.Queue.RunLoop
import Mathlib.Data.Fintype.EquivFin

namespace FerrKit.Queue

open Runs

/-- What `shutdown`, called in `s`, promises of each later state `t`. -/
structure Drained (w : Worker) (s t : LoopSt) : Prop where
  /-- The worker has no claim it did not have. -/
  noClaim : ∀ (k : Nat) (c : Claim), t.db.claims[k]? = some c → c.worker = w → k < s.db.claims.length
  /-- Only the job it was processing has come to an end. -/
  finished : ∀ (k : Nat) (c c' : Claim), s.db.claims[k]? = some c → t.db.claims[k]? = some c' → c.worker = w →
    c'.phase ≠ c.phase → s.phase = .processing k

/-- The loop is where `notify_waiters` reaches it, or has ended. -/
def LoopPhase.listens : LoopPhase → Bool
  | .waiting _ _ | .stopped => true
  | .claiming | .processing _ | .idle => false

/-- A `select!` whose shutdown branch is ready takes it. -/
def Honours (s : LoopSt) (a : LoopAction) : Prop :=
  match s.phase, a with
  | .waiting true _, .resume b => b = .shutdown
  | _, _ => True

/-! ## Every loop that is spawned -/

theorem claims_spawned {now : Int} {s : St} (h : Reachable step (init now) s) :
    ∀ (k : Nat) (c : Claim), s.claims[k]? = some c → c.worker ∈ s.workers := by
  refine h.invariant (I := fun s => ∀ (k : Nat) (c : Claim), s.claims[k]? = some c → c.worker ∈ s.workers) ?_ ?_
  · intro s a t hi hs k c' hc'
    rcases claims_inv hs hc' with ⟨c, hc, -, hw, -, -⟩ | ⟨-, w, _, _, -, hw, -, -, -, rfl⟩
    · rw [hw]
      exact workers_next hs (hi k c hc)
    · exact workers_next hs hw
  · intro k c hc
    simp [init] at hc

theorem spawnLoop_inv {now : Int} {w : Worker} {db : St} {s : LoopSt} (hdb : Reachable step (init now) db)
    (h : spawnLoop w db = some s) : LoopInv w s := by
  obtain ⟨db', hs, rfl⟩ := Option.map_eq_some_iff.1 h
  simp only [step] at hs
  split at hs
  · cases hs
  next hn =>
  cases hs
  refine ⟨by simp, fun k => ?_⟩
  -- the id of the worker is new, so no claim is its
  have hno : ∀ c, (St.mine { db with workers := db.workers ++ [w] } w k) ≠ some c := by
    intro c hc
    obtain ⟨hc, rfl⟩ := mine_eq_some.1 hc
    have hm : c.worker ∈ db.workers := claims_spawned hdb k c hc
    exact hn (List.any_eq_true.2 ⟨c.worker, hm, beq_self_eq_true _⟩)
  simp [hno, LoopPhase.job]

/-! ## A call that is heard -/

/-- The signal is there, or the task has ended. -/
def LoopPhase.heard : LoopPhase → Bool
  | .waiting true _ | .stopped => true
  | _ => false

theorem heard_iff {phase : LoopPhase} :
    phase.heard = true ↔ (∃ wake, phase = .waiting true wake) ∨ phase = .stopped := by
  cases phase with
  | waiting shutdown wake => cases shutdown <;> simp [LoopPhase.heard]
  | claiming | processing _ | idle | stopped => simp [LoopPhase.heard]

theorem heard_notify {phase : LoopPhase} (b : Branch) (h : phase.heard = true) : (phase.notify b).heard = true := by
  rcases heard_iff.1 h with ⟨wake, rfl⟩ | rfl <;> rfl

theorem Honours.of_unsignalled {s : LoopSt} {a : LoopAction} {phase : LoopPhase} (hp : s.phase = phase)
    (h : phase.heard = false) : Honours s a := by
  subst hp
  unfold Honours
  split
  · next hp => rw [hp] at h; cases h
  · trivial

/-- From then on the loop only ends; the worker's claims stay as they are. -/
theorem heard_step {w : Worker} {s t : LoopSt} {a : LoopAction} (hp : s.phase.heard = true) (ha : Honours s a)
    (h : loopStep w s a = some t) : t.phase.heard = true ∧ t.db.mine w = s.db.mine w := by
  cases loopStep_inv h with
  | other ho hdb => exact ⟨hp, mine_other hdb ho⟩
  | noJob hph _ _ | claimed hph _ _ | unanswered hph _ _ _ | claimFailed hph | finish hph _ | writeFailed hph _
    | park hph | abort hph _ =>
    rw [hph] at hp
    cases hp
  | notifyWake | shutdown => exact ⟨heard_notify _ hp, rfl⟩
  | stop _ | die _ => exact ⟨rfl, rfl⟩
  | wake hph | sleep hph =>
    -- the signal is there, so `select!` has not taken this branch
    rcases heard_iff.1 hp with ⟨wake, hw⟩ | hw
    · simp [Honours, hw] at ha
    · rw [hw] at hph
      cases hph

theorem drained_of_mine {w : Worker} {s t : LoopSt} (h : t.db.mine w = s.db.mine w) : Drained w s t where
  noClaim k c hc hw := by
    have hm : s.db.mine w k = some c := by rw [← h]; exact mine_eq_some.2 ⟨hc, hw⟩
    exact (List.getElem?_eq_some_iff.1 (mine_eq_some.1 hm).1).1
  finished k c c' hc hc' hw hne := by
    have hm : t.db.mine w k = some c := by rw [h]; exact mine_eq_some.2 ⟨hc, hw⟩
    rw [(mine_eq_some.1 hm).1, Option.some.injEq] at hc'
    exact absurd (by rw [hc']) hne

/-! ## A call that is not -/

theorem exists_fresh (s : St) : ∃ id, s.row id = none := by
  obtain ⟨id, hid⟩ := Infinite.exists_notMem_finset (s.jobs.map JobRow.id).toFinset
  refine ⟨id, Table.get_eq_none_iff.2 fun r hr he => hid ?_⟩
  exact List.mem_toFinset.2 (List.mem_map.2 ⟨r, hr, he⟩)

/-- A job can be enqueued that is claimable at once. -/
theorem enqueue_enabled (s : St) (queue : String) : ∃ id r,
    step s (.enqueue id queue "" {}) = some { s with jobs := s.jobs ++ [r] } ∧ claimable s.now queue r = true := by
  obtain ⟨id, hid⟩ := exists_fresh s
  refine ⟨id, newRow s.now id queue "" {}, by simp [step, hid, enqueueInsert, conflicts], ?_⟩
  refine claimable_iff.2 ⟨rfl, .inl rfl, Int.le_refl _, ?_⟩
  show (0 : Int) < EnqueueOptions.storedMaxAttempts {}
  decide

/-- An idle worker gets a job when there is one. -/
theorem claim_enabled {s : St} {w : Worker} {r : JobRow} (hw : w ∈ s.workers) (hidle : s.idle w = true)
    (hr : r ∈ s.jobs) (hc : claimable s.now w.queue r = true) :
    ∃ db c, step s (.claim w []) = some db ∧ (claimOne s.now w.queue w.workerId [] s.jobs).1 = some c := by
  have hsel : selectNext s.now w.queue [] s.jobs ≠ none :=
    Table.first_ne_none (List.mem_filter.2 ⟨hr, by simp [hc]⟩)
  obtain ⟨r', hr'⟩ := Option.ne_none_iff_exists'.1 hsel
  have hone : claimOne s.now w.queue w.workerId [] s.jobs = (some (claimSet s.now w.workerId r').toClaimed,
      Table.update (·.id == r'.id) (claimSet s.now w.workerId) s.jobs) := by simp only [claimOne, hr']
  have hstep : ∃ db, step s (.claim w []) = some db := by
    simp only [step, hidle, List.contains_iff_mem.2 hw, Bool.and_self, if_true, hone]
    exact ⟨_, rfl⟩
  obtain ⟨db, hdb⟩ := hstep
  exact ⟨db, _, hdb, by rw [hone]⟩

theorem LoopInv.idle {w : Worker} {s : LoopSt} (hi : LoopInv w s) (hj : s.phase.job = none) : s.db.idle w = true := by
  refine List.all_eq_true.2 fun c hc => ?_
  obtain ⟨k, hk⟩ := List.getElem?_of_mem hc
  by_cases hw : c.worker = w
  · have hp : c.phase ≠ .handling := by
      intro hp
      have hjob := (hi.hand k).1 ⟨c, mine_eq_some.2 ⟨hk, hw⟩, hp⟩
      rw [hj] at hjob
      cases hjob
    simp [hp]
  · simp [hw]

/-- A loop about to claim gets the job that is enqueued just before. -/
theorem claims_another {w : Worker} {s : LoopSt} (hi : LoopInv w s) (hp : s.phase = .claiming) :
    ∃ as t c, run (loopStep w) s as = some t ∧ Along (loopStep w) Honours s as ∧
      t.db.claims[s.db.claims.length]? = some c ∧ c.worker = w := by
  obtain ⟨id, r, henq, hr⟩ := enqueue_enabled s.db w.queue
  have h₁ : loopStep w s (.other (.enqueue id w.queue "" {})) =
      some { s with db := { s.db with jobs := s.db.jobs ++ [r] } } := by
    simp only [loopStep, others, if_true, henq, Option.map_some]
  obtain ⟨db, c, hdb, hc⟩ := claim_enabled (s := { s.db with jobs := s.db.jobs ++ [r] }) hi.spawned
    (hi.idle (by rw [hp]; rfl)) (List.mem_append_right _ (List.mem_singleton_self _)) hr
  have hclaims := step_claim hdb
  rw [hc] at hclaims
  refine ⟨[.other (.enqueue id w.queue "" {}), .claim [] true],
    { s with db, phase := .processing s.db.claims.length }, ⟨w, c, s.db.now, .handling⟩, ?_, ?_, ?_, rfl⟩
  · refine run_cons_some.2 ⟨_, h₁, run_one.trans ?_⟩
    simp only [loopStep, hp, if_true, hdb, Option.bind_some, hc]
  · exact .cons (.of_unsignalled hp rfl) h₁ ⟨.of_unsignalled hp rfl, fun _ _ => trivial⟩
  · simp [hclaims]

/-- A loop that is not listening comes to claim again. -/
theorem reaches_claiming {w : Worker} {s : LoopSt} (hi : LoopInv w s) (hp : s.phase.listens = false) :
    ∃ as t, run (loopStep w) s as = some t ∧ Along (loopStep w) Honours s as ∧ t.phase = .claiming ∧
      t.db.claims.length = s.db.claims.length := by
  cases hph : s.phase with
  | claiming => exact ⟨[], s, rfl, trivial, hph, rfl⟩
  | processing k =>
    obtain ⟨c, hc, hh⟩ := (hi.hand k).2 (by rw [hph]; rfl)
    have hk : s.db.handling k = some c := handling_eq_some.2 ⟨(mine_eq_some.1 hc).1, hh⟩
    have hs : loopStep w s .writeFailed =
        some { s with
          db := { s.db with claims := s.db.claims.modify k (Claim.settle .lost) }, phase := .claiming } := by
      simp only [loopStep, hph, step, hk, Option.map_some]
    exact ⟨[.writeFailed], _, run_one.trans hs, ⟨.of_unsignalled hph rfl, fun _ _ => trivial⟩, rfl, by simp⟩
  | idle =>
    have h₁ : loopStep w s .park = some { s with phase := .waiting false false } := by
      simp only [loopStep, hph, if_true]
    exact ⟨[.park, .resume .sleep], { s with phase := .claiming }, run_cons_some.2 ⟨_, h₁, rfl⟩,
      .cons (.of_unsignalled hph rfl) h₁ ⟨.of_unsignalled rfl rfl, fun _ _ => trivial⟩, rfl, rfl⟩
  | waiting _ _ | stopped => rw [hph] at hp; cases hp

theorem notify_deaf {phase : LoopPhase} (b : Branch) (h : phase.listens = false) : phase.notify b = phase := by
  cases phase with
  | waiting _ _ => cases h
  | claiming | processing _ | idle | stopped => rfl

/-! ## The result -/

/-- **A shutdown drains the worker exactly when its loop is listening.** For
every supply of jobs and every interleaving from the call on in which a
`select!` that has the signal takes it, the worker claims nothing more and
ends at most the job it was processing, if and only if `shutdown` is called
while the loop is in its `select!` or after its task has ended. -/
theorem shutdown_drains_iff {now : Int} {w : Worker} {db : St} {s₀ s : LoopSt} (hdb : Reachable step (init now) db)
    (h₀ : spawnLoop w db = some s₀) (hs : Reachable (loopStep w) s₀ s) (hh : s.handle = true) :
    (∀ as t, run (loopStep w) s (.shutdown :: as) = some t →
        Along (loopStep w) Honours s (.shutdown :: as) → Drained w s t) ↔ s.phase.listens = true := by
  have hi : LoopInv w s := hs.invariant loopStep_keeps_inv (spawnLoop_inv hdb h₀)
  have hcall : loopStep w s .shutdown = some { s with phase := s.phase.notify .shutdown, handle := false } := by
    simp only [loopStep, hh, if_true]
  constructor
  · intro h
    by_contra hl
    have hdeaf : s.phase.listens = false := by simpa using hl
    rw [notify_deaf _ hdeaf] at hcall
    -- the loop goes on as if nothing had been said, and claims
    have hi' : LoopInv w { s with handle := false } := ⟨hi.spawned, hi.hand⟩
    obtain ⟨as, t, hrun, halong, hp, hlen⟩ := reaches_claiming hi' hdeaf
    obtain ⟨bs, u, c, hrun', halong', hc, hw⟩ :=
      claims_another (invariant_run loopStep_keeps_inv hrun hi') hp
    have hunsig : s.phase.heard = false := by
      cases hph : s.phase with
      | waiting _ _ | stopped => rw [hph] at hdeaf; cases hdeaf
      | claiming | processing _ | idle => rfl
    have hd := h (as ++ bs) u (run_cons_some.2 ⟨_, hcall, run_append_some.2 ⟨t, hrun, hrun'⟩⟩)
      (.cons (.of_unsignalled rfl hunsig) hcall (halong.join hrun halong'))
    have hlt := hd.noClaim _ c hc hw
    rw [hlen] at hlt
    exact Nat.lt_irrefl _ hlt
  · intro hl as t hrun halong
    obtain ⟨s₁, hs₁, hrun⟩ := run_cons_some.1 hrun
    have halong₁ := halong.2 s₁ hs₁
    rw [hcall, Option.some.injEq] at hs₁
    subst hs₁
    have hheard : (s.phase.notify .shutdown).heard = true := by
      cases hph : s.phase with
      | waiting shutdown wake => cases shutdown <;> rfl
      | stopped => rfl
      | claiming | processing _ | idle => rw [hph] at hl; cases hl
    have hend := invariant_along (I := fun t : LoopSt => t.phase.heard = true ∧ t.db.mine w = s.db.mine w)
      (fun hi ha hs => ⟨(heard_step hi.1 ha hs).1, (heard_step hi.1 ha hs).2.trans hi.2⟩) halong₁ hrun ⟨hheard, rfl⟩
    exact drained_of_mine hend.2

/-! ## The lost signal -/

/-- Two jobs are there when the worker starts. -/
def twoJobs : St := { jobs := [newRow 0 1 "mail" "{}" { }, newRow 0 2 "mail" "{}" { }] }

/-- A loop just spawned. -/
def started (w : Worker) (db : St) : LoopSt :=
  { db := { db with workers := db.workers ++ [w] }, phase := .claiming, handle := true }

/-- `shutdown` is called while the handler of the first runs. The handler
ends, and the loop claims the second. -/
theorem shutdown_unheard : ¬ ∀ now w db s₀ s as t, Reachable step (init now) db → spawnLoop w db = some s₀ →
    Reachable (loopStep w) s₀ s → run (loopStep w) s (.shutdown :: as) = some t → Drained w s t := by
  intro h
  have hdb : Reachable step (init 0) twoJobs := ⟨[.enqueue 1 "mail" "{}" { }, .enqueue 2 "mail" "{}" { }], rfl⟩
  have hs : run (loopStep (mailWorker "a")) (started (mailWorker "a") twoJobs) [.claim [] true] = some _ := rfl
  have hd := h 0 (mailWorker "a") twoJobs _ _ [.finish .ok, .claim [] true] _ hdb rfl ⟨_, hs⟩ rfl
  exact absurd (hd.noClaim 1 _ rfl rfl) (by decide)

/-- The loop has found the queue empty and waits. -/
def waitingLoop : LoopSt := { started (mailWorker "a") (init 0) with phase := .waiting false false }

/-- A job that comes after the call stays where it is. -/
theorem shutdown_drains_waiting : ∃ t, run (loopStep (mailWorker "a")) waitingLoop
      [.shutdown, .other (.enqueue 1 "mail" "{}" { }), .notifyWake, .resume .shutdown] = some t ∧
    t.phase = .stopped ∧ Drained (mailWorker "a") waitingLoop t := by
  have h₀ : spawnLoop (mailWorker "a") (init 0) = some (started (mailWorker "a") (init 0)) := rfl
  have hs : run (loopStep (mailWorker "a")) (started (mailWorker "a") (init 0)) [.claim [] true, .park] =
      some waitingLoop := rfl
  have hr : run (loopStep (mailWorker "a")) waitingLoop
      [.shutdown, .other (.enqueue 1 "mail" "{}" { }), .notifyWake, .resume .shutdown] = some _ := rfl
  refine ⟨_, hr, rfl, (shutdown_drains_iff .refl h₀ ⟨_, hs⟩ rfl).2 rfl _ _ hr ?_⟩
  exact .cons trivial rfl (.cons trivial rfl (.cons trivial rfl (.cons rfl rfl trivial)))

end FerrKit.Queue
