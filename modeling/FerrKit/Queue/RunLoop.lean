/-
One worker's `run_loop` over the queue model, with its two `Notify`s.

`notify_waiters` reaches a `notified()` future that is there and stores
nothing, so what a signal does depends on where the loop is. The loop
claims, processes, and only when a claim came back empty does it enter its
`select!`; a signal at any other place is gone. In the `select!` a signal
makes a branch ready, and when the task next runs one of the ready branches
is taken, whichever tokio picks.

The statements the loop runs are steps of the queue model; all that is not
this loop's (producers, other workers, sweepers, its own included) goes on
in between. `poll_interval` is left out: the sleep may end at any time.
-/
import FerrKit.Queue.Facts

namespace FerrKit.Queue

open Runs

/-! ## The model -/

/-- The branches of the `select!`. -/
inductive Branch
  | shutdown | wake | sleep
  deriving DecidableEq, Repr

/-- Where `run_loop` is. -/
inductive LoopPhase
  /-- Before the statement of `claim_one`. -/
  | claiming
  /-- In `process_claimed`, with the claim of this number. -/
  | processing (k : Nat)
  /-- `claim_one` has returned `None`, the `select!` is not entered yet. -/
  | idle
  /-- In the `select!`, with the signals that have come since. -/
  | waiting (shutdown wake : Bool)
  /-- The task has ended. -/
  | stopped
  deriving DecidableEq, Repr

structure LoopSt where
  db : St
  phase : LoopPhase
  /-- `shutdown` has not taken the handle yet. -/
  handle : Bool

inductive LoopAction
  /-- A statement that is not this loop's. -/
  | other (a : Action)
  /-- The statement of `claim_one`; when its answer is lost on the way
  `claim_one` returns `None` all the same. -/
  | claim (locked : List Uuid) (answered : Bool)
  /-- `claim_one` fails without having run its statement. -/
  | claimFailed
  | finish (h : Handled)
  /-- The completion write fails; `mark_*` logs it and returns. -/
  | writeFailed
  | park
  /-- `wake.notify_waiters()`, by the listener. -/
  | notifyWake
  /-- The task runs and takes a ready branch. -/
  | resume (b : Branch)
  /-- The task panics or is aborted. -/
  | die
  | shutdown

/-- `notify_waiters` on one of the two. -/
def LoopPhase.notify (b : Branch) : LoopPhase → LoopPhase
  | .waiting shutdown wake => .waiting (shutdown || b == .shutdown) (wake || b == .wake)
  | phase => phase

/-- The statements of everyone else: another worker claims, or ends a claim
of its own. -/
def others (w : Worker) (db : St) : Action → Bool
  | .claim w' _ => w' != w
  | .complete k _ | .lose k => db.claims[k]?.all (·.worker != w)
  | .tick _ | .spawn _ | .enqueue _ _ _ _ | .cancel _ _ | .sweep _ => true

def loopStep (w : Worker) (s : LoopSt) : LoopAction → Option LoopSt
  | .other a => if others w s.db a then (step s.db a).map fun db => { s with db } else none
  | .claim locked answered =>
    if s.phase = .claiming then
      (step s.db (.claim w locked)).bind fun db =>
        let k := s.db.claims.length
        match (claimOne s.db.now w.queue w.workerId locked s.db.jobs).1 with
        | none => some { s with db, phase := .idle }
        | some _ =>
          if answered then some { s with db, phase := .processing k }
          else (step db (.lose k)).map fun db => { s with db, phase := .idle }
    else none
  | .claimFailed => if s.phase = .claiming then some { s with phase := .idle } else none
  | .finish h =>
    match s.phase with
    | .processing k => (step s.db (.complete k h)).map fun db => { s with db, phase := .claiming }
    | _ => none
  | .writeFailed =>
    match s.phase with
    | .processing k => (step s.db (.lose k)).map fun db => { s with db, phase := .claiming }
    | _ => none
  | .park => if s.phase = .idle then some { s with phase := .waiting false false } else none
  | .notifyWake => some { s with phase := s.phase.notify .wake }
  | .resume b =>
    match s.phase, b with
    | .waiting true _, .shutdown => some { s with phase := .stopped }
    | .waiting _ true, .wake | .waiting _ _, .sleep => some { s with phase := .claiming }
    | _, _ => none
  | .die =>
    match s.phase with
    | .processing k => (step s.db (.lose k)).map fun db => { s with db, phase := .stopped }
    | _ => some { s with phase := .stopped }
  | .shutdown => if s.handle then some { s with phase := s.phase.notify .shutdown, handle := false } else none

/-- `spawn_worker_loop`. -/
def spawnLoop (w : Worker) (db : St) : Option LoopSt :=
  (step db (.spawn w)).map fun db => { db, phase := .claiming, handle := true }

/-! ## The worker's claims -/

/-- The claim of this number, when it is the worker's. -/
def St.mine (s : St) (w : Worker) (k : Nat) : Option Claim := s.claims[k]?.filter (·.worker == w)

theorem mine_eq_some {s : St} {w : Worker} {k : Nat} {c : Claim} :
    s.mine w k = some c ↔ s.claims[k]? = some c ∧ c.worker = w := by
  simp [St.mine, Option.filter_eq_some_iff]

theorem mine_append {s s' : St} {w : Worker} {c : Claim} (h : s'.claims = s.claims ++ [c]) (k : Nat) :
    s'.mine w k = if k = s.claims.length ∧ c.worker = w then some c else s.mine w k := by
  rw [St.mine, St.mine, h]
  rcases Nat.lt_trichotomy k s.claims.length with hlt | rfl | hgt
  · rw [List.getElem?_append_left hlt, if_neg (by omega)]
  · by_cases hw : c.worker = w <;> simp [hw]
  · rw [if_neg (by omega), List.getElem?_eq_none (by simp; omega), List.getElem?_eq_none (by omega)]

theorem mine_settle {s s' : St} {w : Worker} {k : Nat} {p : Phase} (h : s'.claims = s.claims.modify k (Claim.settle p))
    (j : Nat) : s'.mine w j = if k = j then (s.mine w j).map (Claim.settle p) else s.mine w j := by
  rw [St.mine, St.mine, h, List.getElem?_modify]
  cases s.claims[j]? with
  | none => split <;> rfl
  | some c => by_cases hk : k = j <;> by_cases hw : c.worker = w <;> simp [hk, hw, Claim.settle, Option.filter]

/-- Nobody else touches them. -/
theorem mine_other {s s' : St} {w : Worker} {a : Action} (h : step s a = some s') (ho : others w s a = true) :
    s'.mine w = s.mine w := by
  funext j
  cases step_inv h with
  | tick | spawn | enqueue _ | duplicate | cancel | noJob | noSweep | sweep _ _ => rfl
  | claim _ _ _ =>
    rw [mine_append rfl, if_neg]
    rintro ⟨-, hw⟩
    simp only [others, bne_iff_ne] at ho
    exact ho hw
  | complete hk _ | lose hk _ =>
    rw [mine_settle rfl]
    split
    · next hkj =>
      simp only [others, hk, Option.all_some, bne_iff_ne] at ho
      have hnone : s.mine w j = none := by simp [St.mine, ← hkj, hk, Option.filter, ho]
      rw [hnone]
      rfl
    · rfl

/-! ## What the loop has in hand -/

/-- The claim the loop is processing. -/
def LoopPhase.job : LoopPhase → Option Nat
  | .processing k => some k
  | .claiming | .idle | .waiting _ _ | .stopped => none

theorem notify_job (b : Branch) (phase : LoopPhase) : (phase.notify b).job = phase.job := by cases phase <;> rfl

/-- What a step of the loop can do. -/
inductive LoopStepR (w : Worker) (s : LoopSt) : LoopAction → LoopSt → Prop
  | other {a : Action} {db : St} (ho : others w s.db a = true) (hdb : step s.db a = some db) :
      LoopStepR w s (.other a) { s with db }
  | noJob {locked : List Uuid} {answered : Bool} {db : St} (hp : s.phase = .claiming)
      (hdb : step s.db (.claim w locked) = some db)
      (hnone : (claimOne s.db.now w.queue w.workerId locked s.db.jobs).1 = none) :
      LoopStepR w s (.claim locked answered) { s with db, phase := .idle }
  | claimed {locked : List Uuid} {db : St} {c : Claimed} (hp : s.phase = .claiming)
      (hdb : step s.db (.claim w locked) = some db)
      (hsome : (claimOne s.db.now w.queue w.workerId locked s.db.jobs).1 = some c) :
      LoopStepR w s (.claim locked true) { s with db, phase := .processing s.db.claims.length }
  | unanswered {locked : List Uuid} {db db' : St} {c : Claimed} (hp : s.phase = .claiming)
      (hdb : step s.db (.claim w locked) = some db)
      (hsome : (claimOne s.db.now w.queue w.workerId locked s.db.jobs).1 = some c)
      (hlost : step db (.lose s.db.claims.length) = some db') :
      LoopStepR w s (.claim locked false) { s with db := db', phase := .idle }
  | claimFailed (hp : s.phase = .claiming) : LoopStepR w s .claimFailed { s with phase := .idle }
  | finish {k : Nat} {hd : Handled} {db : St} (hp : s.phase = .processing k)
      (hdb : step s.db (.complete k hd) = some db) : LoopStepR w s (.finish hd) { s with db, phase := .claiming }
  | writeFailed {k : Nat} {db : St} (hp : s.phase = .processing k) (hdb : step s.db (.lose k) = some db) :
      LoopStepR w s .writeFailed { s with db, phase := .claiming }
  | park (hp : s.phase = .idle) : LoopStepR w s .park { s with phase := .waiting false false }
  | notifyWake : LoopStepR w s .notifyWake { s with phase := s.phase.notify .wake }
  | stop {wake : Bool} (hp : s.phase = .waiting true wake) :
      LoopStepR w s (.resume .shutdown) { s with phase := .stopped }
  | wake {shutdown : Bool} (hp : s.phase = .waiting shutdown true) :
      LoopStepR w s (.resume .wake) { s with phase := .claiming }
  | sleep {shutdown wake : Bool} (hp : s.phase = .waiting shutdown wake) :
      LoopStepR w s (.resume .sleep) { s with phase := .claiming }
  | abort {k : Nat} {db : St} (hp : s.phase = .processing k) (hdb : step s.db (.lose k) = some db) :
      LoopStepR w s .die { s with db, phase := .stopped }
  | die (hp : s.phase.job = none) : LoopStepR w s .die { s with phase := .stopped }
  | shutdown (hh : s.handle = true) :
      LoopStepR w s .shutdown { s with phase := s.phase.notify .shutdown, handle := false }

theorem loopStep_inv {w : Worker} {s t : LoopSt} {a : LoopAction} (h : loopStep w s a = some t) :
    LoopStepR w s a t := by
  cases a with
  | other a =>
    simp only [loopStep] at h
    split at h
    · next ho =>
      obtain ⟨db, hdb, rfl⟩ := Option.map_eq_some_iff.1 h
      exact .other ho hdb
    · cases h
  | claim locked answered =>
    simp only [loopStep] at h
    split at h
    · next hp =>
      obtain ⟨db, hdb, h⟩ := Option.bind_eq_some_iff.1 h
      split at h
      · next hnone => cases h; exact .noJob hp hdb hnone
      · next c hsome =>
        cases answered with
        | true => cases h; exact .claimed hp hdb hsome
        | false =>
          obtain ⟨db', hlost, rfl⟩ := Option.map_eq_some_iff.1 h
          exact .unanswered hp hdb hsome hlost
    · cases h
  | claimFailed =>
    simp only [loopStep] at h
    split at h
    · next hp => cases h; exact .claimFailed hp
    · cases h
  | finish hd =>
    simp only [loopStep] at h
    split at h
    · next k hp =>
      obtain ⟨db, hdb, rfl⟩ := Option.map_eq_some_iff.1 h
      exact .finish hp hdb
    · cases h
  | writeFailed =>
    simp only [loopStep] at h
    split at h
    · next k hp =>
      obtain ⟨db, hdb, rfl⟩ := Option.map_eq_some_iff.1 h
      exact .writeFailed hp hdb
    · cases h
  | park =>
    simp only [loopStep] at h
    split at h
    · next hp => cases h; exact .park hp
    · cases h
  | notifyWake =>
    cases h
    exact .notifyWake
  | resume b =>
    simp only [loopStep] at h
    split at h
    · next hp => cases h; exact .stop hp
    · next hp => cases h; exact .wake hp
    · next hp => cases h; exact .sleep hp
    · cases h
  | die =>
    simp only [loopStep] at h
    split at h
    · next k hp =>
      obtain ⟨db, hdb, rfl⟩ := Option.map_eq_some_iff.1 h
      exact .abort hp hdb
    · next hp =>
      cases h
      refine .die ?_
      cases hph : s.phase with
      | processing k => exact absurd hph (hp k)
      | claiming | idle | waiting _ _ | stopped => rfl
  | shutdown =>
    simp only [loopStep] at h
    split at h
    · next hh => cases h; exact .shutdown hh
    · cases h

/-- The worker's claims that are being handled are the one its loop is
processing. -/
structure LoopInv (w : Worker) (s : LoopSt) : Prop where
  spawned : w ∈ s.db.workers
  hand : ∀ k, (∃ c, s.db.mine w k = some c ∧ c.phase = .handling) ↔ s.phase.job = some k

theorem workers_next {s s' : St} {a : Action} {w : Worker} (h : step s a = some s') (hw : w ∈ s.workers) :
    w ∈ s'.workers := by
  cases step_inv h with
  | spawn => exact List.mem_append_left _ hw
  | tick | enqueue _ | duplicate | cancel | noJob | claim _ _ _ | complete _ _ | lose _ _ | noSweep | sweep _ _ =>
    exact hw

/-- What `claim_one` returns is what the ledger gains. -/
theorem step_claim {s db : St} {w : Worker} {locked : List Uuid} (h : step s (.claim w locked) = some db) :
    match (claimOne s.now w.queue w.workerId locked s.jobs).1 with
    | none => db = s
    | some c => db.claims = s.claims ++ [⟨w, c, s.now, .handling⟩] := by
  simp only [step] at h
  split at h
  · split at h
    · next hc => cases h; rw [hc]
    · next hc => cases h; rw [hc]
  · cases h

theorem LoopInv.same {w : Worker} {s t : LoopSt} (hi : LoopInv w s) (hw : w ∈ t.db.workers)
    (hm : t.db.mine w = s.db.mine w) (hj : t.phase.job = s.phase.job) : LoopInv w t :=
  ⟨hw, fun k => by rw [hm, hj]; exact hi.hand k⟩

theorem LoopInv.claimed {w : Worker} {s : LoopSt} {db : St} {c : Claimed} {locked : List Uuid} (hi : LoopInv w s)
    (hj : s.phase.job = none) (hs : step s.db (.claim w locked) = some db)
    (hc : db.claims = s.db.claims ++ [⟨w, c, s.db.now, .handling⟩]) :
    LoopInv w { s with db, phase := .processing s.db.claims.length } := by
  refine ⟨workers_next hs hi.spawned, fun k => ?_⟩
  rw [mine_append hc]
  by_cases hk : k = s.db.claims.length
  · simp [hk, LoopPhase.job]
  · rw [if_neg (fun h => hk h.1), hi.hand k, hj]
    simp [LoopPhase.job, Ne.symm hk]

theorem LoopInv.settled {w : Worker} {s : LoopSt} {db : St} {a : Action} {k : Nat} {p : Phase} {phase : LoopPhase}
    (hi : LoopInv w s) (hj : s.phase.job = some k) (hs : step s.db a = some db)
    (hc : db.claims = s.db.claims.modify k (Claim.settle p)) (hp : p ≠ .handling) (hphase : phase.job = none) :
    LoopInv w { s with db, phase } := by
  refine ⟨workers_next hs hi.spawned, fun j => ?_⟩
  rw [mine_settle hc]
  show _ ↔ phase.job = some j
  rw [hphase]
  by_cases hk : k = j
  · simp [hk, Claim.settle, hp]
  · rw [if_neg hk, hi.hand j, hj]
    simp [hk]

theorem LoopInv.completed {w : Worker} {s : LoopSt} {db : St} {k : Nat} {hd : Handled} {phase : LoopPhase}
    (hi : LoopInv w s) (hp : s.phase = .processing k) (hs : step s.db (.complete k hd) = some db)
    (hphase : phase.job = none) : LoopInv w { s with db, phase } := by
  have hc : db.claims = s.db.claims.modify k (Claim.settle .completed) := by
    cases step_inv hs with
    | complete _ _ => rfl
  exact hi.settled (by rw [hp]; rfl) hs hc (by decide) hphase

theorem LoopInv.lost {w : Worker} {s : LoopSt} {db : St} {k : Nat} {phase : LoopPhase} (hi : LoopInv w s)
    (hp : s.phase = .processing k) (hs : step s.db (.lose k) = some db) (hphase : phase.job = none) :
    LoopInv w { s with db, phase } := by
  have hc : db.claims = s.db.claims.modify k (Claim.settle .lost) := by
    cases step_inv hs with
    | lose _ _ => rfl
  exact hi.settled (by rw [hp]; rfl) hs hc (by decide) hphase

theorem loopStep_keeps_inv {w : Worker} {s t : LoopSt} {a : LoopAction} (hi : LoopInv w s)
    (h : loopStep w s a = some t) : LoopInv w t := by
  cases loopStep_inv h with
  | other ho hdb => exact hi.same (workers_next hdb hi.spawned) (mine_other hdb ho) rfl
  | noJob hp hdb hnone =>
    have hsame := step_claim hdb
    rw [hnone] at hsame
    subst hsame
    exact hi.same hi.spawned rfl (by rw [hp]; rfl)
  | claimed hp hdb hsome =>
    have hclaims := step_claim hdb
    rw [hsome] at hclaims
    exact hi.claimed (by rw [hp]; rfl) hdb hclaims
  | unanswered hp hdb hsome hlost =>
    have hclaims := step_claim hdb
    rw [hsome] at hclaims
    -- the claim is in the ledger, and nobody has it
    have hclaimed := hi.claimed (by rw [hp]; rfl) hdb hclaims
    exact hclaimed.lost rfl hlost rfl
  | claimFailed hp | park hp | stop hp | wake hp | sleep hp => exact hi.same hi.spawned rfl (by rw [hp]; rfl)
  | finish hp hdb => exact hi.completed hp hdb rfl
  | writeFailed hp hdb | abort hp hdb => exact hi.lost hp hdb rfl
  | notifyWake | shutdown => exact hi.same hi.spawned rfl (notify_job _ _)
  | die hp => exact hi.same hi.spawned rfl hp.symm

end FerrKit.Queue
