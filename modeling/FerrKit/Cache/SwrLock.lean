/-
The single-flight lock of the cache (`crates/cache/src/swr.rs`): callers of
`get_or_load` that miss and background refreshes, all on one key.

Both take the lock with `SET lock "1" NX PX lock_ttl`, run the loader for as
long as it takes, and release with `DEL lock`. The value does not say whose
lock it is, so a caller whose lock has expired meanwhile frees the lock of
the next one. With loaders that end in time, and a `lock_ttl` that `PX` can
express, the lock does what it is for.

One Valkey command is one step. A command may run without its answer
arriving, or fail without running; the caller of `SET` then takes it that it
has lost, the caller of `DEL` goes on. `owner` is not in Valkey: it is kept
to say whose `SET` put the lock there. A caller may stop at any point and
never send its `DEL`. Left out: the cached value, and what callers without
the lock do; one call with all of that is in `FerrKit.Cache.GetOrLoad`.
-/
import FerrKit.Lib.Duration
import FerrKit.Lib.Runs
import FerrKit.Lib.Table

namespace FerrKit.Cache

open Runs

/-- `lock_ttl.as_millis() as i64`. -/
def lockPx (lockTtl : Duration) : Int := (lockTtl.asMillis : Int).bmod (2 ^ 64)

structure Lock where
  owner : Nat
  expiresAt : Int
  deriving DecidableEq

inductive Phase
  /-- About to send `SET NX`. -/
  | trying
  /-- Has the lock, as far as it knows, and runs the loader. -/
  | loading (wonAt : Int)
  /-- Has sent its `DEL`. -/
  | released
  | lost
  deriving DecidableEq

structure Caller where
  lockTtl : Duration
  phase : Phase
  deriving DecidableEq

/-- Time in nanoseconds. -/
structure St where
  now : Int
  lock : Option Lock
  callers : List Caller
  deriving DecidableEq

def init (now : Int) : St := ⟨now, none, []⟩

inductive Action
  | tick (d : Nat)
  /-- A `get_or_load` that misses, or a background refresh. -/
  | start (lockTtl : Duration)
  | setNx (i : Nat) (acked : Bool)
  | expire
  | del (i : Nat) (ran : Bool)

def St.goto (s : St) (i : Nat) (c : Caller) (phase : Phase) : St :=
  { s with callers := s.callers.set i { c with phase } }

def step (s : St) : Action → Option St
  | .tick d => some { s with now := s.now + d }
  | .start lockTtl => some { s with callers := s.callers ++ [⟨lockTtl, .trying⟩] }
  | .setNx i acked => do
    let c ← s.callers[i]?
    match c.phase, s.lock with
    | .trying, none =>
      -- Valkey refuses an expiry that is not positive
      if lockPx c.lockTtl ≤ 0 then some (s.goto i c .lost)
      else some { s.goto i c (if acked then .loading s.now else .lost) with
        lock := some ⟨i, s.now + lockPx c.lockTtl * nanosPerMilli⟩ }
    | .trying, some _ => some (s.goto i c .lost)
    | _, _ => none
  | .expire =>
    match s.lock with
    | some lock => if lock.expiresAt ≤ s.now then some { s with lock := none } else none
    | none => none
  | .del i ran => do
    let c ← s.callers[i]?
    match c.phase with
    | .loading _ => some { s.goto i c .released with lock := if ran then none else s.lock }
    | _ => none

/-! ## What the lock is for -/

/-- The caller has won the lock, has not sent its `DEL`, and its `lock_ttl`
has not elapsed. -/
def Caller.holds (now : Int) (c : Caller) : Bool :=
  match c.phase with
  | .loading wonAt => now < wonAt + c.lockTtl.asNanos
  | _ => false

def St.Holds (s : St) (i : Nat) : Prop := (s.callers[i]?.any (Caller.holds s.now)) = true

instance (s : St) (i : Nat) : Decidable (s.Holds i) :=
  inferInstanceAs (Decidable ((s.callers[i]?.any (Caller.holds s.now)) = true))

theorem holds_iff {s : St} {i : Nat} : s.Holds i ↔
    ∃ c wonAt, s.callers[i]? = some c ∧ c.phase = .loading wonAt ∧ s.now < wonAt + c.lockTtl.asNanos := by
  simp only [St.Holds, Option.any_eq_true]
  refine exists_congr fun c => ⟨fun ⟨hc, hh⟩ => ?_, fun ⟨wonAt, hc, hp, hlt⟩ => ⟨hc, ?_⟩⟩
  · unfold Caller.holds at hh
    split at hh
    · next wonAt hp => exact ⟨wonAt, hc, hp, by simpa using hh⟩
    · cases hh
  · simp [Caller.holds, hp, hlt]

/-- A step that takes the lock finds no other holder; a step that frees it by
`DEL` frees the caller's own. -/
structure SingleFlight (s : St) (a : Action) (s' : St) : Prop where
  exclusive : ∀ i acked, a = .setNx i acked → s'.lock ≠ s.lock → ∀ j, j ≠ i → ¬ s.Holds j
  release : ∀ i ran lock, a = .del i ran → s.lock = some lock → s'.lock ≠ s.lock → lock.owner = i

/-- A `lock_ttl` of whole milliseconds that fit an `i64`, and no `DEL` after it
has elapsed, unless the lock is gone. -/
def Prompt (s : St) : Action → Prop
  | .start lockTtl => lockTtl.nanos % nanosPerMilli = 0 ∧ lockTtl.asMillis < 2 ^ 63
  | .del i _ => s.Holds i ∨ s.lock = none
  | _ => True

instance (s : St) (a : Action) : Decidable (Prompt s a) :=
  match a with
  | .start lockTtl =>
    inferInstanceAs (Decidable (lockTtl.nanos % nanosPerMilli = 0 ∧ lockTtl.asMillis < 2 ^ 63))
  | .del i _ => inferInstanceAs (Decidable (s.Holds i ∨ s.lock = none))
  | .tick _ | .setNx .. | .expire => isTrue trivial

theorem lockPx_eq {d : Duration} (hw : d.nanos % nanosPerMilli = 0) (hlt : d.asMillis < 2 ^ 63) :
    lockPx d * nanosPerMilli = d.asNanos := by
  have hpx : lockPx d = d.asMillis := by
    unfold lockPx
    rw [Int.bmod_eq_of_le] <;> omega
  rw [hpx, ← Int.natCast_mul, Duration.asNanos_of_whole_millis hw]

/-- A holder's lock is in Valkey, its own, and outlasts its window. -/
structure LockInv (s : St) : Prop where
  ttl : ∀ c ∈ s.callers, c.lockTtl.nanos % nanosPerMilli = 0 ∧ c.lockTtl.asMillis < 2 ^ 63
  held : ∀ (i : Nat) (c : Caller) (wonAt : Int), s.callers[i]? = some c → c.phase = .loading wonAt →
    s.now < wonAt + c.lockTtl.asNanos →
    ∃ lock, s.lock = some lock ∧ lock.owner = i ∧ wonAt + c.lockTtl.asNanos ≤ lock.expiresAt

theorem lockInv_init (now : Int) : LockInv (init now) where
  ttl := by simp [init]
  held := by
    intro i c wonAt hc
    simp [init] at hc

theorem LockInv.owner {s : St} (hi : LockInv s) {i : Nat} (h : s.Holds i) :
    ∃ lock, s.lock = some lock ∧ lock.owner = i := by
  obtain ⟨c, wonAt, hc, hp, hlt⟩ := holds_iff.1 h
  obtain ⟨lock, hl, ho, -⟩ := hi.held i c wonAt hc hp hlt
  exact ⟨lock, hl, ho⟩

theorem LockInv.not_holds {s : St} (hi : LockInv s) (hl : s.lock = none) (i : Nat) : ¬ s.Holds i := by
  intro h
  obtain ⟨lock, hlock, -⟩ := hi.owner h
  rw [hl] at hlock
  cases hlock

theorem goto_ttl {s : St} {i : Nat} {c : Caller} {phase : Phase} (hi : LockInv s) (hc : s.callers[i]? = some c) :
    ∀ c' ∈ (s.goto i c phase).callers, c'.lockTtl.nanos % nanosPerMilli = 0 ∧ c'.lockTtl.asMillis < 2 ^ 63 := by
  intro c' hc'
  rcases List.mem_or_eq_of_mem_set hc' with hold | rfl
  · exact hi.ttl c' hold
  · exact hi.ttl c (List.mem_of_getElem? hc)

/-- A caller that does not win, or lets go, with the lock untouched. -/
theorem LockInv.goto {s : St} {i : Nat} {c : Caller} {phase : Phase} (hi : LockInv s) (hc : s.callers[i]? = some c)
    (hp : ∀ wonAt, phase ≠ .loading wonAt) : LockInv (s.goto i c phase) where
  ttl := goto_ttl hi hc
  held j d wonAt hd hd' hlt := by
    rcases Table.getElem?_set_inv hc hd with ⟨-, rfl⟩ | ⟨-, hold⟩
    · exact absurd hd' (hp wonAt)
    · exact hi.held j d wonAt hold hd' hlt

/-- `SET NX` on a free lock: nobody holds it, and the new lock lasts for the
caller's `lock_ttl`. -/
theorem LockInv.acquire {s : St} {i : Nat} {c : Caller} (hi : LockInv s) (hc : s.callers[i]? = some c)
    (hl : s.lock = none) (acked : Bool) :
    LockInv { s.goto i c (if acked then .loading s.now else .lost) with
      lock := some ⟨i, s.now + lockPx c.lockTtl * nanosPerMilli⟩ } where
  ttl := goto_ttl hi hc
  held j d wonAt hd hd' hlt := by
    rcases Table.getElem?_set_inv hc hd with ⟨rfl, rfl⟩ | ⟨-, hold⟩
    · obtain ⟨hw, hms⟩ := hi.ttl c (List.mem_of_getElem? hc)
      refine ⟨_, rfl, rfl, ?_⟩
      cases acked with
      | false => simp at hd'
      | true =>
        simp only [if_true, Phase.loading.injEq] at hd'
        rw [lockPx_eq hw hms, hd']
    · exact absurd (holds_iff.2 ⟨d, wonAt, hold, hd', hlt⟩) (hi.not_holds hl j)

/-- The lock goes: then nobody else may still hold it. -/
theorem LockInv.free {s : St} (hi : LockInv s) (h : ∀ j, ¬ s.Holds j) : LockInv { s with lock := none } where
  ttl := hi.ttl
  held j d wonAt hd hd' hlt := absurd (holds_iff.2 ⟨d, wonAt, hd, hd', hlt⟩) (h j)

theorem step_lockInv {s s' : St} {a : Action} (hi : LockInv s) (hp : Prompt s a) (h : step s a = some s') :
    LockInv s' := by
  cases a with
  | tick d =>
    cases h
    refine ⟨hi.ttl, fun i c wonAt hc hph hlt => hi.held i c wonAt hc hph ?_⟩
    simp only at hlt
    omega
  | start lockTtl =>
    cases h
    refine ⟨fun c hc => ?_, fun i c wonAt hc hph hlt => ?_⟩
    · rcases List.mem_append.1 hc with hold | hnew
      · exact hi.ttl c hold
      · rw [List.mem_singleton.1 hnew]
        exact hp
    · rcases Table.getElem?_append_inv hc with hold | ⟨-, rfl⟩
      · exact hi.held i c wonAt hold hph hlt
      · cases hph
  | setNx i acked =>
    simp only [step, Option.bind_eq_bind, Option.bind_eq_some_iff] at h
    obtain ⟨c, hc, h⟩ := h
    split at h
    · next hl =>
      split at h
      · cases h
        exact hi.goto hc (by simp)
      · cases h
        exact hi.acquire hc hl acked
    · cases h
      exact hi.goto hc (by simp)
    · cases h
  | expire =>
    simp only [step] at h
    split at h
    · next lock hl =>
      split at h
      · next hexp =>
        cases h
        refine hi.free fun j hj => ?_
        obtain ⟨c, wonAt, hc, hph, hlt⟩ := holds_iff.1 hj
        obtain ⟨lock', hl', -, hle⟩ := hi.held j c wonAt hc hph hlt
        rw [hl, Option.some.injEq] at hl'
        subst hl'
        omega
      · cases h
    · cases h
  | del i ran =>
    simp only [step, Option.bind_eq_bind, Option.bind_eq_some_iff] at h
    obtain ⟨c, hc, h⟩ := h
    split at h
    · cases h
      have hgo : LockInv (s.goto i c .released) := hi.goto hc (by simp)
      cases ran with
      | false => exact hgo
      | true =>
        refine hgo.free fun j hj => ?_
        obtain ⟨d, wonAt, hd, hph, hlt⟩ := holds_iff.1 hj
        rcases Table.getElem?_set_inv hc hd with ⟨-, rfl⟩ | ⟨hne, hold⟩
        · cases hph
        · -- another holder would own the lock, which is the caller's, or gone
          obtain ⟨lock, hl, ho⟩ := hi.owner (holds_iff.2 ⟨d, wonAt, hold, hph, hlt⟩)
          rcases hp with hown | hnone
          · obtain ⟨lock', hl', ho'⟩ := hi.owner hown
            rw [hl, Option.some.injEq] at hl'
            subst hl'
            exact hne (ho.symm.trans ho')
          · rw [hnone] at hl
            cases hl
    · cases h

theorem step_singleFlight {s s' : St} {a : Action} (hi : LockInv s) (hp : Prompt s a) (h : step s a = some s') :
    SingleFlight s a s' where
  exclusive i acked ha hne j _ := by
    subst ha
    simp only [step, Option.bind_eq_bind, Option.bind_eq_some_iff] at h
    obtain ⟨c, -, h⟩ := h
    split at h
    · next hl => exact hi.not_holds hl j
    · cases h
      exact absurd rfl hne
    · cases h
  release i ran lock ha hl _ := by
    subst ha
    rcases hp with hown | hnone
    · obtain ⟨lock', hl', ho⟩ := hi.owner hown
      rw [hl, Option.some.injEq] at hl'
      exact hl' ▸ ho
    · rw [hl] at hnone
      cases hnone

/-- **The lock is single-flight**, in every run in which each `lock_ttl` is a
whole number of milliseconds within `i64` and each `DEL` comes before the
caller's `lock_ttl` has elapsed, or when the lock is gone: no `SET NX`
succeeds while another caller holds the lock, and no `DEL` frees another's. -/
theorem singleFlight_along {now : Int} {as : List Action} (h : Along step Prompt (init now) as) :
    EachStep step SingleFlight (init now) as :=
  eachStep_of_along step_lockInv step_singleFlight (lockInv_init now) h

/-- Two callers, and a loader of one second under a lock of five. -/
def promptLoader : List Action :=
  [.start (.fromSecs 5), .start (.fromSecs 5), .setNx 0 true, .setNx 1 true,
    .tick nanosPerSec, .del 0 true]

theorem singleFlight_promptLoader : (run step (init 0) promptLoader).isSome = true ∧
    EachStep step SingleFlight (init 0) promptLoader := by
  have hp : Along step Prompt (init 0) promptLoader := by decide +kernel
  exact ⟨by decide +kernel, singleFlight_along hp⟩

/-! ## A loader that outlasts its lock -/

/-- The first caller's lock of one second expires while its loader runs, and
the second takes the lock. -/
def slowLoader : List Action :=
  [.start (.fromSecs 1), .start (.fromSecs 1), .start (.fromSecs 1),
    .setNx 0 true, .tick nanosPerSec, .expire, .setNx 1 true]

/-- Both loaders run, and the lock is the second caller's. -/
def overtaken : St where
  now := nanosPerSec
  lock := some ⟨1, 2 * nanosPerSec⟩
  callers := [⟨.fromSecs 1, .loading 0⟩, ⟨.fromSecs 1, .loading nanosPerSec⟩,
    ⟨.fromSecs 1, .trying⟩]

/-- After the first caller's `DEL`. -/
def freed : St := { overtaken.goto 0 ⟨.fromSecs 1, .loading 0⟩ .released with lock := none }

/-- After the third caller's `SET NX`. -/
def retaken : St :=
  { freed.goto 2 ⟨.fromSecs 1, .trying⟩ (.loading nanosPerSec) with lock := some ⟨2, 2 * nanosPerSec⟩ }

/-- The first caller's `DEL` frees the second's lock, and the third wins it
inside the second's window. -/
theorem lateRelease_frees_other : run step (init 0) slowLoader = some overtaken ∧ overtaken.Holds 1 ∧
    step overtaken (.del 0 true) = some freed ∧ ¬ SingleFlight overtaken (.del 0 true) freed ∧
    step freed (.setNx 2 true) = some retaken ∧ ¬ SingleFlight freed (.setNx 2 true) retaken := by
  refine ⟨by decide +kernel, by decide +kernel, by decide +kernel, fun h => ?_, by decide +kernel, fun h => ?_⟩
  · have howner := h.release 0 true _ rfl rfl (by decide)
    exact absurd howner (by decide)
  · exact h.exclusive 2 true rfl (by decide) 1 (by decide) (by decide +kernel)

end FerrKit.Cache
