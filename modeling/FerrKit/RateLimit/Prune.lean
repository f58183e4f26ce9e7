/-
Pruning does not show. `prune` drops the buckets that would be full by now,
and a key without a bucket is given a full one at its next check: in any
sequence of checks and prunes, each key is treated as if it had one bucket
for itself that nobody prunes (`TokenBucket.Level`). `InStep` relates the
two: a stored bucket is the reference bucket, and where none is stored the
reference is full by now.

Calls come one after the other here, each at the time it reads. What
concurrent checks can do to a bucket is in `FerrKit.RateLimit.Limiter`.
-/
import FerrKit.RateLimit.Limiter

namespace FerrKit.RateLimit.Sequential

open Runs TokenBucket

structure Check where
  key : String
  time : Rat
  verdict : Bool
  deriving DecidableEq

structure St where
  now : Rat
  buckets : String → Option Bucket
  log : List Check

inductive Action
  | tick (d : Rat)
  | check (key : String)
  | prune

/-- The closure `prune` passes to `retain`. -/
def retains (q : Quota) (now : Rat) (bucket : Bucket) : Bool :=
  let elapsed := max (now - bucket.lastRefill) 0
  bucket.tokens + elapsed * q.refillPerSec < q.capacity

def init (now : Rat) : St := ⟨now, fun _ => none, []⟩

def step (q : Quota) (s : St) : Action → Option St
  | .tick d => if 0 ≤ d then some { s with now := s.now + d } else none
  | .check key =>
    let (bucket, verdict) := tryConsume q s.now 1 (s.buckets key)
    some { s with
      buckets := fun k => if k = key then some bucket else s.buckets k
      log := s.log ++ [⟨key, s.now, verdict⟩] }
  | .prune => some { s with buckets := fun k => (s.buckets k).filter (retains q s.now) }

/-- The times at which the key was checked. -/
def St.timesOf (s : St) (key : String) : List Rat := (s.log.filter (·.key == key)).map (·.time)

/-- What it was told. -/
def St.verdictsOf (s : St) (key : String) : List Bool := (s.log.filter (·.key == key)).map (·.verdict)

/-! ## One check -/

section Check

variable {q : Quota} {now : Rat} {b : Level Rat}

/-- A request to the reference bucket of a quota. -/
def offer (q : Quota) (b : Level Rat) (now : Rat) : Level Rat × Bool := b.offer (q.capacity : Rat) q.refillPerSec now

def toBucket (b : Level Rat) : Bucket := ⟨b.tokens, b.since⟩

theorem tryConsume_stored (hsince : b.since ≤ now) :
    tryConsume q now 1 (some (toBucket b)) = (toBucket (offer q b now).1, (offer q b now).2) := by
  simp only [tryConsume, toBucket, Option.getD_some, offer, Level.offer, Level.fill,
    max_eq_left (sub_nonneg.2 hsince), mul_comm q.refillPerSec]
  split <;> rfl

/-- A key without a bucket is treated like one whose bucket is full. -/
theorem tryConsume_full (hfull : q.capacity ≤ b.tokens + q.refillPerSec * (now - b.since)) :
    tryConsume q now 1 none = (toBucket (offer q b now).1, (offer q b now).2) := by
  have hfill : b.fill (q.capacity : Rat) q.refillPerSec now = q.capacity := min_eq_right hfull
  simp only [tryConsume, toBucket, Option.getD_none, sub_self, max_self, zero_mul, add_zero, min_self, offer,
    Level.offer, hfill]
  split <;> rfl

end Check

/-! ## In step with the reference -/

/-- The reference bucket of a key: full at the start, and asked at the times
of the key's checks. -/
def St.reference (q : Quota) (start : Rat) (s : St) (key : String) : Level Rat :=
  Level.after (q.capacity : Rat) q.refillPerSec ⟨q.capacity, start⟩ (s.timesOf key)

/-- It is full by now. -/
def St.Full (q : Quota) (s : St) (b : Level Rat) : Prop :=
  (q.capacity : Rat) ≤ b.tokens + q.refillPerSec * (s.now - b.since)

structure InStep (q : Quota) (start : Rat) (key : String) (s : St) : Prop where
  verdicts : s.verdictsOf key =
    Level.verdicts (q.capacity : Rat) q.refillPerSec ⟨q.capacity, start⟩ (s.timesOf key)
  ok : (s.reference q start key).Ok (q.capacity : Rat) s.now
  stored : ∀ bucket, s.buckets key = some bucket → bucket = toBucket (s.reference q start key)
  missing : s.buckets key = none → s.Full q (s.reference q start key)

variable {q : Quota} {start : Rat} {key : String} {s t : St} {a : Action}

theorem inStep_init (q : Quota) (start : Rat) (key : String) : InStep q start key (init start) where
  verdicts := rfl
  ok := ⟨Nat.cast_nonneg _, le_refl _, le_refl _⟩
  stored bucket h := by cases h
  missing _ := by simp [St.Full, St.reference, St.timesOf, init, Level.after]

theorem InStep.tick (hi : InStep q start key s) (hr : 0 ≤ q.refillPerSec) {d : Rat} (hd : 0 ≤ d) :
    InStep q start key { s with now := s.now + d } where
  verdicts := hi.verdicts
  ok := hi.ok.later (le_add_of_nonneg_right hd)
  stored := hi.stored
  missing hnone := by
    have hfull := hi.missing hnone
    have hmore : 0 ≤ q.refillPerSec * d := mul_nonneg hr hd
    simp only [St.Full] at hfull ⊢
    show (q.capacity : Rat) ≤ (s.reference q start key).tokens + q.refillPerSec * (s.now + d - (s.reference q start key).since)
    linarith

/-- Only a bucket that is full by now is dropped. -/
theorem InStep.prune (hi : InStep q start key s) :
    InStep q start key { s with buckets := fun k => (s.buckets k).filter (retains q s.now) } where
  verdicts := hi.verdicts
  ok := hi.ok
  stored bucket h := by
    simp only [Option.filter_eq_some_iff] at h
    exact hi.stored bucket h.1
  missing h := by
    simp only [Option.filter_eq_none_iff] at h
    cases hb : s.buckets key with
    | none => exact hi.missing hb
    | some bucket =>
      have hdropped := h bucket hb
      rw [hi.stored bucket hb] at hdropped
      simp only [retains, toBucket, max_eq_left (sub_nonneg.2 hi.ok.since_le), decide_eq_true_eq, not_lt,
        mul_comm _ q.refillPerSec] at hdropped
      exact hdropped

/-! ## Checks -/

/-- What a check does. -/
theorem step_check {other : String} (h : step q s (.check other) = some t) :
    t.now = s.now ∧ t.log = s.log ++ [⟨other, s.now, (tryConsume q s.now 1 (s.buckets other)).2⟩] ∧
      t.buckets other = some (tryConsume q s.now 1 (s.buckets other)).1 ∧ ∀ k, k ≠ other → t.buckets k = s.buckets k := by
  simp only [step, Option.some.injEq] at h
  subst h
  exact ⟨rfl, rfl, if_pos rfl, fun k hk => if_neg hk⟩

theorem timesOf_concat {c : Check} (h : t.log = s.log ++ [c]) (key : String) :
    t.timesOf key = s.timesOf key ++ if c.key = key then [c.time] else [] := by
  by_cases hk : c.key = key <;> simp [St.timesOf, h, List.filter_append, hk]

theorem verdictsOf_concat {c : Check} (h : t.log = s.log ++ [c]) (key : String) :
    t.verdictsOf key = s.verdictsOf key ++ if c.key = key then [c.verdict] else [] := by
  by_cases hk : c.key = key <;> simp [St.verdictsOf, h, List.filter_append, hk]

/-- What a check of the key does is what the reference does. -/
theorem InStep.consume (hi : InStep q start key s) :
    tryConsume q s.now 1 (s.buckets key) =
      (toBucket (offer q (s.reference q start key) s.now).1, (offer q (s.reference q start key) s.now).2) := by
  cases hb : s.buckets key with
  | none => exact tryConsume_full (hi.missing hb)
  | some bucket =>
    rw [hi.stored bucket hb]
    exact tryConsume_stored hi.ok.since_le

theorem InStep.check (hi : InStep q start key s) (hr : 0 ≤ q.refillPerSec) (h : step q s (.check key) = some t) :
    InStep q start key t := by
  obtain ⟨hnow, hlog, hbucket, -⟩ := step_check h
  rw [hi.consume] at hlog hbucket
  have htimes : t.timesOf key = s.timesOf key ++ [s.now] := by simpa using timesOf_concat hlog key
  have href : t.reference q start key = (offer q (s.reference q start key) s.now).1 := by
    rw [St.reference, htimes, Level.after_concat]
    rfl
  refine ⟨?_, ?_, fun bucket hb => ?_, fun hnone => ?_⟩
  · rw [verdictsOf_concat hlog, htimes, Level.verdicts_concat, ← hi.verdicts, if_pos rfl]
    rfl
  · rw [href, hnow]
    exact hi.ok.offer hr
  · rw [hbucket, Option.some.injEq] at hb
    rw [href, ← hb]
  · rw [hbucket] at hnone
    cases hnone

/-- A check of another key. -/
theorem InStep.other (hi : InStep q start key s) {other : String} (hne : other ≠ key)
    (h : step q s (.check other) = some t) : InStep q start key t := by
  obtain ⟨hnow, hlog, -, hrest⟩ := step_check h
  have hbucket : t.buckets key = s.buckets key := hrest key hne.symm
  have htimes : t.timesOf key = s.timesOf key := by simpa [hne] using timesOf_concat hlog key
  have hverdicts : t.verdictsOf key = s.verdictsOf key := by simpa [hne] using verdictsOf_concat hlog key
  have href : t.reference q start key = s.reference q start key := by rw [St.reference, htimes, St.reference]
  refine ⟨?_, ?_, ?_, ?_⟩
  · rw [hverdicts, htimes, hi.verdicts]
  · rw [href, hnow]
    exact hi.ok
  · rw [hbucket, href]
    exact hi.stored
  · rw [hbucket, St.Full, href, hnow]
    exact hi.missing

theorem step_inStep (hr : 0 ≤ q.refillPerSec) (hi : InStep q start key s) (h : step q s a = some t) :
    InStep q start key t := by
  cases a with
  | tick d =>
    simp only [step] at h
    split at h
    · next hd =>
      cases h
      exact hi.tick hr hd
    · cases h
  | check other =>
    by_cases hkey : other = key
    · subst hkey
      exact hi.check hr h
    · exact hi.other hkey h
  | prune =>
    cases h
    exact hi.prune

/-- **Pruning and other keys never change a verdict.** In every sequence of
checks and prunes, on a clock that does not run backwards, the verdicts for a
key are those of one token bucket that only this key's checks reach. They
are the same in every sequence with the same check times of the key, and what
is stored is between empty and full. -/
theorem verdicts_are_reference (hr : 0 ≤ q.refillPerSec) {as : List Action} (h : run (step q) (init start) as = some s)
    (key : String) :
    s.verdictsOf key = Level.verdicts (q.capacity : Rat) q.refillPerSec ⟨q.capacity, start⟩ (s.timesOf key) ∧
      (∀ bucket, s.buckets key = some bucket → 0 ≤ bucket.tokens ∧ bucket.tokens ≤ q.capacity) ∧
      ∀ as' s', run (step q) (init start) as' = some s' → s'.timesOf key = s.timesOf key →
        s'.verdictsOf key = s.verdictsOf key := by
  have hi : InStep q start key s := invariant_run (step_inStep hr) h (inStep_init q start key)
  refine ⟨hi.verdicts, fun bucket hb => ?_, fun as' s' h' htimes => ?_⟩
  · rw [hi.stored bucket hb]
    exact ⟨hi.ok.nonneg, hi.ok.le⟩
  · have hi' : InStep q start key s' := invariant_run (step_inStep hr) h' (inStep_init q start key)
    rw [hi'.verdicts, hi.verdicts, htimes]

/-- Two tokens, one a second: the key is pruned when it is full again, with
another key between. -/
def prunedRun : List Action :=
  [.check "k", .check "k", .check "k", .check "other", .tick 2, .prune, .check "k", .check "k", .check "k"]

theorem verdicts_are_reference_prunedRun : ∃ s, run (step ⟨2, 1⟩) (init 0) prunedRun = some s ∧
    s.timesOf "k" = [0, 0, 0, 2, 2, 2] ∧
    s.verdictsOf "k" = Level.verdicts ((2 : Nat) : Rat) 1 ⟨(2 : Nat), 0⟩ (s.timesOf "k") := by
  have hrun : (run (step ⟨2, 1⟩) (init 0) prunedRun).map (St.timesOf · "k") = some [0, 0, 0, 2, 2, 2] := by
    decide +kernel
  obtain ⟨s, hs, htimes⟩ := Option.map_eq_some_iff.1 hrun
  have hr : (0 : Rat) ≤ (⟨2, 1⟩ : Quota).refillPerSec := by norm_num
  exact ⟨s, hs, htimes, (verdicts_are_reference hr hs "k").1⟩

end FerrKit.RateLimit.Sequential
