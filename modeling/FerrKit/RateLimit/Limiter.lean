/-
The in-memory rate limiter (`crates/ratelimit/src/lib.rs`): concurrent
`check` calls on token buckets keyed by a string.

A call reads the clock first and takes the entry's lock later, so updates of
a bucket may come in another order than their readings. An update with an
older reading refills nothing and still sets `last_refill` back to it, and
the next update refills the same stretch of time again. As long as readings
reach each bucket in order (or nothing ever flows in) the limiter keeps its
quota over every window.

Times and tokens are exact rationals. `prune` is in
`FerrKit.RateLimit.Prune`, the client-IP extractor in
`FerrKit.RateLimit.ClientIp`.
-/
import FerrKit.Lib.Runs
import FerrKit.Lib.TokenBucket
import Mathlib.Algebra.Order.Ring.Rat

namespace FerrKit.RateLimit

open Runs TokenBucket

structure Quota where
  capacity : Nat
  refillPerSec : Rat

structure Bucket where
  tokens : Rat
  lastRefill : Rat
  deriving DecidableEq

/-- `try_consume` on the entry of its key, `none` when there is none yet. -/
def tryConsume (q : Quota) (now cost : Rat) (entry : Option Bucket) : Bucket × Bool :=
  let entry := entry.getD ⟨q.capacity, now⟩
  let elapsed := max (now - entry.lastRefill) 0
  let refilled := elapsed * q.refillPerSec
  let tokens := min (entry.tokens + refilled) q.capacity
  if cost ≤ tokens then (⟨tokens - cost, now⟩, true) else (⟨tokens, now⟩, false)

/-- A `check` call with its reading of the clock; no verdict before the
update. -/
structure Call where
  key : String
  now : Rat
  verdict : Option Bool
  deriving DecidableEq

structure St where
  now : Rat
  buckets : String → Option Bucket
  calls : List Call

def init (now : Rat) : St := ⟨now, fun _ => none, []⟩

inductive Action
  | tick (d : Rat)
  /-- A call begins and reads the clock. -/
  | read (key : String)
  | update (k : Nat)

def step (q : Quota) (s : St) : Action → Option St
  | .tick d => if 0 ≤ d then some { s with now := s.now + d } else none
  | .read key => some { s with calls := s.calls ++ [⟨key, s.now, none⟩] }
  | .update k => do
    let c ← s.calls[k]?
    match c.verdict with
    | some _ => none
    | none =>
      let (bucket, verdict) := tryConsume q c.now 1 (s.buckets c.key)
      some { s with
        buckets := fun key => if key = c.key then some bucket else s.buckets key
        calls := s.calls.set k { c with verdict := some verdict } }

/-- An allowed call of the key with its reading in the window. -/
def counts (key : String) (a b : Rat) (c : Call) : Bool :=
  c.key == key && c.verdict == some true && decide (a ≤ c.now ∧ c.now ≤ b)

def allowed (s : St) (key : String) (a b : Rat) : Nat := s.calls.countP (counts key a b)

/-- An update does not go back behind the bucket's last refill. -/
def InOrder (q : Quota) (s : St) : Action → Prop
  | .update k => ∀ c ∈ s.calls[k]?, ∀ b ∈ s.buckets c.key, q.refillPerSec = 0 ∨ b.lastRefill ≤ c.now
  | _ => True

instance (q : Quota) (s : St) (a : Action) : Decidable (InOrder q s a) :=
  match a with
  | .update k => inferInstanceAs
      (Decidable (∀ c ∈ s.calls[k]?, ∀ b ∈ s.buckets c.key, q.refillPerSec = 0 ∨ b.lastRefill ≤ c.now))
  | .tick _ | .read _ => isTrue trivial

/-! ## One update -/

/-- What an update leaves is a refill and, when it is allowed, one token
taken. -/
theorem tryConsume_within {q : Quota} {a b n now : Rat} {entry : Bucket} (hr : 0 ≤ q.refillPerSec) (hab : a ≤ b)
    (h : Within (q.capacity : Rat) q.refillPerSec a b n entry.tokens entry.lastRefill)
    (horder : q.refillPerSec = 0 ∨ entry.lastRefill ≤ now) :
    Within (q.capacity : Rat) q.refillPerSec a b
      (n + if (tryConsume q now 1 (some entry)).2 = true ∧ a ≤ now ∧ now ≤ b then 1 else 0)
      (tryConsume q now 1 (some entry)).1.tokens (tryConsume q now 1 (some entry)).1.lastRefill := by
  have hflow : 0 ≤ max (now - entry.lastRefill) 0 * q.refillPerSec := mul_nonneg (le_max_right _ _) hr
  have hfill : min (entry.tokens + max (now - entry.lastRefill) 0 * q.refillPerSec) (q.capacity : Rat) ≤
      entry.tokens + q.refillPerSec * max (now - entry.lastRefill) 0 := by
    rw [mul_comm q.refillPerSec]
    exact min_le_left _ _
  have hnonneg : 0 ≤ min (entry.tokens + max (now - entry.lastRefill) 0 * q.refillPerSec) (q.capacity : Rat) :=
    le_min (by linarith [h.nonneg]) (by linarith [h.nonneg, h.le])
  simp only [tryConsume, Option.getD_some]
  split
  · next hone =>
    refine h.take hr hab horder (min_le_right _ _) hfill (by norm_num) hone ?_
    simp only [true_and]
    split <;> simp
  · have hkeep : Within (q.capacity : Rat) q.refillPerSec a b n (_ - 0) now :=
      h.take hr hab horder (min_le_right _ _) hfill (le_refl 0) hnonneg (by simp)
    simpa using hkeep

/-- A key's first update finds a full bucket, filled at its own reading. -/
theorem tryConsume_none (q : Quota) (now : Rat) :
    tryConsume q now 1 none = tryConsume q now 1 (some ⟨q.capacity, now⟩) := rfl

/-! ## Every run in order -/

section
variable {q : Quota} {key : String} {a b : Rat} {s s' : St} {act : Action}

/-- The bucket of the key accounts for what was allowed in the window. -/
def WindowInv (q : Quota) (key : String) (a b : Rat) (s : St) : Prop :=
  match s.buckets key with
  | none => allowed s key a b = 0
  | some bucket => Within (q.capacity : Rat) q.refillPerSec a b (allowed s key a b) bucket.tokens bucket.lastRefill

theorem WindowInv.congr {t : St} (h : WindowInv q key a b s) (hb : t.buckets key = s.buckets key)
    (hn : allowed t key a b = allowed s key a b) : WindowInv q key a b t := by
  unfold WindowInv at h ⊢
  rw [hb, hn]
  exact h

/-- Settling a call counts it or not. -/
theorem allowed_set {k : Nat} {c : Call} (hk : s.calls[k]? = some c) (hc : c.verdict = none) (verdict : Bool)
    (buckets : String → Option Bucket) (key : String) (a b : Rat) :
    allowed { s with buckets, calls := s.calls.set k { c with verdict := some verdict } } key a b =
      allowed s key a b + if c.key = key ∧ verdict = true ∧ a ≤ c.now ∧ c.now ≤ b then 1 else 0 := by
  obtain ⟨hlt, hget⟩ := List.getElem?_eq_some_iff.1 hk
  have hold : counts key a b c = false := by simp [counts, hc]
  simp only [allowed, List.countP_set hlt, hget, hold]
  simp [counts, and_assoc]

theorem step_windowInv (hr : 0 ≤ q.refillPerSec) (hab : a ≤ b) (hi : WindowInv q key a b s) (ho : InOrder q s act)
    (h : step q s act = some s') : WindowInv q key a b s' := by
  cases act with
  | tick d =>
    simp only [step] at h
    split at h
    · cases h
      exact hi
    · cases h
  | read key' =>
    cases h
    refine hi.congr rfl ?_
    simp [allowed, List.countP_append, counts]
  | update k =>
    simp only [step, Option.bind_eq_bind, Option.bind_eq_some_iff] at h
    obtain ⟨c, hk, h⟩ := h
    split at h
    · cases h
    next hc =>
    simp only [Option.some.injEq] at h
    subst h
    by_cases hkey : c.key = key
    · subst hkey
      have hn := allowed_set hk hc (tryConsume q c.now 1 (s.buckets c.key)).2
        (fun key => if key = c.key then some (tryConsume q c.now 1 (s.buckets c.key)).1 else s.buckets key) c.key a b
      simp only [true_and] at hn
      unfold WindowInv
      simp only [if_true, hn]
      unfold WindowInv at hi
      rw [Nat.cast_add, Nat.cast_ite, Nat.cast_one, Nat.cast_zero]
      cases hb : s.buckets c.key with
      | none =>
        rw [hb] at hi
        simp only at hi
        rw [hi, Nat.cast_zero, tryConsume_none]
        exact tryConsume_within hr hab (within_full (Nat.cast_nonneg _) hr hab) (.inr (le_refl _))
      | some entry =>
        rw [hb] at hi
        exact tryConsume_within hr hab hi (ho c hk entry hb)
    · refine hi.congr (if_neg fun he => hkey he.symm) ?_
      rw [allowed_set hk hc, if_neg fun h => hkey h.1, Nat.add_zero]

end

/-- **The quota holds over every window**, in every run whose updates reach
each bucket in the order of their readings, or when nothing flows in: the
allowed calls of a key with a reading in `[a, b]` are at most
`capacity + refill_per_sec * (b - a)`. -/
theorem allowed_le {q : Quota} (hr : 0 ≤ q.refillPerSec) {now : Rat} {as : List Action} {s : St}
    (ho : Along (step q) (InOrder q) (init now) as) (hs : run (step q) (init now) as = some s)
    (key : String) {a b : Rat} (hab : a ≤ b) :
    (allowed s key a b : Rat) ≤ q.capacity + q.refillPerSec * (b - a) := by
  have hi : WindowInv q key a b s :=
    invariant_along (step_windowInv hr hab) ho hs (by simp [WindowInv, init, allowed])
  unfold WindowInv at hi
  split at hi
  · have := mul_nonneg hr (sub_nonneg.2 hab)
    rw [hi, Nat.cast_zero]
    positivity
  · exact hi.bound hr hab

/-- One token, one a second: two calls a second apart, in order. -/
def inOrderRun : List Action := [.read "k", .update 0, .tick 1, .read "k", .update 1]

theorem allowed_le_inOrderRun : ∃ s, run (step ⟨1, 1⟩) (init 0) inOrderRun = some s ∧ allowed s "k" 0 1 = 2 ∧
    (allowed s "k" 0 1 : Rat) ≤ (1 : Nat) + 1 * (1 - 0) := by
  have ho : Along (step ⟨1, 1⟩) (InOrder ⟨1, 1⟩) (init 0) inOrderRun := by decide +kernel
  have hrun : (run (step ⟨1, 1⟩) (init 0) inOrderRun).map (allowed · "k" 0 1) = some 2 := by decide +kernel
  obtain ⟨s, hs, htwo⟩ := Option.map_eq_some_iff.1 hrun
  exact ⟨s, hs, htwo, allowed_le (by norm_num) ho hs "k" (by norm_num)⟩

/-! ## A reading that comes late -/

/-- The second call reads at 0 and updates after the third has refilled at 1;
the fourth refills the same second again. -/
def backwardRefill : List Action :=
  [.read "k", .update 0, .read "k", .tick 1, .read "k", .update 2, .update 1, .read "k", .update 3]

theorem backwardRefill_exceeds : ∃ s, run (step ⟨1, 1⟩) (init 0) backwardRefill = some s ∧
    allowed s "k" 0 1 = 3 ∧ ((1 : Nat) + 1 * (1 - 0) : Rat) < allowed s "k" 0 1 := by
  have hrun : (run (step ⟨1, 1⟩) (init 0) backwardRefill).map (allowed · "k" 0 1) = some 3 := by decide +kernel
  obtain ⟨s, hs, hthree⟩ := Option.map_eq_some_iff.1 hrun
  refine ⟨s, hs, hthree, ?_⟩
  rw [hthree]
  norm_num

end FerrKit.RateLimit
