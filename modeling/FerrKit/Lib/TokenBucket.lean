/-
The arithmetic of a token bucket over an ordered field: what the bucket's
content at its last refill says about how much was taken inside a window of
time. `Within` is kept by each refill and taking that does not go back in
time (`Within.take`), and it bounds what was taken by the capacity and what
flowed in during the window (`Within.bound`). Without an inflow the order
does not matter.

`offer` and `verdicts` are the bucket as one thinks of it: it fills at a
steady rate up to its capacity, and a request takes one token if there is
one.
-/
import Mathlib.Algebra.Order.Field.Basic
import Mathlib.Tactic.Linarith
import Mathlib.Tactic.Ring

namespace TokenBucket

variable {K : Type*} [Field K] [LinearOrder K] [IsStrictOrderedRing K]

/-- `n` has been taken in the window from `a` to `b`, and the bucket held
`tokens` after its last refill, at `last`. -/
structure Within (capacity rate a b n tokens last : K) : Prop where
  nonneg : 0 ≤ tokens
  le : tokens ≤ capacity
  dry : rate = 0 → n + tokens ≤ capacity
  flow : rate ≠ 0 → (last < a ∧ n = 0) ∨ (a ≤ last ∧ last ≤ b ∧ n + tokens ≤ capacity + rate * (last - a)) ∨
    (b < last ∧ n ≤ capacity + rate * (b - a))

variable {capacity rate a b n tokens last : K}

theorem Within.bound (h : Within capacity rate a b n tokens last) (hr : 0 ≤ rate) (hab : a ≤ b) :
    n ≤ capacity + rate * (b - a) := by
  have hflow : 0 ≤ rate * (b - a) := mul_nonneg hr (by linarith)
  by_cases hz : rate = 0
  · linarith [h.dry hz, h.nonneg]
  · rcases h.flow hz with ⟨-, rfl⟩ | ⟨-, hlast, hn⟩ | ⟨-, hn⟩
    · linarith [h.nonneg, h.le]
    · have hle : rate * (last - a) ≤ rate * (b - a) := mul_le_mul_of_nonneg_left (by linarith) hr
      linarith [h.nonneg]
    · exact hn

/-- A full bucket that nothing has been taken from. -/
theorem within_full (hc : 0 ≤ capacity) (hr : 0 ≤ rate) (hab : a ≤ b) :
    Within capacity rate a b 0 capacity last where
  nonneg := hc
  le := le_refl _
  dry _ := by linarith
  flow _ := by
    rcases lt_or_ge last a with hlt | hge
    · exact .inl ⟨hlt, rfl⟩
    rcases le_or_gt last b with hle | hgt
    · have := mul_nonneg hr (sub_nonneg.2 hge)
      exact .inr (.inl ⟨hge, hle, by linarith⟩)
    · have := mul_nonneg hr (sub_nonneg.2 hab)
      exact .inr (.inr ⟨hgt, by linarith⟩)

/-- A refill to `filled` and a taking of `x` at `now`. -/
theorem Within.take {now filled x n' : K} (h : Within capacity rate a b n tokens last) (hr : 0 ≤ rate) (hab : a ≤ b)
    (horder : rate = 0 ∨ last ≤ now) (hcap : filled ≤ capacity) (hfill : filled ≤ tokens + rate * max (now - last) 0)
    (hx : 0 ≤ x) (hxf : x ≤ filled) (hn' : n' = if a ≤ now ∧ now ≤ b then n + x else n) :
    Within capacity rate a b n' (filled - x) now where
  nonneg := by linarith
  le := by linarith
  dry hz := by
    have hdry := h.dry hz
    rw [hz, zero_mul] at hfill
    split at hn' <;> linarith
  flow hz := by
    have hlast : last ≤ now := horder.resolve_left hz
    rw [max_eq_left (sub_nonneg.2 hlast)] at hfill
    rcases lt_or_ge now a with hbefore | hafter
    · -- before the window nothing has been taken in it
      rw [if_neg (by rintro ⟨h₁, -⟩; linarith)] at hn'
      rcases h.flow hz with ⟨-, rfl⟩ | ⟨hl, -, -⟩ | ⟨hl, -⟩
      · exact .inl ⟨hbefore, hn'⟩
      · linarith
      · linarith
    rcases le_or_gt now b with hin | hpast
    · -- inside it, what was taken and what is left grow by at most the inflow
      rw [if_pos ⟨hafter, hin⟩] at hn'
      refine .inr (.inl ⟨hafter, hin, ?_⟩)
      rcases h.flow hz with ⟨-, rfl⟩ | ⟨-, -, hn⟩ | ⟨hl, -⟩
      · have := mul_nonneg hr (sub_nonneg.2 hafter)
        linarith
      · have hsplit : rate * (last - a) + rate * (now - last) = rate * (now - a) := by ring
        linarith
      · linarith
    · rw [if_neg (by rintro ⟨-, h₂⟩; linarith)] at hn'
      exact .inr (.inr ⟨hpast, hn' ▸ h.bound hr hab⟩)

/-! ## The bucket -/

/-- What is in a bucket at a time. -/
structure Level (K : Type*) where
  tokens : K
  since : K

/-- The content at `now`. -/
def Level.fill (capacity rate : K) (b : Level K) (now : K) : K := min (b.tokens + rate * (now - b.since)) capacity

/-- A request at `now`: what is left, and whether it may pass. -/
def Level.offer (capacity rate : K) (b : Level K) (now : K) : Level K × Bool :=
  let content := b.fill capacity rate now
  if 1 ≤ content then (⟨content - 1, now⟩, true) else (⟨content, now⟩, false)

/-- The bucket after requests at these times. -/
def Level.after (capacity rate : K) : Level K → List K → Level K
  | b, [] => b
  | b, t :: ts => (b.offer capacity rate t).1.after capacity rate ts

/-- What is said to requests at these times. -/
def Level.verdicts (capacity rate : K) : Level K → List K → List Bool
  | _, [] => []
  | b, t :: ts => (b.offer capacity rate t).2 :: (b.offer capacity rate t).1.verdicts capacity rate ts

variable {start : Level K} {ts : List K} {t now : K}

omit [IsStrictOrderedRing K] in
theorem Level.after_concat : start.after capacity rate (ts ++ [t]) =
    ((start.after capacity rate ts).offer capacity rate t).1 := by
  induction ts generalizing start with
  | nil => rfl
  | cons t' ts ih => exact ih

omit [IsStrictOrderedRing K] in
theorem Level.verdicts_concat : start.verdicts capacity rate (ts ++ [t]) =
    start.verdicts capacity rate ts ++ [((start.after capacity rate ts).offer capacity rate t).2] := by
  induction ts generalizing start with
  | nil => rfl
  | cons t' ts ih => exact congrArg _ ih

/-- Neither empty below zero nor over its capacity, and not ahead of time. -/
structure Level.Ok (capacity now : K) (b : Level K) : Prop where
  nonneg : 0 ≤ b.tokens
  le : b.tokens ≤ capacity
  since_le : b.since ≤ now

omit [IsStrictOrderedRing K] in
theorem Level.Ok.later {b : Level K} {now' : K} (h : b.Ok capacity now) (hle : now ≤ now') : b.Ok capacity now' :=
  ⟨h.nonneg, h.le, h.since_le.trans hle⟩

theorem Level.Ok.offer {b : Level K} (h : b.Ok capacity now) (hr : 0 ≤ rate) :
    (b.offer capacity rate now).1.Ok capacity now := by
  have hflow : 0 ≤ rate * (now - b.since) := mul_nonneg hr (sub_nonneg.2 h.since_le)
  have hfill : 0 ≤ b.fill capacity rate now := le_min (by linarith [h.nonneg]) (by linarith [h.nonneg, h.le])
  have hcap : b.fill capacity rate now ≤ capacity := min_le_right _ _
  unfold Level.offer
  simp only
  split
  · next hone => exact ⟨by simpa using hone, by simp only; linarith, le_refl _⟩
  · exact ⟨hfill, hcap, le_refl _⟩

end TokenBucket
