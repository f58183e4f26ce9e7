/-
Lists that a stable sort has put in the order of a key, and folds over
them: a sorted list falls apart at any key, and two sorted orders of one
collection fold to the same value when elements of equal key commute.
-/
import Mathlib.Data.List.Perm.Basic
import Mathlib.Order.Lattice
import Mathlib.Order.OrderDual

namespace KeySort

variable {α β κ : Type*} [LinearOrder κ] {key : α → κ} {l l₁ l₂ : List α}

/-- Ascending by the key. -/
def Sorted (key : α → κ) (l : List α) : Prop := l.Pairwise fun a b => key a ≤ key b

/-- `sort_by_key`, which is stable. -/
def sortByKey (key : α → κ) (l : List α) : List α := l.mergeSort fun a b => decide (key a ≤ key b)

theorem sortByKey_perm (key : α → κ) (l : List α) : (sortByKey key l).Perm l := List.mergeSort_perm l _

theorem sortByKey_sorted (key : α → κ) (l : List α) : Sorted key (sortByKey key l) := by
  have h : (sortByKey key l).Pairwise fun a b => decide (key a ≤ key b) = true := by
    refine List.pairwise_mergeSort (fun a b c hab hbc => ?_) (fun a b => ?_) l
    · simp only [decide_eq_true_eq] at hab hbc ⊢
      exact le_trans hab hbc
    · simp only [Bool.or_eq_true, decide_eq_true_eq]
      exact le_total _ _
  exact h.imp fun hab => of_decide_eq_true hab

/-- A list that is in order stays as it is. -/
theorem sortByKey_of_sorted (h : Sorted key l) : sortByKey key l = l :=
  List.mergeSort_of_pairwise (h.imp fun hab => decide_eq_true hab)

theorem Sorted.reverse (h : Sorted key l) : Sorted (fun a => OrderDual.toDual (key a)) l.reverse :=
  List.pairwise_reverse.2 h

/-- What is up to a key comes first, what is beyond it last. -/
theorem Sorted.split (h : Sorted key l) (k : κ) :
    l = l.filter (fun a => key a ≤ k) ++ l.filter (fun a => k < key a) := by
  induction l with
  | nil => rfl
  | cons a l ih =>
    obtain ⟨ha, hl⟩ := List.pairwise_cons.1 h
    by_cases hk : key a ≤ k
    · rw [List.filter_cons_of_pos (by simpa using hk), List.filter_cons_of_neg (by simpa using hk), List.cons_append,
        ← ih hl]
    · -- then nothing after it is up to `k`
      have hlow : (a :: l).filter (fun a => key a ≤ k) = [] := by
        refine List.filter_eq_nil_iff.2 fun b hb => ?_
        rcases List.mem_cons.1 hb with rfl | hb
        · simpa using hk
        · simpa using lt_of_lt_of_le (not_le.1 hk) (ha b hb)
      have hhigh : (a :: l).filter (fun a => k < key a) = a :: l := by
        refine List.filter_eq_self.2 fun b hb => ?_
        rcases List.mem_cons.1 hb with rfl | hb
        · simpa using hk
        · simpa using lt_of_lt_of_le (not_le.1 hk) (ha b hb)
      rw [hlow, hhigh, List.nil_append]

/-! ## Folds -/

/-- An element that commutes with all before it may come first. -/
theorem foldl_append_cons {f : β → α → β} {a : α} {p q : List α}
    (hc : ∀ x ∈ p, ∀ b, f (f b x) a = f (f b a) x) (b : β) :
    (p ++ a :: q).foldl f b = (a :: (p ++ q)).foldl f b := by
  induction p generalizing b with
  | nil => rfl
  | cons x p ih =>
    simp only [List.cons_append, List.foldl_cons] at ih ⊢
    rw [ih (fun y hy => hc y (List.mem_cons_of_mem _ hy)), hc x List.mem_cons_self]

/-- Two sorted orders of one collection fold alike when elements of equal
key commute. -/
theorem Sorted.foldl_eq_of_perm {f : β → α → β} (h₁ : Sorted key l₁) (h₂ : Sorted key l₂) (hp : l₁.Perm l₂)
    (hc : ∀ x ∈ l₁, ∀ y ∈ l₁, key x = key y → ∀ b, f (f b x) y = f (f b y) x) (b : β) :
    l₁.foldl f b = l₂.foldl f b := by
  induction l₁ generalizing l₂ b with
  | nil => rw [hp.nil_eq]
  | cons a l₁ ih =>
    obtain ⟨ha, hs₁⟩ := List.pairwise_cons.1 h₁
    obtain ⟨p, q, rfl⟩ := List.append_of_mem (hp.mem_iff.1 List.mem_cons_self)
    obtain ⟨hs, haq, hpa⟩ := List.pairwise_append.1 h₂
    -- `a` has the least key, so what stands before it has the same
    have hpre : ∀ x ∈ p, x ∈ a :: l₁ ∧ key x = key a := by
      intro x hx
      have hm : x ∈ a :: l₁ := hp.mem_iff.2 (List.mem_append_left _ hx)
      refine ⟨hm, le_antisymm (hpa x hx a List.mem_cons_self) ?_⟩
      rcases List.mem_cons.1 hm with rfl | hm
      · exact le_refl _
      · exact ha x hm
    have hrest : l₁.Perm (p ++ q) := (List.perm_cons a).1 (hp.trans List.perm_middle)
    have hs₂ : Sorted key (p ++ q) :=
      List.pairwise_append.2 ⟨hs, (List.pairwise_cons.1 haq).2, fun x hx y hy => hpa x hx y (List.mem_cons_of_mem _ hy)⟩
    rw [foldl_append_cons fun x hx => hc x (hpre x hx).1 a List.mem_cons_self (hpre x hx).2]
    exact ih hs₁ hs₂ hrest (fun x hx y hy => hc x (List.mem_cons_of_mem _ hx) y (List.mem_cons_of_mem _ hy)) _

/-- Undoing, last first, what was done. -/
theorem foldl_reverse_foldl {f g : β → α → β} (h : ∀ a ∈ l, ∀ b, g (f b a) a = b) (b : β) :
    l.reverse.foldl g (l.foldl f b) = b := by
  induction l generalizing b with
  | nil => rfl
  | cons a l ih =>
    rw [List.foldl_cons, List.reverse_cons, List.foldl_append, ih fun x hx => h x (List.mem_cons_of_mem _ hx)]
    exact h a List.mem_cons_self b

end KeySort
