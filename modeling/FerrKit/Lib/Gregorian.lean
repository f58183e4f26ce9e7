/-
The proleptic Gregorian calendar from the year 0 on. The day number of a date
counts the days before it; the order of dates by year, month and day is the
order of their day numbers (`dayNumber_lt_iff`), so it is chronological.
-/
import Mathlib.Algebra.Order.BigOperators.Group.Finset
import Mathlib.Data.Prod.Lex
import Mathlib.Order.Monotone.Basic

namespace Gregorian

def isLeap (year : ℕ) : Prop := 4 ∣ year ∧ (¬ 100 ∣ year ∨ 400 ∣ year)

instance (year : ℕ) : Decidable (isLeap year) := inferInstanceAs (Decidable (_ ∧ _))

def monthLength (year : ℕ) : ℕ → ℕ
  | 1 | 3 | 5 | 7 | 8 | 10 | 12 => 31
  | 4 | 6 | 9 | 11 => 30
  | 2 => if isLeap year then 29 else 28
  | _ => 0

theorem monthLength_le (year month : ℕ) : monthLength year month ≤ 31 := by
  unfold monthLength
  split <;> try decide
  split <;> decide

def yearLength (year : ℕ) : ℕ := ∑ i ∈ Finset.range 12, monthLength year (i + 1)

structure Date where
  year : ℕ
  month : ℕ
  day : ℕ
  exists_month : 1 ≤ month ∧ month ≤ 12
  exists_day : 1 ≤ day ∧ day ≤ monthLength year month

namespace Date

def daysBeforeMonth (year month : ℕ) : ℕ := ∑ i ∈ Finset.range (month - 1), monthLength year (i + 1)

/-- The days before it, since the first day of the year 0. -/
def dayNumber (d : Date) : ℕ :=
  (∑ year ∈ Finset.range d.year, yearLength year) + (daysBeforeMonth d.year d.month + (d.day - 1))

/-- Year, then month, then day. -/
def key (d : Date) : ℕ ×ₗ ℕ ×ₗ ℕ := toLex (d.year, toLex (d.month, d.day))

theorem key_injective : Function.Injective key := by
  rintro ⟨year, month, day, hm, hd⟩ ⟨year', month', day', hm', hd'⟩ he
  simp only [key, EmbeddingLike.apply_eq_iff_eq, Prod.mk.injEq] at he
  obtain ⟨rfl, rfl, rfl⟩ := he
  rfl

instance : LinearOrder Date := LinearOrder.lift' key key_injective

theorem lt_iff {d e : Date} : d < e ↔
    d.year < e.year ∨ d.year = e.year ∧ (d.month < e.month ∨ d.month = e.month ∧ d.day < e.day) := by
  have hkey : d < e ↔ d.key < e.key := Iff.rfl
  rw [hkey, key, key, Prod.Lex.toLex_lt_toLex, Prod.Lex.toLex_lt_toLex]

/-- What is counted up to an index, and less than the next of the counts, is
less than what is counted up to any later index. -/
theorem sum_add_lt {f : ℕ → ℕ} {i j x : ℕ} (hij : i < j) (hx : x < f i) :
    (∑ k ∈ Finset.range i, f k) + x < ∑ k ∈ Finset.range j, f k := by
  calc (∑ k ∈ Finset.range i, f k) + x < (∑ k ∈ Finset.range i, f k) + f i := by omega
    _ = ∑ k ∈ Finset.range (i + 1), f k := (Finset.sum_range_succ f i).symm
    _ ≤ ∑ k ∈ Finset.range j, f k :=
      Finset.sum_le_sum_of_subset (Finset.range_subset_range.2 hij)

theorem dayOfMonth_lt (d : Date) : d.day - 1 < monthLength d.year (d.month - 1 + 1) := by
  have hmonth := d.exists_month
  have hday := d.exists_day
  rw [show d.month - 1 + 1 = d.month by omega]
  omega

theorem dayOfYear_lt (d : Date) : daysBeforeMonth d.year d.month + (d.day - 1) < yearLength d.year := by
  have hmonth := d.exists_month
  exact sum_add_lt (f := fun i => monthLength d.year (i + 1)) (i := d.month - 1) (j := 12) (by omega) d.dayOfMonth_lt

theorem dayOfYear_lt_dayOfYear {d e : Date} (hyear : d.year = e.year) (hmonth : d.month < e.month) :
    daysBeforeMonth d.year d.month + (d.day - 1) < daysBeforeMonth e.year e.month + (e.day - 1) := by
  have hfirst := d.exists_month
  have hbefore : daysBeforeMonth d.year d.month + (d.day - 1) < daysBeforeMonth d.year e.month :=
    sum_add_lt (f := fun i => monthLength d.year (i + 1)) (by omega) d.dayOfMonth_lt
  rw [← hyear]
  omega

theorem dayNumber_strictMono : StrictMono dayNumber := by
  intro d e h
  rcases lt_iff.1 h with hyear | ⟨hyear, hmonth | ⟨hmonth, hday⟩⟩
  · exact (sum_add_lt hyear d.dayOfYear_lt).trans_le (Nat.le_add_right _ _)
  · have hlt := dayOfYear_lt_dayOfYear hyear hmonth
    rw [hyear] at hlt
    rw [dayNumber, dayNumber, hyear]
    omega
  · have hfirst := d.exists_day
    rw [dayNumber, dayNumber, hyear, hmonth]
    omega

theorem dayNumber_lt_iff {d e : Date} : d.dayNumber < e.dayNumber ↔ d < e := dayNumber_strictMono.lt_iff_lt

end Date

end Gregorian
