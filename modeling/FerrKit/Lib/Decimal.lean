/-
Decimal numerals of a fixed width: as many ASCII digits as the width says,
zeros in front. Such a numeral is determined by its number, and numerals of
one width are in the order of their numbers.
-/
import FerrKit.Lib.Wire

namespace Decimal

/-- `{:0width$}`. -/
def zeroPadded (width n : ℕ) : List Char :=
  List.replicate (width - (Nat.toDigits 10 n).length) '0' ++ Nat.toDigits 10 n

structure Numeral (width : ℕ) (ds : List Char) (n : ℕ) : Prop where
  length_eq : ds.length = width
  digits : ∀ c ∈ ds, c.isDigit = true
  value : Nat.ofDigitChars 10 ds 0 = n

theorem toNat_inj {c d : Char} (h : c.toNat = d.toNat) : c = d := Char.ext (UInt32.toNat_inj.1 h)

theorem ofDigitChars_cons_eq (c : Char) (ds : List Char) :
    Nat.ofDigitChars 10 (c :: ds) 0 = 10 ^ ds.length * (c.toNat - 48) + Nat.ofDigitChars 10 ds 0 := by
  rw [Nat.ofDigitChars_cons, Nat.ofDigitChars_eq_ofDigitChars_zero, Nat.mul_zero, Nat.zero_add]
  rfl

theorem ofDigitChars_lt_pow {ds : List Char} (h : ∀ c ∈ ds, c.isDigit = true) :
    Nat.ofDigitChars 10 ds 0 < 10 ^ ds.length := by
  induction ds with
  | nil => exact Nat.one_pos
  | cons c ds ih =>
    rw [List.forall_mem_cons] at h
    have hrest : Nat.ofDigitChars 10 ds 0 < 10 ^ ds.length := ih h.2
    have hdigit : c.toNat - 48 ≤ 9 := by
      have hbounds : _ ∧ c.toNat ≤ 57 := Wire.toNat_of_isDigit h.1
      omega
    rw [ofDigitChars_cons_eq, List.length_cons, Nat.pow_succ]
    have hhead : 10 ^ ds.length * (c.toNat - 48) ≤ 10 ^ ds.length * 9 := Nat.mul_le_mul_left _ hdigit
    omega

/-- A number never gets smaller by more digits. -/
theorem le_ofDigitChars (ds : List Char) (init : ℕ) : init ≤ Nat.ofDigitChars 10 ds init := by
  rw [Nat.ofDigitChars_eq_ofDigitChars_zero]
  have hpow : 1 ≤ 10 ^ ds.length := Nat.one_le_pow _ _ (by decide)
  exact (Nat.le_mul_of_pos_left init hpow).trans (Nat.le_add_right _ _)

/-- The first digit decides between two numerals of one width. -/
theorem ofDigitChars_lt_of_head_lt {c d : Char} {ds es : List Char} (hlen : ds.length = es.length)
    (hds : ∀ c ∈ ds, c.isDigit = true) (hc : 48 ≤ c.toNat) (h : c.toNat < d.toNat) :
    Nat.ofDigitChars 10 (c :: ds) 0 < Nat.ofDigitChars 10 (d :: es) 0 := by
  have hrest : Nat.ofDigitChars 10 ds 0 < 10 ^ ds.length := ofDigitChars_lt_pow hds
  have hhead : 10 ^ ds.length * (c.toNat - 48) + 10 ^ ds.length ≤ 10 ^ ds.length * (d.toNat - 48) := by
    rw [← Nat.mul_succ]
    exact Nat.mul_le_mul_left _ (by omega)
  rw [ofDigitChars_cons_eq, ofDigitChars_cons_eq, ← hlen]
  omega

/-- Where it is the same, the rest decides. -/
theorem lt_iff_ofDigitChars_lt {ds es : List Char} (hlen : ds.length = es.length) (hds : ∀ c ∈ ds, c.isDigit = true)
    (hes : ∀ c ∈ es, c.isDigit = true) : ds < es ↔ Nat.ofDigitChars 10 ds 0 < Nat.ofDigitChars 10 es 0 := by
  induction ds generalizing es with
  | nil =>
    obtain rfl : es = [] := List.length_eq_zero_iff.1 hlen.symm
    simp
  | cons c ds ih =>
    cases es with
    | nil => cases hlen
    | cons d es =>
      rw [List.forall_mem_cons] at hds hes
      have hrest : ds.length = es.length := Nat.succ.inj hlen
      have hc : 48 ≤ c.toNat := (Wire.toNat_of_isDigit hds.1).1
      have hd : 48 ≤ d.toNat := (Wire.toNat_of_isDigit hes.1).1
      have hlt : c < d ↔ c.toNat < d.toNat := Char.lt_def.trans UInt32.lt_iff_toNat_lt
      rw [List.cons_lt_cons_iff, ih hrest hds.2 hes.2, hlt]
      rcases Nat.lt_trichotomy c.toNat d.toNat with h | h | h
      · exact iff_of_true (.inl h) (ofDigitChars_lt_of_head_lt hrest hds.2 hc h)
      · obtain rfl : c = d := toNat_inj h
        rw [ofDigitChars_cons_eq, ofDigitChars_cons_eq, ← hrest]
        simp
      · have hgt := ofDigitChars_lt_of_head_lt hrest.symm hes.2 hd h
        refine iff_of_false ?_ (Nat.lt_asymm hgt)
        rintro (hlow | ⟨rfl, -⟩)
        · exact Nat.lt_asymm h hlow
        · exact Nat.lt_irrefl _ h

section Numeral

variable {width m n : ℕ} {ds es : List Char}

theorem Numeral.lt_pow (h : Numeral width ds n) : n < 10 ^ width := by
  rw [← h.value, ← h.length_eq]
  exact ofDigitChars_lt_pow h.digits

theorem Numeral.lt_iff (hd : Numeral width ds m) (he : Numeral width es n) : ds < es ↔ m < n := by
  rw [← hd.value, ← he.value]
  exact lt_iff_ofDigitChars_lt (hd.length_eq.trans he.length_eq.symm) hd.digits he.digits

theorem Numeral.eq (hd : Numeral width ds n) (he : Numeral width es n) : ds = es := by
  rcases lt_trichotomy ds es with h | h | h
  · exact absurd ((hd.lt_iff he).1 h) (Nat.lt_irrefl n)
  · exact h
  · exact absurd ((he.lt_iff hd).1 h) (Nat.lt_irrefl n)

theorem Numeral.eq_iff (hd : Numeral width ds m) (he : Numeral width es n) : ds = es ↔ m = n := by
  constructor
  · rintro rfl
    exact hd.value.symm.trans he.value
  · rintro rfl
    exact hd.eq he

theorem numeral_zeroPadded (hwidth : 0 < width) (hn : n < 10 ^ width) : Numeral width (zeroPadded width n) n where
  length_eq := by
    have hlen : (Nat.toDigits 10 n).length ≤ width := (Nat.length_toDigits_le_iff (by decide) hwidth).2 hn
    simp only [zeroPadded, List.length_append, List.length_replicate]
    omega
  digits c hc := by
    rcases List.mem_append.1 hc with hzero | hdigit
    · rw [(List.mem_replicate.1 hzero).2]
      decide
    · exact Nat.isDigit_of_mem_toDigits (by decide) (by decide) hdigit
  value := by
    rw [zeroPadded, Nat.ofDigitChars_append, Nat.ofDigitChars_replicate_zero, Nat.mul_zero,
      Nat.ofDigitChars_ten_toDigits]

theorem Numeral.eq_zeroPadded (hwidth : 0 < width) (h : Numeral width ds n) : ds = zeroPadded width n :=
  h.eq (numeral_zeroPadded hwidth h.lt_pow)

end Numeral

/-! ## Order of texts made of parts -/

theorem append_lt_append_iff {α : Type*} [LinearOrder α] {a b c d : List α} (hlen : a.length = b.length) :
    a ++ c < b ++ d ↔ a < b ∨ a = b ∧ c < d := by
  induction a generalizing b with
  | nil =>
    obtain rfl : b = [] := List.length_eq_zero_iff.1 hlen.symm
    simp
  | cons x a ih =>
    cases b with
    | nil => cases hlen
    | cons y b =>
      rw [List.cons_append, List.cons_append, List.cons_lt_cons_iff, List.cons_lt_cons_iff, ih (Nat.succ.inj hlen),
        List.cons.injEq]
      tauto

end Decimal
