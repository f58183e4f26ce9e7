/-
The text of a contract version (`crates/api-version/src/version.rs`): what
`FromStr` accepts, that `Display` writes it back, and that the derived order
is that of the calendar and that of the texts.

`Spells` is the format, a text and the numbers it denotes; one lemma
(`fromStr_ok_iff`) says that the parser accepts what spells a date, and the
rest is about `Spells`. `fromStrPanicking` is `from_str` with the places
where the bytes are indexed and sliced, each of which may panic.
-/
import FerrKit.Api.Version
import FerrKit.Lib.Decimal
import FerrKit.Lib.Gregorian
import FerrKit.Lib.JsonText

namespace FerrKit.Api.ApiVersion

open Decimal

/-! ## The date -/

theorem mod_eq_zero_iff {year k : UInt16} : year % k = 0 ↔ k.toNat ∣ year.toNat := by
  rw [← UInt16.toNat_inj, UInt16.toNat_mod]
  exact Nat.dvd_iff_mod_eq_zero.symm

theorem isLeap_iff {year : UInt16} : isLeap year = true ↔ Gregorian.isLeap year.toNat := by
  rw [isLeap, Bool.and_eq_true, Bool.or_eq_true, beq_iff_eq, bne_iff_ne, beq_iff_eq, Ne, mod_eq_zero_iff,
    mod_eq_zero_iff, mod_eq_zero_iff]
  rfl

theorem one_le_toNat_iff {n : UInt8} : 1 ≤ n.toNat ↔ n ≠ 0 := by
  rw [Nat.one_le_iff_ne_zero, Ne, Ne, ← UInt8.toNat_inj]
  rfl

theorem daysInMonth_toNat {year : UInt16} {month : UInt8} (h : month ≤ 12) :
    (daysInMonth year month).toNat = Gregorian.monthLength year.toNat month.toNat := by
  have hle : month.toNat ≤ 12 := UInt8.le_iff_toNat_le.1 h
  obtain ⟨m, hm⟩ : ∃ m, m = month.toNat := ⟨_, rfl⟩
  obtain rfl : month = UInt8.ofNat m := by rw [hm, UInt8.ofNat_toNat]
  rw [← hm] at hle ⊢
  interval_cases m <;> simp [daysInMonth, Gregorian.monthLength, isLeap_iff]
  -- what is left is February
  split <;> rfl

/-- The date a version is. -/
def date (v : ApiVersion) : Gregorian.Date where
  year := v.year.toNat
  month := v.month.toNat
  day := v.day.toNat
  exists_month := by
    obtain ⟨hpos, hle⟩ := v.exists_month
    exact ⟨one_le_toNat_iff.2 hpos, UInt8.le_iff_toNat_le.1 hle⟩
  exists_day := by
    obtain ⟨hpos, hle⟩ := v.exists_day
    rw [← daysInMonth_toNat v.exists_month.2]
    exact ⟨one_le_toNat_iff.2 hpos, UInt8.le_iff_toNat_le.1 hle⟩

variable {v w : ApiVersion}

theorem lt_iff_date_lt : v < w ↔ v.date < w.date := Iff.rfl

theorem fromYmd_eq_some {year : UInt16} {month day : UInt8} :
    fromYmd year month day = some v ↔ v.year = year ∧ v.month = month ∧ v.day = day := by
  constructor
  · intro h
    unfold fromYmd at h
    split at h
    · cases h
    · split at h
      · cases h
      · cases h
        exact ⟨rfl, rfl, rfl⟩
  · rintro ⟨rfl, rfl, rfl⟩
    have hm : ¬ (v.month = 0 ∨ v.month > 12 ∨ v.day = 0) := by
      rintro (h | h | h)
      · exact v.exists_month.1 h
      · exact UInt8.not_lt.2 v.exists_month.2 h
      · exact v.exists_day.1 h
    rw [fromYmd, dif_neg hm, dif_neg (UInt8.not_lt.2 v.exists_day.2)]

/-- Every version is made of its parts. -/
theorem fromYmd_parts (v : ApiVersion) : fromYmd v.year v.month v.day = some v := fromYmd_eq_some.2 ⟨rfl, rfl, rfl⟩

/-! ## Digits -/

/-- A turn of the loop takes an ASCII digit only. -/
theorem pushDigit_some {b : UInt8} {init n : ℕ} (h : pushDigit init b = some n) :
    ∃ c : Char, c.isDigit = true ∧ c.toUInt8 = b ∧ 10 * init + (c.toNat - '0'.toNat) = n := by
  have hdigit : (48 ≤ b ∧ b ≤ 57) ∧ init * 10 + (b - 48).toNat = n := by
    unfold pushDigit at h
    split at h
    · next hdigit =>
      refine ⟨hdigit, ?_⟩
      simp only at h
      split at h
      · split at h
        · exact Option.some.inj h
        · cases h
      · cases h
    · cases h
  obtain ⟨⟨hlow, hhigh⟩, hsum⟩ := hdigit
  have hval : (Char.ofUInt8 b).toNat = b.toNat := Wire.toNat_ofUInt8 b
  rw [UInt8.le_iff_toNat_le] at hlow hhigh
  refine ⟨Char.ofUInt8 b, ?_, ?_, ?_⟩
  · simp only [Char.isDigit, Bool.and_eq_true, decide_eq_true_eq]
    exact ⟨UInt32.le_iff_toNat_le.2 (hlow.trans_eq hval.symm), UInt32.le_iff_toNat_le.2 (hval.trans_le hhigh)⟩
  · exact Wire.toUInt8_ofUInt8 b
  · rw [UInt8.toNat_sub_of_le _ _ (UInt8.le_iff_toNat_le.2 hlow)] at hsum
    rw [hval]
    exact (by omega : 10 * init + (b.toNat - 48) = init * 10 + (b.toNat - 48)).trans hsum

theorem pushDigit_digit {c : Char} (hc : c.isDigit = true) {init : ℕ}
    (hfits : 10 * init + (c.toNat - '0'.toNat) < 2 ^ 16) :
    pushDigit init c.toUInt8 = some (10 * init + (c.toNat - '0'.toNat)) := by
  have hbounds : 48 ≤ c.toNat ∧ c.toNat ≤ 57 := Wire.toNat_of_isDigit hc
  have hbyte : c.toUInt8.toNat = c.toNat := Wire.toNat_toUInt8_of_ascii (hbounds.2.trans_lt (by decide))
  have hlow : 48 ≤ c.toUInt8 := UInt8.le_iff_toNat_le.2 (hbyte ▸ hbounds.1)
  have hhigh : c.toUInt8 ≤ 57 := UInt8.le_iff_toNat_le.2 (hbyte ▸ hbounds.2)
  have hdigit : (c.toUInt8 - 48).toNat = c.toNat - '0'.toNat := by
    rw [UInt8.toNat_sub_of_le _ _ hlow, hbyte]
    rfl
  have hshift : init * 10 < 2 ^ 16 := by omega
  have hsum : init * 10 + (c.toNat - '0'.toNat) < 2 ^ 16 := by omega
  rw [pushDigit, if_pos ⟨hlow, hhigh⟩]
  simp only [hdigit, if_pos hshift, if_pos hsum, Nat.mul_comm]

/-- The loop of `parse_digits` reads ASCII digits only, and their number. -/
theorem foldlM_pushDigit_some {bs : List UInt8} {init n : ℕ} (h : bs.foldlM pushDigit init = some n) :
    ∃ ds : List Char, ds.map Char.toUInt8 = bs ∧ (∀ c ∈ ds, c.isDigit = true) ∧
      Nat.ofDigitChars 10 ds init = n := by
  induction bs generalizing init with
  | nil => exact ⟨[], rfl, by simp, Option.some.inj h⟩
  | cons b bs ih =>
    rw [List.foldlM_cons] at h
    obtain ⟨next, hpush, hrest⟩ := Option.bind_eq_some_iff.1 h
    obtain ⟨c, hc, rfl, rfl⟩ := pushDigit_some hpush
    obtain ⟨ds, rfl, hds, hn⟩ := ih hrest
    exact ⟨c :: ds, rfl, List.forall_mem_cons.2 ⟨hc, hds⟩, hn⟩

theorem foldlM_pushDigit_digits {ds : List Char} (hds : ∀ c ∈ ds, c.isDigit = true) {init : ℕ}
    (hfits : Nat.ofDigitChars 10 ds init < 2 ^ 16) :
    (ds.map Char.toUInt8).foldlM pushDigit init = some (Nat.ofDigitChars 10 ds init) := by
  induction ds generalizing init with
  | nil => rfl
  | cons c ds ih =>
    rw [List.forall_mem_cons] at hds
    rw [Nat.ofDigitChars_cons] at hfits ⊢
    rw [List.map_cons, List.foldlM_cons, pushDigit_digit hds.1 ((le_ofDigitChars ds _).trans_lt hfits)]
    exact ih hds.2 hfits

theorem parseDigits_numeral {width n : ℕ} {ds : List Char} (h : Numeral width ds n) (hwidth : width ≤ 4) :
    parseDigits (ds.map Char.toUInt8) = some n := by
  have hfits : Nat.ofDigitChars 10 ds 0 < 2 ^ 16 := by
    rw [h.value]
    exact h.lt_pow.trans_le ((Nat.pow_le_pow_right (by decide) hwidth).trans (by decide))
  rw [parseDigits, foldlM_pushDigit_digits h.digits hfits, h.value]

theorem numeral_of_parseDigits {bs : List UInt8} {n : ℕ} (h : parseDigits bs = some n) :
    ∃ ds : List Char, ds.map Char.toUInt8 = bs ∧ Numeral bs.length ds n := by
  obtain ⟨ds, rfl, hds, hn⟩ := foldlM_pushDigit_some h
  exact ⟨ds, rfl, by simp, hds, hn⟩

/-! ## The format -/

/-- `DDDD-DD-DD` in ASCII digits. -/
def spelling (ys ms ds : List Char) : List Char := ys ++ '-' :: (ms ++ '-' :: ds)

/-- The text is of that form, and its digits denote the date. -/
def Spells (raw : String) (d : Gregorian.Date) : Prop :=
  ∃ ys ms ds, raw = String.ofList (spelling ys ms ds) ∧ Numeral 4 ys d.year ∧ Numeral 2 ms d.month ∧
    Numeral 2 ds d.day

theorem ascii_of_digits {ds : List Char} (h : ∀ c ∈ ds, c.isDigit = true) : ∀ c ∈ ds, c.val.toNat < 128 :=
  fun c hc => (Wire.toNat_of_isDigit (h c hc)).2.trans_lt (by decide)

theorem ascii_spelling {ys ms ds : List Char} {y m d : ℕ} (hy : Numeral 4 ys y) (hm : Numeral 2 ms m)
    (hd : Numeral 2 ds d) : ∀ c ∈ spelling ys ms ds, c.val.toNat < 128 := by
  simp only [spelling, List.forall_mem_append, List.forall_mem_cons]
  exact ⟨ascii_of_digits hy.digits, by decide, ascii_of_digits hm.digits, by decide, ascii_of_digits hd.digits⟩

/-- The parser on a text of that form: the numbers, then the calendar. -/
theorem fromBytes_spelling {ys ms ds : List Char} {y m d : ℕ} (hy : Numeral 4 ys y) (hm : Numeral 2 ms m)
    (hd : Numeral 2 ds d) :
    fromBytes ((spelling ys ms ds).map Char.toUInt8) =
      match fromYmd (.ofNat y) (.ofNat m) (.ofNat d) with
      | some v => .ok v
      | none => .error .notACalendarDate := by
  have hyear := parseDigits_numeral hy (by decide)
  have hmonth := parseDigits_numeral hm (by decide)
  have hday := parseDigits_numeral hd (by decide)
  obtain ⟨y1, y2, y3, y4, rfl⟩ := List.length_eq_four.1 hy.length_eq
  obtain ⟨m1, m2, rfl⟩ := List.length_eq_two.1 hm.length_eq
  obtain ⟨d1, d2, rfl⟩ := List.length_eq_two.1 hd.length_eq
  simp only [List.map_cons, List.map_nil] at hyear hmonth hday
  have hdash : '-'.toUInt8 = 45 := rfl
  simp only [fromBytes, spelling, List.map_cons, List.map_nil, List.cons_append, List.nil_append, hdash]
  simp only [List.length_cons, List.length_nil, List.getElem?_cons_succ, List.getElem?_cons_zero, List.take_succ_cons,
    List.take_zero, List.drop_succ_cons, List.drop_zero, hyear, hmonth, hday]
  cases fromYmd (.ofNat y) (.ofNat m) (.ofNat d) <;> rfl

theorem split_dashes {bs : List UInt8} (hlen : bs.length = 10) (h4 : bs[4]? = some 45) (h7 : bs[7]? = some 45) :
    bs = bs.take 4 ++ 45 :: ((bs.drop 5).take 2 ++ 45 :: (bs.drop 8).take 2) := by
  obtain ⟨hlt4, hat4⟩ := List.getElem?_eq_some_iff.1 h4
  obtain ⟨hlt7, hat7⟩ := List.getElem?_eq_some_iff.1 h7
  have hrest4 : bs.drop 4 = 45 :: bs.drop 5 := by rw [List.drop_eq_getElem_cons hlt4, hat4]
  have hrest7 : bs.drop 7 = 45 :: bs.drop 8 := by rw [List.drop_eq_getElem_cons hlt7, hat7]
  have hend : (bs.drop 8).take 2 = bs.drop 8 := List.take_of_length_le (by simp [hlen])
  calc bs = bs.take 4 ++ bs.drop 4 := (List.take_append_drop 4 bs).symm
    _ = bs.take 4 ++ 45 :: ((bs.drop 5).take 2 ++ (bs.drop 5).drop 2) := by rw [hrest4, List.take_append_drop]
    _ = bs.take 4 ++ 45 :: ((bs.drop 5).take 2 ++ 45 :: (bs.drop 8).take 2) := by rw [List.drop_drop, hrest7, hend]

/-- What the parser accepts is of that form. -/
theorem spelling_of_fromBytes {bs : List UInt8} (h : fromBytes bs = .ok v) :
    ∃ ys ms ds, bs = (spelling ys ms ds).map Char.toUInt8 ∧ Numeral 4 ys v.year.toNat ∧
      Numeral 2 ms v.month.toNat ∧ Numeral 2 ds v.day.toNat := by
  unfold fromBytes at h
  split at h
  · cases h
  · next hshape =>
    simp only [not_or, not_not] at hshape
    obtain ⟨hlen, h4, h7⟩ := hshape
    split at h
    · next y m d hyear hmonth hday =>
      split at h
      · next v' hv =>
        cases h
        obtain ⟨hvy, hvm, hvd⟩ := fromYmd_eq_some.1 hv
        obtain ⟨ys, hys, hy⟩ := numeral_of_parseDigits hyear
        obtain ⟨ms, hms, hm⟩ := numeral_of_parseDigits hmonth
        obtain ⟨ds, hds, hd⟩ := numeral_of_parseDigits hday
        simp only [List.length_take, List.length_drop, hlen] at hy hm hd
        refine ⟨ys, ms, ds, ?_, ?_, ?_, ?_⟩
        · calc bs = ys.map Char.toUInt8 ++ 45 :: (ms.map Char.toUInt8 ++ 45 :: ds.map Char.toUInt8) := by
                rw [hys, hms, hds, ← split_dashes hlen h4 h7]
            _ = (spelling ys ms ds).map Char.toUInt8 := by
                rw [spelling, List.map_append, List.map_cons, List.map_append, List.map_cons]
                rfl
        · rwa [hvy, UInt16.toNat_ofNat_of_lt' (hy.lt_pow.trans (by decide))]
        · rwa [hvm, UInt8.toNat_ofNat_of_lt' (hm.lt_pow.trans (by decide))]
        · rwa [hvd, UInt8.toNat_ofNat_of_lt' (hd.lt_pow.trans (by decide))]
      · cases h
    · cases h

theorem fromStr_ok_iff {raw : String} : fromStr raw = .ok v ↔ Spells raw v.date := by
  constructor
  · intro h
    obtain ⟨ys, ms, ds, hbytes, hy, hm, hd⟩ := spelling_of_fromBytes h
    rw [← Wire.bytes_of_ascii (ascii_spelling hy hm hd)] at hbytes
    exact ⟨ys, ms, ds, Wire.bytes_injective hbytes, hy, hm, hd⟩
  · rintro ⟨ys, ms, ds, rfl, hy, hm, hd⟩
    have hparts : fromYmd (.ofNat v.date.year) (.ofNat v.date.month) (.ofNat v.date.day) = some v := by
      rw [fromYmd_eq_some]
      exact ⟨UInt16.ofNat_toNat.symm, UInt8.ofNat_toNat.symm, UInt8.ofNat_toNat.symm⟩
    have hbytes := fromBytes_spelling hy hm hd
    rw [hparts, ← Wire.bytes_of_ascii (ascii_spelling hy hm hd)] at hbytes
    exact hbytes

/-! ## The texts and the calendar -/

section Spells

variable {raw raw' : String} {d d' : Gregorian.Date}

theorem Spells.year_lt (h : Spells raw d) : d.year < 10 ^ 4 := by
  obtain ⟨ys, ms, ds, -, hy, -, -⟩ := h
  exact hy.lt_pow

/-- A date that is written with four digits is the date of a version. -/
theorem exists_of_date (hyear : d.year < 10 ^ 4) : ∃ v : ApiVersion, v.date = d := by
  obtain ⟨year, month, day, ⟨hmpos, hmle⟩, hdpos, hdle⟩ := d
  have hyear' : (UInt16.ofNat year).toNat = year := UInt16.toNat_ofNat_of_lt' (hyear.trans (by decide))
  have hmonth' : (UInt8.ofNat month).toNat = month := UInt8.toNat_ofNat_of_lt' (hmle.trans_lt (by decide))
  have hday : day < UInt8.size := (hdle.trans (Gregorian.monthLength_le year month)).trans_lt (by decide)
  have hday' : (UInt8.ofNat day).toNat = day := UInt8.toNat_ofNat_of_lt' hday
  have hle12 : UInt8.ofNat month ≤ 12 := UInt8.le_iff_toNat_le.2 (hmonth'.trans_le hmle)
  have hmonth0 : UInt8.ofNat month ≠ 0 := one_le_toNat_iff.1 (hmpos.trans_eq hmonth'.symm)
  have hday0 : UInt8.ofNat day ≠ 0 := one_le_toNat_iff.1 (hdpos.trans_eq hday'.symm)
  refine ⟨⟨UInt16.ofNat year, UInt8.ofNat month, UInt8.ofNat day, ⟨hmonth0, hle12⟩, hday0, ?_⟩, ?_⟩
  · rw [UInt8.le_iff_toNat_le, daysInMonth_toNat hle12, hyear', hmonth', hday']
    exact hdle
  · simp only [date, hyear', hmonth', hday']

theorem display_eq (v : ApiVersion) :
    v.display = String.ofList (spelling (zeroPadded 4 v.year.toNat) (zeroPadded 2 v.month.toNat)
      (zeroPadded 2 v.day.toNat)) := by
  have hpadded : ∀ width n, padded width n = String.ofList (zeroPadded width n) := fun _ _ => rfl
  simp [display, spelling, hpadded, ← String.toList_inj]

/-- A text that denotes the date of a version is what `Display` writes. -/
theorem Spells.eq_display (h : Spells raw v.date) : raw = v.display := by
  obtain ⟨ys, ms, ds, rfl, hy, hm, hd⟩ := h
  rw [display_eq, hy.eq_zeroPadded (by decide), hm.eq_zeroPadded (by decide), hd.eq_zeroPadded (by decide)]
  rfl

theorem spells_display (hyear : v.year.toNat < 10 ^ 4) : Spells v.display v.date := by
  have hmonth : v.month.toNat < 10 ^ 2 := v.date.exists_month.2.trans_lt (by decide)
  have hday : v.day.toNat < 10 ^ 2 :=
    (v.date.exists_day.2.trans (Gregorian.monthLength_le _ _)).trans_lt (by decide)
  exact ⟨_, _, _, display_eq v, numeral_zeroPadded (by decide) hyear, numeral_zeroPadded (by decide) hmonth,
    numeral_zeroPadded (by decide) hday⟩

/-- Texts are ordered as the dates they denote, digit by digit. -/
theorem Spells.bytes_lt_iff (h : Spells raw d) (h' : Spells raw' d') : Wire.bytes raw < Wire.bytes raw' ↔ d < d' := by
  obtain ⟨ys, ms, ds, rfl, hy, hm, hd⟩ := h
  obtain ⟨ys', ms', ds', rfl, hy', hm', hd'⟩ := h'
  have hylen : ys.length = ys'.length := hy.length_eq.trans hy'.length_eq.symm
  have hmlen : ms.length = ms'.length := hm.length_eq.trans hm'.length_eq.symm
  rw [Wire.bytes_of_ascii (ascii_spelling hy hm hd), Wire.bytes_of_ascii (ascii_spelling hy' hm' hd'),
    Wire.map_toUInt8_lt_iff (ascii_spelling hy hm hd) (ascii_spelling hy' hm' hd'), spelling, spelling,
    append_lt_append_iff hylen, List.cons_lt_cons_iff, append_lt_append_iff hmlen, List.cons_lt_cons_iff,
    hy.lt_iff hy', hm.lt_iff hm', hd.lt_iff hd', hy.eq_iff hy', hm.eq_iff hm', Gregorian.Date.lt_iff]
  simp

end Spells

/-! ## Panics -/

/-- `bytes[i..j]`, or a panic. -/
def slice (bytes : List UInt8) (i j : Nat) : Option (List UInt8) :=
  if i ≤ j ∧ j ≤ bytes.length then some ((bytes.drop i).take (j - i)) else none

/-- `u8::try_from`, of a `u16`. -/
def u8TryFrom (n : Nat) : Option UInt8 := if n < 2 ^ 8 then some (.ofNat n) else none

/-- The rest of `from_str`, once the digits have been sliced. -/
def fromDigits (year month day : List UInt8) : Except ParseError ApiVersion := do
  let some year := parseDigits year | .error .malformed
  let some month := parseDigits month | .error .malformed
  let some day := parseDigits day | .error .malformed
  let some month := u8TryFrom month | .error .notACalendarDate
  let some day := u8TryFrom day | .error .notACalendarDate
  match fromYmd (.ofNat year) month day with
  | some v => .ok v
  | none => .error .notACalendarDate

/-- `FromStr`, or `none` where it panics. -/
def fromStrPanicking (raw : String) : Option (Except ParseError ApiVersion) := do
  let bytes := Wire.bytes raw
  if bytes.length ≠ 10 then return .error .malformed
  if (← bytes[4]?) ≠ 45 then return .error .malformed
  if (← bytes[7]?) ≠ 45 then return .error .malformed
  return fromDigits (← slice bytes 0 4) (← slice bytes 5 7) (← slice bytes 8 10)

/-- Two digits fit a `u8`. -/
theorem u8TryFrom_digits {bs : List UInt8} {n : ℕ} (hlen : bs.length ≤ 2) (h : parseDigits bs = some n) :
    u8TryFrom n = some (.ofNat n) := by
  obtain ⟨ds, -, hn⟩ := numeral_of_parseDigits h
  have hsmall : n < 10 ^ 2 := hn.lt_pow.trans_le (Nat.pow_le_pow_right (by decide) hlen)
  exact if_pos (hsmall.trans (by decide))

theorem fromDigits_slices {bs : List UInt8} (hlen : bs.length = 10) (h4 : bs[4]? = some 45) (h7 : bs[7]? = some 45) :
    fromDigits (bs.take 4) ((bs.drop 5).take 2) ((bs.drop 8).take 2) = fromBytes bs := by
  have hshape : ¬ (bs.length ≠ 10 ∨ bs[4]? ≠ some 45 ∨ bs[7]? ≠ some 45) := by
    rw [not_or, not_or, not_not, not_not, not_not]
    exact ⟨hlen, h4, h7⟩
  rw [fromBytes, if_neg hshape, fromDigits]
  cases parseDigits (bs.take 4) with
  | none => rfl
  | some y =>
    cases hm : parseDigits ((bs.drop 5).take 2) with
    | none => rfl
    | some m =>
      cases hd : parseDigits ((bs.drop 8).take 2) with
      | none => rfl
      | some d =>
        have hmonth := u8TryFrom_digits (List.length_take_le _ _) hm
        have hday := u8TryFrom_digits (List.length_take_le _ _) hd
        cases hv : fromYmd (.ofNat y) (.ofNat m) (.ofNat d) with
        | none => simp only [hmonth, hday, hv]
        | some v => simp only [hmonth, hday, hv]

/-- Every index and every slice is within the bytes. -/
theorem fromStrPanicking_eq (raw : String) : fromStrPanicking raw = some (fromStr raw) := by
  have hstr : fromStr raw = fromBytes (Wire.bytes raw) := rfl
  rw [hstr, fromStrPanicking]
  generalize Wire.bytes raw = bs
  by_cases hlen : bs.length = 10
  · have hx : bs[4]? = some bs[4] := List.getElem?_eq_getElem (by omega)
    have hy : bs[7]? = some bs[7] := List.getElem?_eq_getElem (by omega)
    have hyear : slice bs 0 4 = some (bs.take 4) := by simp [slice, hlen]
    have hmonth : slice bs 5 7 = some ((bs.drop 5).take 2) := by simp [slice, hlen]
    have hday : slice bs 8 10 = some ((bs.drop 8).take 2) := by simp [slice, hlen]
    by_cases h4 : bs[4] = 45
    · by_cases h7 : bs[7] = 45
      · have hdigits := fromDigits_slices hlen (hx.trans (congrArg some h4)) (hy.trans (congrArg some h7))
        simp [hlen, h4, h7, hyear, hmonth, hday, hdigits]
      · simp [hlen, h4, h7, fromBytes]
    · simp [hlen, h4, fromBytes]
  · simp [hlen, fromBytes]

/-! ## The results -/

/-- **The parser is exact.** It never panics; it accepts the texts that denote
a date of the calendar, and no others; what it accepts is written back as it
was; and the order of versions is chronological and that of their texts. -/
theorem fromStr_exact :
    (∀ raw, fromStrPanicking raw = some (fromStr raw)) ∧
      (∀ raw, (∃ v, fromStr raw = .ok v) ↔ ∃ d, Spells raw d) ∧
      (∀ raw v, fromStr raw = .ok v → Spells raw v.date ∧ v.display = raw) ∧
      ∀ raw raw' v w, fromStr raw = .ok v → fromStr raw' = .ok w →
        (v < w ↔ v.date.dayNumber < w.date.dayNumber) ∧ (v < w ↔ Wire.bytes raw < Wire.bytes raw') := by
  refine ⟨fromStrPanicking_eq, fun raw => ⟨?_, ?_⟩, fun raw v h => ?_, fun raw raw' v w hv hw => ⟨?_, ?_⟩⟩
  · rintro ⟨v, hv⟩
    exact ⟨v.date, fromStr_ok_iff.1 hv⟩
  · rintro ⟨d, hd⟩
    obtain ⟨v, rfl⟩ := exists_of_date hd.year_lt
    exact ⟨v, fromStr_ok_iff.2 hd⟩
  · have hspells := fromStr_ok_iff.1 h
    exact ⟨hspells, hspells.eq_display.symm⟩
  · rw [lt_iff_date_lt, Gregorian.Date.dayNumber_lt_iff]
  · rw [lt_iff_date_lt, (fromStr_ok_iff.1 hv).bytes_lt_iff (fromStr_ok_iff.1 hw)]

/-- A century is a leap year only when 400 divides it. -/
example : (fromStr "2000-02-29").isOk ∧ fromStr "1900-02-29" = .error .notACalendarDate := by decide +kernel

/-! ## Serde -/

/-- `collect_str`. -/
def serialize (v : ApiVersion) : List Char := JsonText.encode v.display.toList

def deserialize (visited : JsonText.Visited) : Except JsonText.DeError ApiVersion := do
  let raw ← visited.string
  match fromStr raw with
  | .ok v => .ok v
  | .error e => .error (.custom e.display)

theorem fromText_serialize_ok_iff (v : ApiVersion) (source : JsonText.Source) :
    JsonText.fromText deserialize source v.serialize = .ok v ↔ fromStr v.display = .ok v := by
  obtain ⟨visited, hvisit, htext⟩ := JsonText.visit_text source (JsonText.decode_encode v.display.toList)
  have hread : JsonText.fromText deserialize source v.serialize = deserialize visited := by
    rw [JsonText.fromText, serialize, hvisit]
  have hparse : deserialize visited =
      match fromStr v.display with
      | .ok v => .ok v
      | .error e => .error (.custom e.display) := by rw [← htext]; rfl
  rw [hread, hparse]
  cases fromStr v.display <;> simp

theorem year_lt_iff : v.year.toNat < 10 ^ 4 ↔ v.year ≤ 9999 := by
  rw [UInt16.le_iff_toNat_le]
  exact Nat.lt_succ_iff

/-- **Four digits are read back.** A version of any year can be made of its
parts; its text is read back, as it is and through serde, exactly when its
year has four digits, which it has when it was read. -/
theorem version_round_trip_iff (v : ApiVersion) (source : JsonText.Source) :
    (∃ year month day, fromYmd year month day = some v) ∧ (∀ raw, fromStr raw = .ok v → v.year ≤ 9999) ∧
      (fromStr v.display = .ok v ↔ v.year ≤ 9999) ∧
      (JsonText.fromText deserialize source v.serialize = .ok v ↔ v.year ≤ 9999) := by
  have hdisplay : fromStr v.display = .ok v ↔ v.year ≤ 9999 := by
    rw [fromStr_ok_iff, ← year_lt_iff]
    exact ⟨Spells.year_lt, spells_display⟩
  refine ⟨⟨_, _, _, fromYmd_parts v⟩, fun raw h => ?_, hdisplay, (fromText_serialize_ok_iff v source).trans hdisplay⟩
  exact year_lt_iff.1 (fromStr_ok_iff.1 h).year_lt

/-- New Year's Day of the year 10000. -/
theorem tenThousand_refused :
    ∃ v, fromYmd 10000 1 1 = some v ∧ v.display = "10000-01-01" ∧ fromStr v.display = .error .malformed ∧
      JsonText.fromText deserialize .slice v.serialize =
        .error (.custom "expected a version of the form YYYY-MM-DD") :=
  ⟨_, rfl, by decide +kernel⟩

end FerrKit.Api.ApiVersion
