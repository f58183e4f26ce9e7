/-
Texts on the wire: UTF-8 bytes, decimal integers as `Display` writes and
`i64::from_str` reads them, and hexadecimal as the `hex` crate has it.
-/
import Mathlib

namespace Wire

/-! ## Bytes -/

/-- `str::as_bytes`. -/
def bytes (s : String) : List UInt8 := s.toByteArray.data.toList

theorem bytes_append (s t : String) : bytes (s ++ t) = bytes s ++ bytes t := by
  simp [bytes, String.toByteArray_append]

theorem bytes_injective {s t : String} (h : bytes s = bytes t) : s = t := by
  refine String.toByteArray_inj.1 (ByteArray.ext ?_)
  exact Array.toList_inj.1 h

theorem bytes_ofList (cs : List Char) : bytes (String.ofList cs) = cs.flatMap String.utf8EncodeChar := by
  simp [bytes, String.toByteArray_ofList, List.utf8Encode]

theorem mem_bytes {s : String} {x : UInt8} : x ∈ bytes s ↔ ∃ c ∈ s.toList, x ∈ String.utf8EncodeChar c := by
  rw [← String.ofList_toList (s := s), bytes_ofList, List.mem_flatMap, String.toList_ofList]

/-- An ASCII character is one byte. -/
theorem utf8EncodeChar_of_ascii {c : Char} (h : c.val.toNat < 128) : String.utf8EncodeChar c = [c.val.toUInt8] := by
  refine String.utf8EncodeChar_eq_singleton ?_
  rw [Char.utf8Size, if_pos]
  exact UInt32.le_iff_toNat_le.2 (Nat.le_of_lt_succ h)

/-- A text in ASCII, byte by byte. -/
theorem bytes_of_ascii {cs : List Char} (h : ∀ c ∈ cs, c.val.toNat < 128) :
    bytes (String.ofList cs) = cs.map Char.toUInt8 := by
  rw [bytes_ofList]
  induction cs with
  | nil => rfl
  | cons c cs ih =>
    rw [List.forall_mem_cons] at h
    rw [List.flatMap_cons, utf8EncodeChar_of_ascii h.1, ih h.2]
    rfl

theorem toNat_toUInt8_of_ascii {c : Char} (h : c.val.toNat < 128) : c.toUInt8.toNat = c.val.toNat := by
  rw [Char.toUInt8, UInt32.toNat_toUInt8]
  omega

theorem toNat_ofUInt8 (b : UInt8) : (Char.ofUInt8 b).val.toNat = b.toNat := UInt8.toNat_toUInt32 b

theorem toUInt8_ofUInt8 (b : UInt8) : (Char.ofUInt8 b).toUInt8 = b := UInt8.toUInt8_toUInt32 b

/-- The order of two texts in ASCII, as characters and as bytes. -/
theorem map_toUInt8_lt_iff {cs ds : List Char} (hc : ∀ c ∈ cs, c.val.toNat < 128) (hd : ∀ c ∈ ds, c.val.toNat < 128) :
    cs.map Char.toUInt8 < ds.map Char.toUInt8 ↔ cs < ds := by
  induction cs generalizing ds with
  | nil => cases ds <;> simp
  | cons c cs ih =>
    cases ds with
    | nil => simp
    | cons d ds =>
      rw [List.forall_mem_cons] at hc hd
      have hlt : c.toUInt8 < d.toUInt8 ↔ c < d := by
        rw [UInt8.lt_iff_toNat_lt, toNat_toUInt8_of_ascii hc.1, toNat_toUInt8_of_ascii hd.1, Char.lt_def,
          UInt32.lt_iff_toNat_lt]
      have heq : c.toUInt8 = d.toUInt8 ↔ c = d := by
        rw [← UInt8.toNat_inj, toNat_toUInt8_of_ascii hc.1, toNat_toUInt8_of_ascii hd.1, UInt32.toNat_inj]
        exact ⟨Char.ext, congrArg _⟩
      rw [List.map_cons, List.map_cons, List.cons_lt_cons_iff, List.cons_lt_cons_iff, hlt, heq, ih hc.2 hd.2]

/-- The first separator is where the part before it ends, if that part has
none. -/
theorem append_cons_inj {α : Type} {x : α} : ∀ {a a' b b' : List α}, x ∉ a → x ∉ a' → a ++ x :: b = a' ++ x :: b' →
    a = a' ∧ b = b'
  | [], [], _, _, _, _, h => ⟨rfl, (List.cons.inj h).2⟩
  | [], y :: a', _, _, _, ha', h => by
    cases (List.cons.inj h).1
    exact absurd (List.mem_cons_self ..) ha'
  | y :: a, [], _, _, ha, _, h => by
    cases (List.cons.inj h).1
    exact absurd (List.mem_cons_self ..) ha
  | y :: a, y' :: a', _, _, ha, ha', h => by
    obtain ⟨rfl, htail⟩ := List.cons.inj h
    obtain ⟨rfl, rfl⟩ := append_cons_inj (fun hm => ha (List.mem_cons_of_mem _ hm))
      (fun hm => ha' (List.mem_cons_of_mem _ hm)) htail
    exact ⟨rfl, rfl⟩

/-! ## Decimal integers -/

theorem isDigit_of_mem_repr {n : Nat} {c : Char} (h : c ∈ n.repr.toList) : c.isDigit = true := by
  rw [Nat.toList_repr] at h
  exact Nat.isDigit_of_mem_toDigits (by decide) (by decide) h

/-- What a decimal is written with. -/
theorem digit_or_minus_of_mem {n : Int} {c : Char} (h : c ∈ (toString n).toList) : c.isDigit = true ∨ c = '-' := by
  rw [Int.toString_eq_repr] at h
  cases n with
  | ofNat m => exact .inl (isDigit_of_mem_repr h)
  | negSucc m =>
    rw [show (Int.negSucc m).repr = "-" ++ m.succ.repr from rfl, String.toList_append, List.mem_append] at h
    obtain hsign | hdigit := h
    · exact .inr (by simpa using hsign)
    · exact .inl (isDigit_of_mem_repr hdigit)

theorem toString_injective {m n : Int} (h : toString m = toString n) : m = n := by
  rw [Int.toString_eq_repr, Int.toString_eq_repr] at h
  exact Int.repr_injective h

theorem toNat_of_isDigit {c : Char} (h : c.isDigit = true) : 48 ≤ c.val.toNat ∧ c.val.toNat ≤ 57 := by
  simp only [Char.isDigit, Bool.and_eq_true, decide_eq_true_eq] at h
  exact ⟨UInt32.le_iff_toNat_le.1 h.1, UInt32.le_iff_toNat_le.1 h.2⟩

theorem dot_notMem_toString (n : Int) : 0x2e ∉ bytes (toString n) := by
  intro h
  obtain ⟨c, hc, hx⟩ := mem_bytes.1 h
  obtain hdigit | rfl := digit_or_minus_of_mem hc
  · have hbounds := toNat_of_isDigit hdigit
    rw [utf8EncodeChar_of_ascii (by omega), List.mem_singleton] at hx
    have hbyte : 46 = c.val.toNat % 256 := (congrArg UInt8.toNat hx).trans (UInt32.toNat_toUInt8 c.val)
    omega
  · revert hx
    decide

/-- The digits of `from_str_radix(_, 10)`. -/
def parseDigits (ds : List Char) : Option Nat :=
  if ds ≠ [] ∧ ds.all Char.isDigit then some (Nat.ofDigitChars 10 ds 0) else none

/-- `str::parse::<i64>`. -/
def parseI64 (s : String) : Option Int :=
  match s.toList with
  | '-' :: ds => (parseDigits ds).bind fun n => if n ≤ 2 ^ 63 then some (-n : Int) else none
  | '+' :: ds => (parseDigits ds).bind fun n => if n < 2 ^ 63 then some (n : Int) else none
  | ds => (parseDigits ds).bind fun n => if n < 2 ^ 63 then some (n : Int) else none

theorem parseDigits_toDigits (n : Nat) : parseDigits (Nat.toDigits 10 n) = some n := by
  have hdigits : (Nat.toDigits 10 n).all Char.isDigit = true :=
    List.all_eq_true.2 fun c hc => Nat.isDigit_of_mem_toDigits (by decide) (by decide) hc
  rw [parseDigits, if_pos ⟨Nat.toDigits_ne_nil, hdigits⟩, Nat.ofDigitChars_ten_toDigits]

/-- A decimal is read back as it was written. -/
theorem parseI64_toString {n : Int} (hlow : -2 ^ 63 ≤ n) (hhigh : n < 2 ^ 63) : parseI64 (toString n) = some n := by
  rw [Int.toString_eq_repr]
  cases n with
  | ofNat m =>
    have hlist : (Int.ofNat m).repr.toList = Nat.toDigits 10 m := Nat.toList_repr
    have hread : (parseDigits (Nat.toDigits 10 m)).bind (fun n => if n < 2 ^ 63 then some (n : Int) else none) =
        some (Int.ofNat m) := by
      rw [parseDigits_toDigits, Option.bind_some, if_pos (by simpa using hhigh)]
      rfl
    obtain ⟨c, cs, hcs⟩ := List.exists_cons_of_ne_nil (Nat.toDigits_ne_nil (n := m) (b := 10))
    have hdigit : c.isDigit = true :=
      Nat.isDigit_of_mem_toDigits (n := m) (by decide) (by decide) (hcs ▸ List.mem_cons_self)
    have hminus : c ≠ '-' := by rintro rfl; cases hdigit
    have hplus : c ≠ '+' := by rintro rfl; cases hdigit
    rw [parseI64, hlist]
    rw [hcs] at hread ⊢
    split
    · next heq => exact absurd (List.cons.inj heq).1 hminus
    · next heq => exact absurd (List.cons.inj heq).1 hplus
    · exact hread
  | negSucc m =>
    have hlist : (Int.negSucc m).repr.toList = '-' :: Nat.toDigits 10 (m + 1) := by
      rw [show (Int.negSucc m).repr = "-" ++ m.succ.repr from rfl, String.toList_append, Nat.toList_repr]
      rfl
    have hsmall : m + 1 ≤ 2 ^ 63 := by omega
    rw [parseI64, hlist]
    simp only [parseDigits_toDigits, Option.bind_some, if_pos hsmall]
    rfl
/-! ## Hexadecimal -/

def hexVal (c : Char) : Option Nat :=
  if '0' ≤ c ∧ c ≤ '9' then some (c.toNat - '0'.toNat)
  else if 'a' ≤ c ∧ c ≤ 'f' then some (c.toNat - 'a'.toNat + 10)
  else if 'A' ≤ c ∧ c ≤ 'F' then some (c.toNat - 'A'.toNat + 10)
  else none

def hexDigit (n : Nat) : Char := (("0123456789abcdef".toList)[n]?).getD '0'

/-- `hex::decode`; the two errors are not told apart. -/
def hexDecodeChars : List Char → Option (List UInt8)
  | [] => some []
  | [_] => none
  | a :: b :: rest =>
    match hexVal a, hexVal b, hexDecodeChars rest with
    | some x, some y, some bs => some (UInt8.ofNat (16 * x + y) :: bs)
    | _, _, _ => none

def hexDecode (s : String) : Option (List UInt8) := hexDecodeChars s.toList

theorem hexVal_of_hexDecodeChars {c : Char} {cs : List Char} {bs : List UInt8}
    (h : hexDecodeChars (c :: cs) = some bs) : (hexVal c).isSome := by
  cases cs with
  | nil => cases h
  | cons d cs =>
    rw [hexDecodeChars] at h
    split at h
    · next hc _ _ => simp [hc]
    · cases h

/-- `hex::encode`. -/
def hexEncode (bs : List UInt8) : String :=
  String.ofList (bs.flatMap fun b => [hexDigit (b.toNat / 16), hexDigit (b.toNat % 16)])

theorem hexVal_hexDigit {n : Nat} (h : n < 16) : hexVal (hexDigit n) = some n := by
  have hall : ∀ n : Fin 16, hexVal (hexDigit n) = some n.val := by decide
  exact hall ⟨n, h⟩

theorem hexDecode_hexEncode (bs : List UInt8) : hexDecode (hexEncode bs) = some bs := by
  simp only [hexDecode, hexEncode, String.toList_ofList]
  induction bs with
  | nil => rfl
  | cons b bs ih =>
    have hb := b.toNat_lt
    have hbyte : 16 * (b.toNat / 16) + b.toNat % 16 = b.toNat := by omega
    simp [hexDecodeChars, hexVal_hexDigit (show b.toNat / 16 < 16 by omega),
      hexVal_hexDigit (show b.toNat % 16 < 16 by omega), ih, hbyte]

end Wire
