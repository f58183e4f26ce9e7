/-
Percent-encoding, as the `percent-encoding` crate does it with the set
`NON_ALPHANUMERIC`: of the UTF-8 bytes of a text every ASCII letter and digit
stays, and every other byte becomes `%` and two upper case digits.
-/
import FerrKit.Lib.Wire

namespace PercentEncoding

open Wire

/-- An ASCII letter or digit. -/
def isAlphanumeric (b : UInt8) : Bool :=
  decide (48 ≤ b.toNat ∧ b.toNat ≤ 57) || decide (65 ≤ b.toNat ∧ b.toNat ≤ 90) ||
    decide (97 ≤ b.toNat ∧ b.toNat ≤ 122)

def hexDigitUpper (n : Nat) : Char := (("0123456789ABCDEF".toList)[n]?).getD '0'

def encodeByte (b : UInt8) : List Char :=
  if isAlphanumeric b then [Char.ofNat b.toNat] else ['%', hexDigitUpper (b.toNat / 16), hexDigitUpper (b.toNat % 16)]

/-- `utf8_percent_encode(s, NON_ALPHANUMERIC)`. -/
def utf8PercentEncode (s : List Char) : List Char := (bytes (String.ofList s)).flatMap encodeByte

/-- The byte of `%hl`. -/
def decodeTriplet (percent h l : UInt8) : Option UInt8 :=
  if percent = 0x25 then
    match hexVal (Char.ofNat h.toNat), hexVal (Char.ofNat l.toNat) with
    | some x, some y => some (UInt8.ofNat (16 * x + y))
    | _, _ => none
  else none

def decodeBytes : List UInt8 → List UInt8
  | b :: h :: l :: rest =>
    match decodeTriplet b h l with
    | some v => v :: decodeBytes rest
    | none => b :: decodeBytes (h :: l :: rest)
  | b :: rest => b :: decodeBytes rest
  | [] => []

/-- `percent_decode_str(s)`. -/
def percentDecode (s : List Char) : List UInt8 := decodeBytes (bytes (String.ofList s))

/-- Letters, digits and triplets `%XX`. -/
inductive Triplets : List Char → Prop
  | nil : Triplets []
  | alphanumeric {c s} : c.isAlphanum = true → Triplets s → Triplets (c :: s)
  | triplet {m n s} : m < 16 → n < 16 → Triplets s → Triplets ('%' :: hexDigitUpper m :: hexDigitUpper n :: s)

/-! ## What a byte becomes -/

/-- A letter or digit is one byte, and not a percent sign. -/
theorem alphanumeric_byte {b : UInt8} (h : isAlphanumeric b = true) :
    (Char.ofNat b.toNat).isAlphanum = true ∧ String.utf8EncodeChar (Char.ofNat b.toNat) = [b] ∧ b ≠ 0x25 := by
  have hall : ∀ n : Fin 256, isAlphanumeric (UInt8.ofNat n) = true →
      (Char.ofNat n).isAlphanum = true ∧ String.utf8EncodeChar (Char.ofNat n) = [UInt8.ofNat n] ∧
        UInt8.ofNat n ≠ 0x25 := by decide +kernel
  simpa using hall ⟨b.toNat, b.toNat_lt⟩ (by simpa using h)

/-- A digit of a triplet is one byte, and read back. -/
theorem hexDigitUpper_byte {n : Nat} (h : n < 16) : ∃ d : UInt8,
    String.utf8EncodeChar (hexDigitUpper n) = [d] ∧ hexVal (Char.ofNat d.toNat) = some n := by
  have hall : ∀ n : Fin 16, String.utf8EncodeChar (hexDigitUpper n) = [UInt8.ofNat (hexDigitUpper n).toNat] ∧
      hexVal (Char.ofNat (UInt8.ofNat (hexDigitUpper n).toNat).toNat) = some n.val := by decide +kernel
  exact ⟨_, hall ⟨n, h⟩⟩

theorem triplets_encodeByte (b : UInt8) {s : List Char} (hs : Triplets s) : Triplets (encodeByte b ++ s) := by
  have hb := b.toNat_lt
  unfold encodeByte
  split
  · next h => exact .alphanumeric (alphanumeric_byte h).1 hs
  · exact .triplet (by omega) (by omega) hs

theorem triplets_utf8PercentEncode (s : List Char) : Triplets (utf8PercentEncode s) := by
  unfold utf8PercentEncode
  induction bytes (String.ofList s) with
  | nil => exact .nil
  | cons b bs ih => exact triplets_encodeByte b ih

/-! ## Back again -/

theorem decodeBytes_of_ne {b : UInt8} (h : b ≠ 0x25) : ∀ rest, decodeBytes (b :: rest) = b :: decodeBytes rest
  | [] => rfl
  | [_] => rfl
  | x :: y :: rest => by rw [decodeBytes, decodeTriplet, if_neg h]

theorem decodeBytes_triplet {h l : UInt8} {m n : Nat} (hh : hexVal (Char.ofNat h.toNat) = some m)
    (hl : hexVal (Char.ofNat l.toNat) = some n) (rest : List UInt8) :
    decodeBytes (0x25 :: h :: l :: rest) = UInt8.ofNat (16 * m + n) :: decodeBytes rest := by
  rw [decodeBytes, decodeTriplet, if_pos rfl, hh, hl]

theorem decodeBytes_encodeByte (b : UInt8) (rest : List UInt8) :
    decodeBytes ((encodeByte b).flatMap String.utf8EncodeChar ++ rest) = b :: decodeBytes rest := by
  unfold encodeByte
  split
  · next h =>
    obtain ⟨-, hbyte, hne⟩ := alphanumeric_byte h
    simp only [List.flatMap_cons, List.flatMap_nil, hbyte, List.append_nil, List.singleton_append]
    exact decodeBytes_of_ne hne rest
  · have hb := b.toNat_lt
    obtain ⟨h, hhi, hhv⟩ := hexDigitUpper_byte (show b.toNat / 16 < 16 by omega)
    obtain ⟨l, hlo, hlv⟩ := hexDigitUpper_byte (show b.toNat % 16 < 16 by omega)
    have hpercent : String.utf8EncodeChar '%' = [0x25] := by decide
    have hvalue : 16 * (b.toNat / 16) + b.toNat % 16 = b.toNat := by omega
    simp only [List.flatMap_cons, List.flatMap_nil, hpercent, hhi, hlo, List.append_nil, List.cons_append,
      List.nil_append]
    rw [decodeBytes_triplet hhv hlv, hvalue, UInt8.ofNat_toNat]

/-- **What is encoded is decoded to the bytes of the text it came from.** -/
theorem percentDecode_utf8PercentEncode (s : List Char) :
    percentDecode (utf8PercentEncode s) = bytes (String.ofList s) := by
  rw [percentDecode, bytes_ofList, utf8PercentEncode, List.flatMap_assoc]
  induction bytes (String.ofList s) with
  | nil => rfl
  | cons b bs ih => rw [List.flatMap_cons, decodeBytes_encodeByte, ih]

end PercentEncoding
