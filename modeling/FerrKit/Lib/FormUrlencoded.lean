/-
`application/x-www-form-urlencoded`, as the `form_urlencoded` crate writes
and reads it. Texts are their UTF-8 bytes. A component is written without the
separators, so a list of pairs is read back as it was written, behind
whatever was there before (`parse_extendPairs`).
-/
import FerrKit.Lib.PercentEncoding

namespace FormUrlencoded

open PercentEncoding (isAlphanumeric hexDigitUpper decodeBytes decodeBytes_of_ne decodeBytes_triplet)

/-- A name and its value. -/
abbrev Pair := List UInt8 × List UInt8

/-- The bytes that stay: letters, digits, `*`, `-`, `.` and `_`. -/
def isPlain (b : UInt8) : Bool := isAlphanumeric b || b == 0x2a || b == 0x2d || b == 0x2e || b == 0x5f

def hexByte (n : Nat) : UInt8 := UInt8.ofNat (hexDigitUpper n).toNat

def encodeByte (b : UInt8) : List UInt8 :=
  if b = 0x20 then [0x2b]
  else if isPlain b then [b]
  else [0x25, hexByte (b.toNat / 16), hexByte (b.toNat % 16)]

/-- `byte_serialize`. -/
def encode (bs : List UInt8) : List UInt8 := bs.flatMap encodeByte

/-- A `+` is a space. -/
def plusToSpace (b : UInt8) : UInt8 := if b = 0x2b then 0x20 else b

def decode (bs : List UInt8) : List UInt8 := decodeBytes (bs.map plusToSpace)

/-- `Serializer::append_pair`: a `&` in front if something is there. -/
def appendPair (target : List UInt8) (pair : Pair) : List UInt8 :=
  (if target.isEmpty then target else target ++ [0x26]) ++ (encode pair.1 ++ 0x3d :: encode pair.2)

/-- `Serializer::extend_pairs`. -/
def extendPairs (target : List UInt8) (pairs : List Pair) : List UInt8 := pairs.foldl appendPair target

/-- A part between two `&`: the name goes up to the first `=`. -/
def parsePair (part : List UInt8) : Pair :=
  (decode (part.takeWhile (· != 0x3d)), decode ((part.dropWhile (· != 0x3d)).drop 1))

/-- `form_urlencoded::parse`. -/
def parse (input : List UInt8) : List Pair := ((input.splitOn 0x26).filter fun part => !part.isEmpty).map parsePair

/-! ## A component -/

theorem plain_ne {b : UInt8} (h : isPlain b = true) : b ≠ 0x25 ∧ b ≠ 0x2b ∧ b ≠ 0x26 ∧ b ≠ 0x3d := by
  have hall : ∀ n : Fin 256, isPlain (UInt8.ofNat n) = true →
      UInt8.ofNat n ≠ 0x25 ∧ UInt8.ofNat n ≠ 0x2b ∧ UInt8.ofNat n ≠ 0x26 ∧ UInt8.ofNat n ≠ 0x3d := by decide +kernel
  simpa using hall ⟨b.toNat, b.toNat_lt⟩ (by simpa using h)

theorem hexByte_spec {n : Nat} (h : n < 16) :
    Wire.hexVal (Char.ofNat (hexByte n).toNat) = some n ∧ hexByte n ≠ 0x2b ∧ hexByte n ≠ 0x26 ∧ hexByte n ≠ 0x3d := by
  have hall : ∀ n : Fin 16, Wire.hexVal (Char.ofNat (hexByte n).toNat) = some n.val ∧ hexByte n ≠ 0x2b ∧
      hexByte n ≠ 0x26 ∧ hexByte n ≠ 0x3d := by decide +kernel
  exact hall ⟨n, h⟩

theorem plusToSpace_of_ne {b : UInt8} (h : b ≠ 0x2b) : plusToSpace b = b := if_neg h

theorem decode_encodeByte (b : UInt8) (rest : List UInt8) : decode (encodeByte b ++ rest) = b :: decode rest := by
  unfold decode encodeByte
  split
  · next hspace =>
    subst hspace
    exact decodeBytes_of_ne (by decide) _
  · split
    · next hplain =>
      obtain ⟨hpercent, hplus, -⟩ := plain_ne hplain
      rw [List.singleton_append, List.map_cons, plusToSpace_of_ne hplus, decodeBytes_of_ne hpercent]
    · have hb := b.toNat_lt
      obtain ⟨hhi, hhiPlus, -⟩ := hexByte_spec (show b.toNat / 16 < 16 by omega)
      obtain ⟨hlo, hloPlus, -⟩ := hexByte_spec (show b.toNat % 16 < 16 by omega)
      have hvalue : 16 * (b.toNat / 16) + b.toNat % 16 = b.toNat := by omega
      simp only [List.cons_append, List.nil_append, List.map_cons, plusToSpace_of_ne hhiPlus, plusToSpace_of_ne hloPlus]
      exact (decodeBytes_triplet hhi hlo _).trans (by rw [hvalue, UInt8.ofNat_toNat])

theorem decode_encode (bs : List UInt8) : decode (encode bs) = bs := by
  induction bs with
  | nil => rfl
  | cons b bs ih => rw [encode, List.flatMap_cons, decode_encodeByte, ← encode, ih]

/-- No separator is in what is written for a component. -/
theorem separators_notMem_encode (bs : List UInt8) : 0x26 ∉ encode bs ∧ 0x3d ∉ encode bs := by
  have hbyte : ∀ b, 0x26 ∉ encodeByte b ∧ 0x3d ∉ encodeByte b := by
    intro b
    unfold encodeByte
    split
    · decide
    · split
      · next hplain =>
        obtain ⟨-, -, hamp, heq⟩ := plain_ne hplain
        exact ⟨by simpa using hamp.symm, by simpa using heq.symm⟩
      · have hb := b.toNat_lt
        obtain ⟨-, -, hhiAmp, hhiEq⟩ := hexByte_spec (show b.toNat / 16 < 16 by omega)
        obtain ⟨-, -, hloAmp, hloEq⟩ := hexByte_spec (show b.toNat % 16 < 16 by omega)
        refine ⟨?_, ?_⟩ <;> simp only [List.mem_cons, List.not_mem_nil, or_false, not_or]
        · exact ⟨by decide, hhiAmp.symm, hloAmp.symm⟩
        · exact ⟨by decide, hhiEq.symm, hloEq.symm⟩
  refine ⟨fun h => ?_, fun h => ?_⟩ <;> obtain ⟨b, -, hmem⟩ := List.mem_flatMap.1 h
  · exact (hbyte b).1 hmem
  · exact (hbyte b).2 hmem

/-! ## Pairs -/

theorem parsePair_encode (pair : Pair) : parsePair (encode pair.1 ++ 0x3d :: encode pair.2) = pair := by
  have hname : ∀ b ∈ encode pair.1, (b != 0x3d) = true := fun b hb =>
    bne_iff_ne.2 fun he => (separators_notMem_encode pair.1).2 (he ▸ hb)
  rw [parsePair, List.takeWhile_append_of_pos hname, List.dropWhile_append_of_pos hname]
  simp [decode_encode]

theorem splitOn_append_cons {α : Type} [BEq α] [LawfulBEq α] (x : α) (xs ys : List α) :
    (xs ++ x :: ys).splitOn x = xs.splitOn x ++ ys.splitOn x :=
  List.splitOnP_append_cons xs ys (beq_self_eq_true x)

/-- A pair that is written is the last one read. -/
theorem parse_appendPair (target : List UInt8) (pair : Pair) : parse (appendPair target pair) = parse target ++ [pair] := by
  have hamp : 0x26 ∉ encode pair.1 ++ 0x3d :: encode pair.2 := by
    have hname := (separators_notMem_encode pair.1).1
    have hvalue := (separators_notMem_encode pair.2).1
    simp [hname, hvalue]
  have hone : parse (encode pair.1 ++ 0x3d :: encode pair.2) = [pair] := by
    rw [parse, List.splitOn_eq_singleton hamp, List.filter_cons_of_pos (by simp), List.filter_nil, List.map_singleton,
      parsePair_encode]
  unfold appendPair
  split
  · next hempty =>
    rw [List.isEmpty_iff.1 hempty]
    exact hone
  · rw [List.append_assoc, List.singleton_append]
    conv_lhs => rw [parse, splitOn_append_cons, List.filter_append, List.map_append]
    exact congrArg (parse target ++ ·) hone

/-- **What is written is read back**, behind what was there. -/
theorem parse_extendPairs (target : List UInt8) (pairs : List Pair) :
    parse (extendPairs target pairs) = parse target ++ pairs := by
  induction pairs generalizing target with
  | nil => simp [extendPairs]
  | cons pair pairs ih =>
    rw [extendPairs, List.foldl_cons]
    refine (ih (appendPair target pair)).trans ?_
    rw [parse_appendPair, List.append_assoc, List.singleton_append]

end FormUrlencoded
