/-
Base64 with the URL-safe alphabet and no padding (`URL_SAFE_NO_PAD`). Texts
of bytes of one length are told apart by it.
-/
import FerrKit.Lib.Wire

namespace Base64

def alphabet : List Char := "ABCDEFGHIJKLMNOPQRSTUVWXYZabcdefghijklmnopqrstuvwxyz0123456789-_".toList

def digit (n : Nat) : Char := (alphabet[n]?).getD 'A'

/-- Three bytes are four digits, of six bits each. -/
def encodeChars : List UInt8 → List Char
  | a :: b :: c :: rest =>
    digit (a.toNat / 4) :: digit (a.toNat % 4 * 16 + b.toNat / 16) :: digit (b.toNat % 16 * 4 + c.toNat / 64) ::
      digit (c.toNat % 64) :: encodeChars rest
  | [a, b] => [digit (a.toNat / 4), digit (a.toNat % 4 * 16 + b.toNat / 16), digit (b.toNat % 16 * 4)]
  | [a] => [digit (a.toNat / 4), digit (a.toNat % 4 * 16)]
  | [] => []

/-- `URL_SAFE_NO_PAD.encode`. -/
def urlSafeNoPad (bs : List UInt8) : String := String.ofList (encodeChars bs)

theorem digit_inj {m n : Nat} (hm : m < 64) (hn : n < 64) (h : digit m = digit n) : m = n := by
  have hall : ∀ n : Fin 64, alphabet.idxOf (digit n) = n.val := by decide +kernel
  have hidx : alphabet.idxOf (digit m) = alphabet.idxOf (digit n) := by rw [h]
  exact (hall ⟨m, hm⟩).symm.trans (hidx.trans (hall ⟨n, hn⟩))

theorem encodeChars_inj : ∀ {xs ys : List UInt8}, xs.length = ys.length → encodeChars xs = encodeChars ys → xs = ys
  | [], [], _, _ => rfl
  | [a], [a'], _, h => by
    have ha := a.toNat_lt
    have ha' := a'.toNat_lt
    obtain ⟨h1, h2⟩ : digit (a.toNat / 4) = digit (a'.toNat / 4) ∧
        digit (a.toNat % 4 * 16) = digit (a'.toNat % 4 * 16) := by simpa [encodeChars] using h
    have e1 := digit_inj (by omega) (by omega) h1
    have e2 := digit_inj (by omega) (by omega) h2
    rw [UInt8.toNat_inj.1 (show a.toNat = a'.toNat by omega)]
  | [a, b], [a', b'], _, h => by
    have ha := a.toNat_lt
    have ha' := a'.toNat_lt
    have hb := b.toNat_lt
    have hb' := b'.toNat_lt
    obtain ⟨h1, h2, h3⟩ : digit (a.toNat / 4) = digit (a'.toNat / 4) ∧
        digit (a.toNat % 4 * 16 + b.toNat / 16) = digit (a'.toNat % 4 * 16 + b'.toNat / 16) ∧
        digit (b.toNat % 16 * 4) = digit (b'.toNat % 16 * 4) := by simpa [encodeChars] using h
    have e1 := digit_inj (by omega) (by omega) h1
    have e2 := digit_inj (by omega) (by omega) h2
    have e3 := digit_inj (by omega) (by omega) h3
    rw [UInt8.toNat_inj.1 (show a.toNat = a'.toNat by omega), UInt8.toNat_inj.1 (show b.toNat = b'.toNat by omega)]
  | a :: b :: c :: xs, a' :: b' :: c' :: ys, hlen, h => by
    have ha := a.toNat_lt
    have ha' := a'.toNat_lt
    have hb := b.toNat_lt
    have hb' := b'.toNat_lt
    have hc := c.toNat_lt
    have hc' := c'.toNat_lt
    simp only [encodeChars, List.cons.injEq] at h
    obtain ⟨h1, h2, h3, h4, hrest⟩ := h
    have e1 := digit_inj (by omega) (by omega) h1
    have e2 := digit_inj (by omega) (by omega) h2
    have e3 := digit_inj (by omega) (by omega) h3
    have e4 := digit_inj (by omega) (by omega) h4
    rw [UInt8.toNat_inj.1 (show a.toNat = a'.toNat by omega), UInt8.toNat_inj.1 (show b.toNat = b'.toNat by omega),
      UInt8.toNat_inj.1 (show c.toNat = c'.toNat by omega), encodeChars_inj (by simpa using hlen) hrest]

theorem urlSafeNoPad_inj {xs ys : List UInt8} (hlen : xs.length = ys.length) (h : urlSafeNoPad xs = urlSafeNoPad ys) :
    xs = ys :=
  encodeChars_inj hlen (by simpa [urlSafeNoPad] using congrArg String.toList h)

end Base64
