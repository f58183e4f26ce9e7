/-
Contract versions (`crates/api-version/src/version.rs`): calendar dates,
ordered chronologically. A value carries the proof that its date exists, as
the private fields and `from_ymd` see to in the source. The serde impls go
through `Display` and `FromStr` and stand with the results about the text, in
`VersionText`.
-/
import Mathlib.Algebra.Group.Nat.Defs
import Mathlib.Data.Prod.Lex

namespace FerrKit.Api

def isLeap (year : UInt16) : Bool := year % 4 == 0 && (year % 100 != 0 || year % 400 == 0)

def daysInMonth (year : UInt16) (month : UInt8) : UInt8 :=
  if month ∈ [1, 3, 5, 7, 8, 10, 12] then 31
  else if month ∈ [4, 6, 9, 11] then 30
  else if month = 2 then if isLeap year then 29 else 28
  else 0

structure ApiVersion where
  year : UInt16
  month : UInt8
  day : UInt8
  exists_month : month ≠ 0 ∧ month ≤ 12
  exists_day : day ≠ 0 ∧ day ≤ daysInMonth year month
  deriving DecidableEq

namespace ApiVersion

def fromYmd (year : UInt16) (month day : UInt8) : Option ApiVersion :=
  if hm : month = 0 ∨ month > 12 ∨ day = 0 then none
  else if hd : day > daysInMonth year month then none
  else some ⟨year, month, day, ⟨fun h => hm (.inl h), by simpa using fun h => hm (.inr (.inl h))⟩,
    ⟨fun h => hm (.inr (.inr h)), by simpa using hd⟩⟩

/-! ## Order -/

/-- `derive(Ord)`: year, then month, then day. -/
def key (v : ApiVersion) : ℕ ×ₗ ℕ ×ₗ ℕ := toLex (v.year.toNat, toLex (v.month.toNat, v.day.toNat))

theorem key_injective : Function.Injective key := by
  rintro ⟨year, month, day, hm, hd⟩ ⟨year', month', day', hm', hd'⟩ he
  simp only [key, EmbeddingLike.apply_eq_iff_eq, Prod.mk.injEq, UInt16.toNat_inj, UInt8.toNat_inj] at he
  obtain ⟨rfl, rfl, rfl⟩ := he
  rfl

instance : LinearOrder ApiVersion := LinearOrder.lift' key key_injective

/-! ## `FromStr` and `Display` -/

inductive ParseError
  | malformed | notACalendarDate
  deriving DecidableEq

def ParseError.display : ParseError → String
  | .malformed => "expected a version of the form YYYY-MM-DD"
  | .notACalendarDate => "not a real calendar date"

/-- One turn of the loop of `parse_digits`, with the checks of `u16`. -/
def pushDigit (value : Nat) (byte : UInt8) : Option Nat :=
  if 48 ≤ byte ∧ byte ≤ 57 then
    let shifted := value * 10
    if shifted < 2 ^ 16 then
      let sum := shifted + (byte - 48).toNat
      if sum < 2 ^ 16 then some sum else none
    else none
  else none

def parseDigits (bytes : List UInt8) : Option Nat := bytes.foldlM pushDigit 0

/-- `FromStr`, on the bytes of the text. -/
def fromBytes (bytes : List UInt8) : Except ParseError ApiVersion :=
  if bytes.length ≠ 10 ∨ bytes[4]? ≠ some 45 ∨ bytes[7]? ≠ some 45 then .error .malformed
  else
    match parseDigits (bytes.take 4), parseDigits ((bytes.drop 5).take 2), parseDigits ((bytes.drop 8).take 2) with
    | some year, some month, some day =>
      -- two digits fit a `u8`
      match fromYmd (.ofNat year) (.ofNat month) (.ofNat day) with
      | some v => .ok v
      | none => .error .notACalendarDate
    | _, _, _ => .error .malformed

def fromStr (raw : String) : Except ParseError ApiVersion := fromBytes raw.toByteArray.data.toList

/-- `write!(f, "{:0width$}")`. -/
def padded (width n : Nat) : String :=
  let digits := Nat.toDigits 10 n
  String.ofList (List.replicate (width - digits.length) '0' ++ digits)

def display (v : ApiVersion) : String :=
  padded 4 v.year.toNat ++ "-" ++ padded 2 v.month.toNat ++ "-" ++ padded 2 v.day.toNat

end ApiVersion

end FerrKit.Api
