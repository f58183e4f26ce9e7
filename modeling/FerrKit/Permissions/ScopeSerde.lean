/-
`Serialize` and `Deserialize` of a scope (`crates/permissions/src/lib.rs`).
The latter asks for a borrowed `&str`, so what it accepts depends on how the
string is spelled and on where it is read from, not on the string alone.
-/
import FerrKit.Lib.JsonText
import FerrKit.Lib.Results
import FerrKit.Permissions.Scopes

namespace FerrKit.Permissions.Scope

open JsonText

def serialize (self : Scope) : List Char := encode self.asStr.toList

def deserialize (v : Visited) : Except DeError Scope := do
  let s ← v.borrowedStr
  match parse s with
  | some scope => .ok scope
  | none => .error (.unknownVariant s ["<see Scope::as_str>"])

variable {source : Source} {text : List Char} {s : String}

theorem deserialize_borrowed : (deserialize (.borrowed s)).toOption = parse s := by
  have hread : deserialize (.borrowed s) =
      match parse s with
      | some scope => .ok scope
      | none => .error (.unknownVariant s ["<see Scope::as_str>"]) := rfl
  rw [hread]
  cases parse s <;> rfl

theorem fromText_of_borrows (hd : decode text = some s.toList) (hb : Borrows source text) :
    (fromText deserialize source text).toOption = parse s := by
  rw [fromText, visit_borrows hd hb]
  exact deserialize_borrowed

theorem fromText_of_not_borrows (hd : decode text = some s.toList) (hb : ¬ Borrows source text) :
    fromText deserialize source text = .error (.invalidType s "a borrowed string") := by
  obtain ⟨v, hv, rfl⟩ := visit_text source hd
  have hrefused := borrowedStr_of_not_borrows hb hv
  simp only [fromText, hv, deserialize, hrefused]
  rfl

/-- **A scope is read from a borrowed string only.** Reading agrees with
`parse` on the string a text denotes exactly when that string is borrowed
from the input, which takes a text without escapes and a source that lends
it, or is not a scope at all. -/
theorem deserialize_agrees_iff (source : Source) (hd : decode text = some s.toList) :
    ((fromText deserialize source text).toOption = parse s ↔ Borrows source text ∨ parse s = none) ∧
      ∀ scope : Scope, s = scope.asStr → (fromText deserialize source text = .ok scope ↔ Borrows source text) := by
  by_cases hb : Borrows source text
  · have hagree := fromText_of_borrows hd hb
    refine ⟨by simp [hagree, hb], ?_⟩
    rintro scope rfl
    rw [parse_asStr, Except.toOption_eq_some_iff] at hagree
    simp [hagree, hb]
  · have hrefused := fromText_of_not_borrows hd hb
    refine ⟨?_, fun scope _ => by simp [hrefused, hb]⟩
    rw [hrefused]
    simp [Except.toOption, hb, eq_comm]

theorem deserialize_agrees_iff_owner :
    fromText deserialize .slice "org:owner".toList = .ok .orgOwner ∧ Borrows .slice "org:owner".toList := by
  have hplain : Borrows .slice "org:owner".toList := by decide
  have hdenotes : decode "org:owner".toList = some "org:owner".toList := by decide
  exact ⟨((deserialize_agrees_iff .slice hdenotes).2 .orgOwner rfl).2 hplain, hplain⟩

/-- The owner's scope with its first letter escaped, out of a reader and out
of a `Value`. -/
theorem owner_refused :
    decode "\\u006frg:owner".toList = some "org:owner".toList ∧ parse "org:owner" = some .orgOwner ∧
      fromText deserialize .slice "\\u006frg:owner".toList = .error (.invalidType "org:owner" "a borrowed string") ∧
      fromText deserialize .reader "org:owner".toList = .error (.invalidType "org:owner" "a borrowed string") ∧
      fromText deserialize .value "org:owner".toList = .error (.invalidType "org:owner" "a borrowed string") := by
  decide

/-! ## What is written -/

theorem asStr_plain (self : Scope) : ∀ c ∈ self.asStr.toList, c ≠ '"' ∧ c ≠ '\\' ∧ 0x20 ≤ c.toNat := by
  have hall : (self.asStr.toList.all fun c => c != '"' && c != '\\' && Nat.ble 0x20 c.toNat) = true := by
    cases self <;> decide
  simpa [List.all_eq_true, and_assoc] using hall

/-- What a scope is written as is read back from a text that is at hand. -/
theorem fromText_serialize (self : Scope) : fromText deserialize .slice self.serialize = .ok self := by
  have hplain : self.serialize = self.asStr.toList := encode_plain self.asStr_plain
  have hborrows : Borrows .slice self.serialize := ⟨rfl, fun h => (self.asStr_plain _ (hplain ▸ h)).2.1 rfl⟩
  have hread := fromText_of_borrows (decode_encode self.asStr.toList) hborrows
  rwa [parse_asStr, Except.toOption_eq_some_iff] at hread

end FerrKit.Permissions.Scope
