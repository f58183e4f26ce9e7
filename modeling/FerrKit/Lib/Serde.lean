/-
Structs with a derived `Deserialize`, read from JSON.

From an object a struct is read by the names of its fields: other members
are skipped, and a field that comes twice is an error. From an array it is
read by their order. What stands for a field that is absent is not the same
in the two.

A derived `Serialize` writes an object with the fields in their order, some
of them only if they are there (`Option::is_none` to skip).
-/
import FerrKit.Lib.Json
import FerrKit.Lib.Wire

namespace Serde

open Json

variable {α β : Type}

/-- The values of the members with that name. -/
def membersOf (key : String) (members : Map) : List Value :=
  members.filterMap fun member => if member.1 = key then some member.2 else none

/-! ## Types of fields -/

/-- `Option<T>`. -/
def option (decode : Value → Option α) : Value → Option (Option α)
  | .null => some none
  | v => (decode v).map some

/-- `Vec<T>`. -/
def vec (decode : Value → Option α) : Value → Option (List α)
  | .array items => items.mapM decode
  | _ => none

/-- `i64`. `-0` is a floating point number and no integer. -/
def i64 : Value → Option Int
  | .number text => if text = "-0" then none else Wire.parseI64 text
  | _ => none

/-- `u32`. -/
def u32 (v : Value) : Option UInt32 :=
  (i64 v).bind fun n => if 0 ≤ n ∧ n < 2 ^ 32 then some (UInt32.ofNat n.toNat) else none

/-! ## Fields -/

structure Field (α : Type) where
  key : String
  decode : Value → Option α
  /-- What stands for a member that is not there. -/
  missing : Option α := none
  /-- What stands for an element that is not there. -/
  short : Option α := none

/-- An `Option<T>` without a default, which an array still has to have. -/
def Field.optional (key : String) (decode : Value → Option α) : Field (Option α) :=
  { key, decode := option decode, missing := some none }

/-- `#[serde(default)]`. -/
def Field.defaulted (key : String) (decode : Value → Option α) (default : α) : Field α :=
  { key, decode, missing := some default, short := some default }

/-- Fields in a row, as they are read. -/
structure Fields (α : Type) where
  ofMembers : Map → Option α
  ofItems : List Value → Option (α × List Value)

def Field.only (f : Field α) : Fields α where
  ofMembers members :=
    match membersOf f.key members with
    | [] => f.missing
    | [v] => f.decode v
    | _ => none
  ofItems
    | [] => f.short.map (·, [])
    | v :: items => (f.decode v).map (·, items)

def Fields.and (a : Fields α) (b : Fields β) : Fields (α × β) where
  ofMembers members := do
    let x ← a.ofMembers members
    let y ← b.ofMembers members
    pure (x, y)
  ofItems items := do
    let (x, items) ← a.ofItems items
    let (y, items) ← b.ofItems items
    pure ((x, y), items)

/-- The struct with these fields. -/
def Fields.struct (fields : Fields α) (mk : α → β) : Value → Option β
  | .object members => (fields.ofMembers members).map mk
  | .array items =>
    match fields.ofItems items with
    | some (x, []) => some (mk x)
    | _ => none
  | _ => none

/-! ## What is read -/

theorem ofMembers_and {a : Fields α} {b : Fields β} {members : Map} {x : α} {y : β} :
    (a.and b).ofMembers members = some (x, y) ↔ a.ofMembers members = some x ∧ b.ofMembers members = some y := by
  simp [Fields.and, Option.bind_eq_some_iff]

variable {key : String} {decode : Value → Option α} {members : Map} {x : α}

theorem ofMembers_required :
    (Field.only { key, decode }).ofMembers members = some x ↔ ∃ v, membersOf key members = [v] ∧ decode v = some x := by
  simp only [Field.only]
  split <;> simp_all

theorem ofMembers_string {text : String} (h : membersOf key members = [.string text]) :
    (Field.only { key, decode := Value.asStr }).ofMembers members = some text :=
  ofMembers_required.2 ⟨_, h, rfl⟩

/-- A field that comes once. -/
theorem ofMembers_one {f : Field α} {v : Value} (h : membersOf f.key members = [v]) :
    f.only.ofMembers members = f.decode v := by
  simp only [Field.only, h]

theorem ofMembers_absent {f : Field α} (h : membersOf f.key members = []) : f.only.ofMembers members = f.missing := by
  simp only [Field.only, h]

/-- A struct of one field. -/
theorem struct_one {mk : α → β} {v : Value} {y : β} :
    (Field.only { key, decode }).struct mk v = some y ↔
      ∃ u x, (v = .array [u] ∨ ∃ members, v = .object members ∧ membersOf key members = [u]) ∧ decode u = some x ∧
        mk x = y := by
  cases v with
  | null | bool _ | number _ | string _ => simp [Fields.struct]
  | object members =>
    simp only [Fields.struct, Option.map_eq_some_iff, ofMembers_required]
    constructor
    · rintro ⟨x, ⟨u, hu, hx⟩, hy⟩
      exact ⟨u, x, .inr ⟨members, rfl, hu⟩, hx, hy⟩
    · rintro ⟨u, x, hv, hx, hy⟩
      obtain hv | ⟨_, hv, hu⟩ := hv
      · cases hv
      · cases hv
        exact ⟨x, ⟨u, hu, hx⟩, hy⟩
  | array items =>
    match items with
    | [] => simp [Fields.struct, Field.only]
    | [u] => cases hu : decode u <;> simp [Fields.struct, Field.only, hu]
    | u :: u' :: items => cases hu : decode u <;> simp [Fields.struct, Field.only, hu]

/-! ## What is written -/

/-- An integer. -/
def ofInt (n : Int) : Value := .number (toString n)

/-- A field that is skipped if it is not there. -/
def optionalMember (key : String) (encode : α → Value) (x : Option α) : Map := (x.map fun a => (key, encode a)).toList

theorem membersOf_append (key : String) (a b : Map) : membersOf key (a ++ b) = membersOf key a ++ membersOf key b :=
  List.filterMap_append

theorem membersOf_cons (key name : String) (v : Value) (members : Map) :
    membersOf key ((name, v) :: members) = if name = key then v :: membersOf key members else membersOf key members := by
  by_cases h : name = key <;> simp [membersOf, h]

theorem membersOf_nil (key : String) : membersOf key [] = [] := rfl

theorem membersOf_optionalMember (key name : String) (encode : α → Value) (x : Option α) :
    membersOf key (optionalMember name encode x) = if name = key then (x.map encode).toList else [] := by
  cases x <;> by_cases h : name = key <;> simp [membersOf, optionalMember, h]

theorem i64_ofInt {n : Int} (hlow : -2 ^ 63 ≤ n) (hhigh : n < 2 ^ 63) : i64 (ofInt n) = some n := by
  have hread := Wire.parseI64_toString hlow hhigh
  have hminus : toString n ≠ "-0" := by
    intro h
    have hzero : n = 0 := by
      rw [h] at hread
      exact (Option.some.inj hread).symm
    rw [hzero] at h
    exact absurd h (by decide)
  rw [ofInt, i64, if_neg hminus, hread]

theorem u32_ofInt (n : UInt32) : u32 (ofInt n.toNat) = some n := by
  have hlt := n.toNat_lt
  have hbounds : (0 : Int) ≤ n.toNat ∧ (n.toNat : Int) < 2 ^ 32 := by omega
  have hread : i64 (ofInt n.toNat) = some (n.toNat : Int) := i64_ofInt (by omega) (by omega)
  rw [u32, hread, Option.bind_some, if_pos hbounds, Int.toNat_natCast, UInt32.ofNat_toNat]

theorem vec_map (encode : α → Value) {decode : Value → Option α} (h : ∀ x, decode (encode x) = some x) (xs : List α) :
    vec decode (.array (xs.map encode)) = some xs := by
  simp only [vec]
  induction xs with
  | nil => rfl
  | cons x xs ih => simp [h, ih]

/-- An option that is there, read back; a `null` it was not. -/
theorem option_some {decode : Value → Option α} {v : Value} (hnull : v ≠ .null) (h : decode v = some x) :
    option decode v = some (some x) := by
  cases v with
  | null => exact absurd rfl hnull
  | bool | number | string | array | object => simp [option, h]

/-- A field that may be skipped is read back. -/
theorem ofMembers_optional {f : Field (Option α)} {encode : α → Value} {decode : Value → Option α} {x : Option α}
    (hdecode : f.decode = option decode) (hmissing : f.missing = some none)
    (hmembers : membersOf f.key members = (x.map encode).toList) (hnull : ∀ a ∈ x, encode a ≠ .null)
    (h : ∀ a ∈ x, decode (encode a) = some a) : f.only.ofMembers members = some x := by
  cases x with
  | none => rw [ofMembers_absent hmembers, hmissing]
  | some a => rw [ofMembers_one hmembers, hdecode, option_some (hnull a rfl) (h a rfl)]

end Serde
