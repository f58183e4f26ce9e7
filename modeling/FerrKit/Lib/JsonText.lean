/-
The text of a JSON string, between its quotes, as `serde_json` reads and
writes it, and how the string that was read reaches the visitor of a type:
as a part of the input, out of a buffer, or given away. Only the first lasts
as long as the input does, and only a text without escapes is one.
-/
import FerrKit.Lib.Wire

namespace JsonText

/-! ## Reading -/

/-- Four hexadecimal digits. -/
def hex4 (a b c d : Char) : Option Nat := do
  let a ← Wire.hexVal a
  let b ← Wire.hexVal b
  let c ← Wire.hexVal c
  let d ← Wire.hexVal d
  pure (((a * 16 + b) * 16 + c) * 16 + d)

def shortEscape : Char → Option Char
  | '"' => some '"'
  | '\\' => some '\\'
  | '/' => some '/'
  | 'b' => some '\x08'
  | 'f' => some '\x0c'
  | 'n' => some '\n'
  | 'r' => some '\r'
  | 't' => some '\t'
  | _ => none

/-- The characters of the text, after the first half of a surrogate pair if
there was one. -/
def decodeFrom : Option Nat → List Char → Option (List Char)
  | none, [] => some []
  | some _, [] => none
  | high, '\\' :: 'u' :: a :: b :: c :: d :: rest =>
    match high, hex4 a b c d with
    | _, none => none
    | none, some n =>
      if 0xd800 ≤ n ∧ n < 0xdc00 then decodeFrom (some n) rest
      else if 0xdc00 ≤ n ∧ n < 0xe000 then none
      else (decodeFrom none rest).map (Char.ofNat n :: ·)
    | some high, some n =>
      if 0xdc00 ≤ n ∧ n < 0xe000 then
        (decodeFrom none rest).map (Char.ofNat (0x10000 + (high - 0xd800) * 0x400 + (n - 0xdc00)) :: ·)
      else none
  | some _, _ :: _ => none
  | none, '\\' :: e :: rest =>
    match shortEscape e with
    | some c => (decodeFrom none rest).map (c :: ·)
    | none => none
  | none, c :: rest =>
    -- a control character, and a backslash with nothing after it
    if c = '"' ∨ c = '\\' ∨ c.toNat < 0x20 then none else (decodeFrom none rest).map (c :: ·)

def decode (text : List Char) : Option (List Char) := decodeFrom none text

theorem decode_cons {c : Char} (h : c ≠ '\\') (rest : List Char) :
    decode (c :: rest) = if c = '"' ∨ c.toNat < 0x20 then none else (decode rest).map (c :: ·) := by
  have heq : decodeFrom none (c :: rest) =
      if c = '"' ∨ c = '\\' ∨ c.toNat < 0x20 then none else (decodeFrom none rest).map (c :: ·) := by
    rw [decodeFrom]
    · rintro - - - - - rfl
      exact absurd rfl h
    · rintro - - rfl
      exact absurd rfl h
  simp only [decode, heq, h, false_or]

/-! ## Writing -/

/-- The escape of a character that is one unit of UTF-16. -/
def unicodeEscape (c : Char) : List Char :=
  '\\' :: 'u' :: [c.toNat / 4096 % 16, c.toNat / 256 % 16, c.toNat / 16 % 16, c.toNat % 16].map Wire.hexDigit

/-- The escapes of `serde_json`. -/
def encodeChar (c : Char) : List Char :=
  match c with
  | '"' => ['\\', '"']
  | '\\' => ['\\', '\\']
  | '\x08' => ['\\', 'b']
  | '\x0c' => ['\\', 'f']
  | '\n' => ['\\', 'n']
  | '\r' => ['\\', 'r']
  | '\t' => ['\\', 't']
  | c => if c.toNat < 0x20 then unicodeEscape c else [c]

def encode (s : List Char) : List Char := s.flatMap encodeChar

theorem decode_unicodeEscape {c : Char} (h : c.toNat < 0x10000) (rest : List Char) :
    decode (unicodeEscape c ++ rest) = (decode rest).map (c :: ·) := by
  have hdigit : ∀ n, Wire.hexVal (Wire.hexDigit (n % 16)) = some (n % 16) :=
    fun n => Wire.hexVal_hexDigit (Nat.mod_lt _ (by decide))
  have hhex : hex4 (Wire.hexDigit (c.toNat / 4096 % 16)) (Wire.hexDigit (c.toNat / 256 % 16))
      (Wire.hexDigit (c.toNat / 16 % 16)) (Wire.hexDigit (c.toNat % 16)) = some c.toNat := by
    simp only [hex4, hdigit, Option.bind_eq_bind, Option.bind_some, Option.pure_def, Option.some.injEq]
    omega
  have hscalar : c.toNat < 0xd800 ∨ 0xdfff < c.toNat := by
    rcases c.valid with hlow | hhigh
    · exact .inl hlow
    · exact .inr hhigh.1
  have hnotHigh : ¬ (0xd800 ≤ c.toNat ∧ c.toNat < 0xdc00) := by omega
  have hnotLow : ¬ (0xdc00 ≤ c.toNat ∧ c.toNat < 0xe000) := by omega
  simp [decode, unicodeEscape, decodeFrom, hhex, hnotHigh, hnotLow, Char.ofNat_toNat]

theorem decode_encodeChar (c : Char) (rest : List Char) :
    decode (encodeChar c ++ rest) = (decode rest).map (c :: ·) := by
  unfold encodeChar
  split
  iterate 7 simp [decode, decodeFrom, shortEscape]
  next hquote hback _ _ _ _ _ =>
    split
    · next hcontrol => exact decode_unicodeEscape (by omega) rest
    · next hplain =>
      have hkept : ¬ (c = '"' ∨ c.toNat < 0x20) := not_or.2 ⟨hquote, hplain⟩
      rw [List.singleton_append, decode_cons hback, if_neg hkept]

/-- **A string is read back from the text it is written as.** -/
theorem decode_encode (s : List Char) : decode (encode s) = some s := by
  induction s with
  | nil => rfl
  | cons c s ih =>
    have hcons : encode (c :: s) = encodeChar c ++ encode s := List.flatMap_cons
    rw [hcons, decode_encodeChar, ih]
    rfl

theorem encodeChar_plain {c : Char} (hquote : c ≠ '"') (hback : c ≠ '\\') (hcontrol : 0x20 ≤ c.toNat) :
    encodeChar c = [c] := by
  unfold encodeChar
  split
  · exact absurd rfl hquote
  · exact absurd rfl hback
  iterate 5 exact absurd hcontrol (by decide)
  exact if_neg (Nat.not_lt.2 hcontrol)

/-- What needs no escape is written as it is. -/
theorem encode_plain {s : List Char} (h : ∀ c ∈ s, c ≠ '"' ∧ c ≠ '\\' ∧ 0x20 ≤ c.toNat) : encode s = s := by
  induction s with
  | nil => rfl
  | cons c s ih =>
    rw [List.forall_mem_cons] at h
    obtain ⟨⟨hquote, hback, hcontrol⟩, hrest⟩ := h
    have hcons : encode (c :: s) = encodeChar c ++ encode s := List.flatMap_cons
    rw [hcons, encodeChar_plain hquote hback hcontrol, ih hrest, List.singleton_append]

/-! ## Visitors -/

/-- What a string is read from: `from_str` or `from_slice`, `from_reader`,
`from_value`. -/
inductive Source
  | slice | reader | value
  deriving DecidableEq

/-- `visit_borrowed_str`, `visit_str` and `visit_string`. -/
inductive Visited
  | borrowed (s : String)
  | transient (s : String)
  | owned (s : String)
  deriving DecidableEq

def Visited.text : Visited → String
  | .borrowed s | .transient s | .owned s => s

/-- How the string of a text reaches the visitor. An escape is resolved in a
buffer, and so is everything a reader gives. -/
def visit (source : Source) (text : List Char) : Option Visited :=
  (decode text).map fun cs =>
    match source with
    | .slice => if '\\' ∈ text then .transient (String.ofList cs) else .borrowed (String.ofList cs)
    | .reader => .transient (String.ofList cs)
    | .value => .owned (String.ofList cs)

inductive DeError
  /-- The text is not that of a string. -/
  | malformed
  | invalidType (unexpected expected : String)
  | unknownVariant (variant : String) (expected : List String)
  | custom (message : String)
  deriving DecidableEq

/-- `Deserialize` for `&str`. -/
def Visited.borrowedStr : Visited → Except DeError String
  | .borrowed s => .ok s
  | .transient s | .owned s => .error (.invalidType s "a borrowed string")

/-- `Deserialize` for `String`. -/
def Visited.string (v : Visited) : Except DeError String := .ok v.text

/-- The value of a type with that `Deserialize`. -/
def fromText {α : Type} (deserialize : Visited → Except DeError α) (source : Source) (text : List Char) :
    Except DeError α :=
  match visit source text with
  | some v => deserialize v
  | none => .error .malformed

section Visit

variable {source : Source} {text : List Char} {s : String}

theorem visit_text (source : Source) (hd : decode text = some s.toList) : ∃ v, visit source text = some v ∧ v.text = s := by
  cases source with
  | slice =>
    by_cases hesc : '\\' ∈ text
    · exact ⟨.transient s, by simp [visit, hd, hesc], rfl⟩
    · exact ⟨.borrowed s, by simp [visit, hd, hesc], rfl⟩
  | reader => exact ⟨.transient s, by simp [visit, hd], rfl⟩
  | value => exact ⟨.owned s, by simp [visit, hd], rfl⟩

/-- The input lasts, a buffer does not. -/
def Borrows (source : Source) (text : List Char) : Prop := source = .slice ∧ '\\' ∉ text

instance : Decidable (Borrows source text) := inferInstanceAs (Decidable (_ ∧ _))

theorem visit_borrows (hd : decode text = some s.toList) (hb : Borrows source text) :
    visit source text = some (.borrowed s) := by
  obtain ⟨rfl, hplain⟩ := hb
  simp [visit, hd, hplain]

theorem borrowedStr_of_not_borrows (hb : ¬ Borrows source text) {v : Visited} (hv : visit source text = some v) :
    v.borrowedStr = .error (.invalidType v.text "a borrowed string") := by
  obtain ⟨cs, -, rfl⟩ := Option.map_eq_some_iff.1 hv
  cases source with
  | slice =>
    have hesc : '\\' ∈ text := by
      by_contra hplain
      exact hb ⟨rfl, hplain⟩
    simp only [hesc, if_true]
    rfl
  | reader => rfl
  | value => rfl

end Visit

end JsonText
