/-
Text as a list of characters, with the operations of `str` that the crates
use: trimming one character or white space off the ends, splitting on one
character (`List.splitOn`) and searching. A position is a number of
characters.
-/
import Mathlib.Data.List.DropRight

namespace Text

variable {c x : Char} {s : List Char}

/-- `trim_end_matches(c)`. -/
def trimEnd (c : Char) (s : List Char) : List Char := s.rdropWhile (· == c)

/-- `trim_matches(c)`. -/
def trim (c : Char) (s : List Char) : List Char := trimEnd c (s.dropWhile (· == c))

/-- `trim_end_matches(c)`, of a `String`. -/
def trimEndStr (c : Char) (s : String) : String := String.ofList (trimEnd c s.toList)

/-- `char::is_whitespace`, the Unicode property White_Space. -/
def isWhitespace (c : Char) : Bool :=
  decide (0x9 ≤ c.toNat ∧ c.toNat ≤ 0xd) || decide (0x2000 ≤ c.toNat ∧ c.toNat ≤ 0x200a) ||
    [0x20, 0x85, 0xa0, 0x1680, 0x2028, 0x2029, 0x202f, 0x205f, 0x3000].contains c.toNat

/-- `str::trim`. -/
def trimWhitespace (s : String) : String :=
  String.ofList ((s.toList.dropWhile isWhitespace).rdropWhile isWhitespace)

/-- `split_once(c)`. -/
def splitOnce (c : Char) (s : List Char) : Option (List Char × List Char) :=
  if c ∈ s then some (s.takeWhile (· != c), (s.dropWhile (· != c)).tail) else none

/-- `split(c)`. -/
def splitStr (c : Char) (s : String) : List String := (s.toList.splitOn c).map String.ofList

/-- `trim_start_matches(p)`, of a text `p`. It is taken off at most as often as
the text has characters. -/
def trimStartMatches (p s : String) : String := String.ofList (go s.length s.toList)
where
  go : Nat → List Char → List Char
    | 0, s => s
    | n + 1, s =>
      match s.dropPrefix? p.toList with
      | some rest => if p.isEmpty then s else go n rest
      | none => s

/-- No white space at either end, nothing to trim. -/
theorem trimWhitespace_of_ends {s : String} (hhead : ∀ c ∈ s.toList.head?, isWhitespace c = false)
    (hlast : ∀ c ∈ s.toList.getLast?, isWhitespace c = false) : trimWhitespace s = s := by
  have hleft : s.toList.dropWhile isWhitespace = s.toList := by
    cases hs : s.toList with
    | nil => rfl
    | cons c cs => simp [hhead c (by simp [hs])]
  have hright : s.toList.rdropWhile isWhitespace = s.toList := by
    rw [List.rdropWhile_eq_self_iff]
    intro hne
    simp [hlast _ (List.getLast?_eq_some_getLast hne)]
  rw [trimWhitespace, hleft, hright, String.ofList_toList]

/-- A text without white space is left as it is. -/
theorem trimWhitespace_eq_self {s : String} (h : ∀ c ∈ s.toList, isWhitespace c = false) : trimWhitespace s = s :=
  trimWhitespace_of_ends (fun c hc => h c (List.mem_of_mem_head? hc)) fun c hc => h c (List.mem_of_mem_getLast? hc)

/-- A trimmed text does not end in white space. -/
theorem getLast?_trimWhitespace (s : String) : ∀ c ∈ (trimWhitespace s).toList.getLast?, isWhitespace c = false := by
  intro c hc
  rw [trimWhitespace, String.toList_ofList] at hc
  obtain ⟨hne, rfl⟩ := List.mem_getLast?_eq_getLast hc
  simpa using List.rdropWhile_last_not isWhitespace _ hne

/-- A text that is there once, at the start, is taken off once. -/
theorem trimStartMatches_once {p s : String} {rest : List Char} (hs : s.toList.dropPrefix? p.toList = some rest)
    (hp : p.isEmpty = false) (hrest : rest.dropPrefix? p.toList = none) : trimStartMatches p s = String.ofList rest := by
  have hgo : ∀ n, trimStartMatches.go p n rest = rest := by
    intro n
    cases n with
    | zero => rfl
    | succ n => rw [trimStartMatches.go, hrest]
  have hlen : s.length ≠ 0 := by
    intro hzero
    have hnil : s.toList = [] := List.length_eq_zero_iff.1 (by simpa using hzero)
    rw [hnil] at hs
    obtain ⟨p', hp', hbeq⟩ := List.dropPrefix?_eq_some_iff.1 hs
    obtain ⟨rfl, -⟩ := List.append_eq_nil_iff.1 hp'.symm
    obtain rfl : p = "" := by simpa using (eq_of_beq hbeq).symm
    cases hp
  obtain ⟨n, hn⟩ := Nat.exists_eq_succ_of_ne_zero hlen
  rw [trimStartMatches, hn, trimStartMatches.go, hs]
  simp [hp, hgo]

/-- The first `c` is where the part before it ends, if that part has none. -/
theorem splitOnce_append (hs : c ∉ s) (t : List Char) : splitOnce c (s ++ c :: t) = some (s, t) := by
  have hne : ∀ y ∈ s, (y != c) = true := fun y hy => bne_iff_ne.2 fun h => hs (h ▸ hy)
  rw [splitOnce, if_pos (by simp), List.takeWhile_append_of_pos hne, List.dropWhile_append_of_pos hne]
  simp

/-- Trimming changes a text exactly when it ends in the character. -/
theorem trimEndStr_eq_self_iff {s : String} : trimEndStr c s = s ↔ s.toList.getLast? ≠ some c := by
  have hlist : trimEndStr c s = s ↔ trimEnd c s.toList = s.toList :=
    ⟨fun h => by simpa [trimEndStr] using congrArg String.toList h, fun h => by rw [trimEndStr, h, String.ofList_toList]⟩
  rw [hlist, trimEnd, List.rdropWhile_eq_self_iff]
  constructor
  · intro h hl
    obtain ⟨l, hs⟩ := List.getLast?_eq_some_iff.1 hl
    exact h (by simp [hs]) (by simp [hs])
  · intro h hne hc
    exact h (by rw [List.getLast?_eq_some_getLast hne, beq_iff_eq.1 hc])

theorem mem_dropWhile (h : x ≠ c) : x ∈ s.dropWhile (· == c) ↔ x ∈ s := by
  induction s with
  | nil => simp
  | cons y s ih =>
    rw [List.dropWhile_cons]
    split
    · next hy =>
      have hxy : x ≠ y := by rw [beq_iff_eq.1 hy]; exact h
      simp [ih, hxy]
    · rfl

/-- Trimming takes away only the character it is given. -/
theorem mem_trim (h : x ≠ c) : x ∈ trim c s ↔ x ∈ s := by
  rw [trim, trimEnd, List.rdropWhile, List.mem_reverse, mem_dropWhile h, List.mem_reverse, mem_dropWhile h]

/-- So does splitting. -/
theorem mem_splitOn (h : x ≠ c) : x ∈ s ↔ ∃ seg ∈ s.splitOn c, x ∈ seg := by
  induction s with
  | nil => simp
  | cons y s ih =>
    rw [List.splitOn_cons_eq_if_modifyHead, List.mem_cons, ih]
    obtain ⟨seg, segs, hs⟩ := List.exists_cons_of_ne_nil (List.splitOn_ne_nil c s)
    split
    · next hy =>
      have hxy : x ≠ y := by rw [beq_iff_eq.1 hy]; exact h
      simp [hxy]
    · simp [hs, or_assoc]

/-- The parts of a text that was joined with the character, if none of them
has it. -/
theorem splitStr_intercalate {parts : List String} (hparts : ∀ p ∈ parts, c ∉ p.toList) (hne : parts ≠ []) :
    splitStr c ((String.singleton c).intercalate parts) = parts := by
  have hsplit : ([c].intercalate (parts.map String.toList)).splitOn c = parts.map String.toList :=
    List.splitOn_intercalate c (by simpa using hparts) (by simpa using hne)
  rw [splitStr, String.toList_intercalate, String.toList_singleton, hsplit, List.map_map]
  simp [Function.comp_def]

/-! ## Searching -/

/-- `find(p)`, of a text `p`. -/
def find (p : List Char) : List Char → Option Nat
  | [] => if p.isEmpty then some 0 else none
  | c :: s => if p.isPrefixOf (c :: s) then some 0 else (find p s).map (· + 1)

/-- `find(cs).unwrap_or(len)`, of some characters `cs`. -/
def findAny (cs s : List Char) : Nat := s.findIdx (cs.contains ·)

/-- `rfind(c)`. -/
def rfind (c : Char) : List Char → Option Nat
  | [] => none
  | x :: s =>
    match rfind c s with
    | some i => some (i + 1)
    | none => if x = c then some 0 else none

/-- A text that begins with a character it has only once is found where it was
put, behind a text that does not have it. -/
theorem find_append {q s : List Char} (hq : x ∉ q) (hs : ¬ x :: q <:+: s) (t : List Char) :
    find (x :: q) (s ++ (x :: q ++ t)) = some s.length := by
  induction s with
  | nil => simp [find]
  | cons c s ih =>
    have hrest : ¬ x :: q <:+: s := fun h => hs (h.trans (List.suffix_cons c s).isInfix)
    have hhere : ¬ x :: q <+: c :: s ++ (x :: q ++ t) := by
      intro h
      obtain hin | hover := List.prefix_or_prefix_of_prefix h (List.prefix_append (c :: s) _)
      · exact hs hin.isInfix
      · -- it would begin a second time within itself
        obtain ⟨r, hr⟩ := hover
        rw [← hr, List.prefix_append_right_inj] at h
        cases r with
        | nil => exact hs (by rw [List.append_nil] at hr; exact hr ▸ List.infix_rfl)
        | cons y r =>
          obtain rfl : y = c := (List.cons_prefix_cons.1 h).1
          obtain ⟨rfl, htail⟩ := List.cons.inj hr
          exact hq (htail ▸ by simp)
    rw [List.cons_append, find, if_neg (by simpa using hhere), ih hrest]
    rfl

section FindAny

variable {cs t : List Char}

theorem findAny_cons (hx : x ∈ cs) (s : List Char) : findAny cs (x :: s) = 0 := by
  simp [findAny, List.findIdx_cons, hx]

/-- None of the characters is in `s`. -/
theorem findAny_append (hs : ∀ y ∈ s, y ∉ cs) (t : List Char) : findAny cs (s ++ t) = s.length + findAny cs t := by
  have hlen : s.findIdx (cs.contains ·) = s.length := List.findIdx_eq_length.2 (by simpa using hs)
  rw [findAny, List.findIdx_append, hlen, if_neg (Nat.lt_irrefl _), Nat.add_comm]
  rfl

/-- One of them is, so the search ends there. -/
theorem findAny_append_left (hs : ∃ y ∈ s, y ∈ cs) (t : List Char) : findAny cs (s ++ t) = findAny cs s := by
  obtain ⟨y, hy, hcs⟩ := hs
  have hlt : s.findIdx (cs.contains ·) < s.length := List.findIdx_lt_length.2 ⟨y, hy, by simpa using hcs⟩
  rw [findAny, List.findIdx_append, if_pos hlt]
  rfl

/-- The text up to the first of them, that one and the rest. -/
theorem split_findAny (hs : ∃ y ∈ s, y ∈ cs) :
    ∃ y ∈ cs, ∃ r, s = s.take (findAny cs s) ++ y :: r ∧ ∀ x ∈ s.take (findAny cs s), x ∉ cs := by
  obtain ⟨y, hy, hcs⟩ := hs
  have hlt : s.findIdx (cs.contains ·) < s.length := List.findIdx_lt_length.2 ⟨y, hy, by simpa using hcs⟩
  refine ⟨s[s.findIdx (cs.contains ·)], by simpa using List.findIdx_getElem (w := hlt), s.drop (findAny cs s + 1), ?_,
    fun x hx hcs => ?_⟩
  · rw [findAny, ← List.drop_eq_getElem_cons hlt, List.take_append_drop]
  · obtain ⟨i, hi, rfl⟩ := List.mem_take_iff_getElem.1 hx
    have hbefore : i < s.findIdx (cs.contains ·) := lt_of_lt_of_le hi (Nat.min_le_left ..)
    exact absurd (List.not_of_lt_findIdx hbefore) (by simpa using hcs)

end FindAny

theorem rfind_eq_none : rfind c s = none ↔ c ∉ s := by
  induction s with
  | nil => simp [rfind]
  | cons y s ih =>
    unfold rfind
    split
    · next i hi =>
      have hmem : c ∈ s := by
        by_contra hnot
        rw [ih.2 hnot] at hi
        cases hi
      simp [hmem]
    · next hnone =>
      have hnot := ih.1 hnone
      by_cases hy : y = c
      · simp [hy]
      · simp [hy, hnot, Ne.symm hy]

/-- Where the last one is. -/
theorem split_rfind {i : Nat} (h : rfind c s = some i) : ∃ a b, s = a ++ c :: b ∧ a.length = i := by
  induction s generalizing i with
  | nil => cases h
  | cons y s ih =>
    unfold rfind at h
    split at h
    · next j hj =>
      cases h
      obtain ⟨a, b, rfl, rfl⟩ := ih hj
      exact ⟨y :: a, b, rfl, rfl⟩
    · split at h
      · next hy =>
        cases h
        exact ⟨[], s, by rw [hy]; rfl, rfl⟩
      · cases h

theorem rfind_append {t : List Char} (ht : c ∉ t) : rfind c (s ++ c :: t) = some s.length := by
  induction s with
  | nil => simp [rfind, rfind_eq_none.2 ht]
  | cons y s ih => simp [rfind, ih]

end Text
