/-
Scope sets from and to text (`crates/permissions/src/lib.rs`): the strings
stored with a token, in which `*` may stand for a full session, and the
space-separated list of the `scope` claim. `mem_fromStringsWithWildcard` says
which scopes a list of strings stores; what the list grants follows from it.

Left out: `iter`, which lists the stored scopes.
-/
import FerrKit.Permissions.Scopes
import FerrKit.Lib.Text
import Mathlib.Data.Multiset.Sort
import Mathlib.Data.String.Basic

namespace FerrKit.Permissions

namespace ScopeSet

/-- The parts come out of a `HashSet` in any order and are sorted. -/
def toOidcScopeString (self : ScopeSet) : String :=
  let parts := (self.inner.val.map Scope.asStr).sort (· ≤ ·)
  " ".intercalate parts

variable {x : Scope} {scopes : List String}

/-! ## What a list of strings stores -/

theorem mem_fromStrings : x ∈ (fromStrings scopes).inner ↔ x.asStr ∈ scopes := by
  simp [fromStrings, Scope.parse_eq_some_iff]

theorem mem_fullSession : x ∈ fullSession.inner ↔ x ≠ .staffAccess := by simp [fullSession]

theorem asStr_injective {x y : Scope} (h : x.asStr = y.asStr) : x = y := by
  have hparse : Scope.parse x.asStr = Scope.parse y.asStr := congrArg Scope.parse h
  simpa using hparse

/-- The wildcard is not the text of a scope. -/
theorem wildcard_ne_asStr (x : Scope) : x.asStr ≠ "*" := by
  intro h
  have hnone : Scope.parse "*" = none := rfl
  rw [← h, Scope.parse_asStr] at hnone
  cases hnone

/-- The closure that notices the wildcard passes the rest on as
`from_strings` does. -/
theorem mem_parsed : x ∈ scopes.filterMap (fun s => if s == "*" then none else Scope.parse s) ↔ x.asStr ∈ scopes := by
  rw [List.mem_filterMap]
  constructor
  · rintro ⟨s, hs, hparse⟩
    split at hparse
    · cases hparse
    · rwa [← Scope.parse_eq_some_iff.1 hparse]
  · intro hx
    refine ⟨x.asStr, hx, ?_⟩
    rw [if_neg (by simp [wildcard_ne_asStr]), Scope.parse_asStr]

theorem mem_fromStringsWithWildcard :
    x ∈ (fromStringsWithWildcard scopes).inner ↔ x.asStr ∈ scopes ∨ "*" ∈ scopes ∧ x ≠ .staffAccess := by
  have hflag : scopes.any (· == "*") = true ↔ "*" ∈ scopes := by simp
  unfold fromStringsWithWildcard
  by_cases hw : "*" ∈ scopes
  · simp only [if_pos (hflag.2 hw), Finset.mem_union, List.mem_toFinset, mem_parsed, mem_fullSession, hw, true_and]
  · simp only [if_neg (hflag.not.2 hw), List.mem_toFinset, mem_parsed, hw, false_and, or_false]

/-- Staff access is implied by nothing else. -/
theorem implies_staffAccess_iff {granted : Scope} : granted.implies .staffAccess = true ↔ granted = .staffAccess := by
  cases granted <;> decide

theorem has_fromStringsWithWildcard :
    (fromStringsWithWildcard scopes).has x = true ↔
      (∃ s ∈ scopes, ∃ granted, Scope.parse s = some granted ∧ granted.implies x = true) ∨
        "*" ∈ scopes ∧ x ≠ .staffAccess := by
  simp only [has, decide_eq_true_iff, mem_fromStringsWithWildcard]
  constructor
  · rintro ⟨granted, hlisted | ⟨hw, hstaff⟩, himplies⟩
    · exact .inl ⟨granted.asStr, hlisted, granted, Scope.parse_asStr granted, himplies⟩
    · refine .inr ⟨hw, ?_⟩
      rintro rfl
      exact hstaff (implies_staffAccess_iff.1 himplies)
  · rintro (⟨s, hs, granted, hparse, himplies⟩ | ⟨hw, hstaff⟩)
    · rw [Scope.parse_eq_some_iff.1 hparse] at hs
      exact ⟨granted, .inl hs, himplies⟩
    · exact ⟨x, .inr ⟨hw, hstaff⟩, Scope.implies_refl x⟩

theorem has_staffAccess_iff : (fromStringsWithWildcard scopes).has .staffAccess = true ↔ "staff:access" ∈ scopes := by
  simp only [has, decide_eq_true_iff, implies_staffAccess_iff, exists_eq_right, mem_fromStringsWithWildcard]
  simp [Scope.asStr]

/-! ## The `scope` claim -/

theorem space_notMem_asStr (x : Scope) : ' ' ∉ x.asStr.toList := by cases x <;> decide

theorem asStr_ne_empty (x : Scope) : x.asStr ≠ "" := by cases x <;> decide

theorem mem_parts {self : ScopeSet} {part : String} :
    part ∈ (self.inner.val.map Scope.asStr).sort (· ≤ ·) ↔ ∃ x ∈ self.inner, x.asStr = part := by
  simp

/-- The pieces of the claim are the parts it was made of, and one empty piece
where there are none. -/
theorem mem_split_toOidcScopeString (self : ScopeSet) :
    x.asStr ∈ Text.splitStr ' ' self.toOidcScopeString ↔ x ∈ self.inner := by
  have hparts : x.asStr ∈ (self.inner.val.map Scope.asStr).sort (· ≤ ·) ↔ x ∈ self.inner := by
    rw [mem_parts]
    refine ⟨?_, fun hx => ⟨x, hx, rfl⟩⟩
    rintro ⟨y, hy, heq⟩
    rwa [asStr_injective heq] at hy
  rw [← hparts, toOidcScopeString]
  by_cases hnil : (self.inner.val.map Scope.asStr).sort (· ≤ ·) = []
  · rw [hnil]
    have hempty : x.asStr ≠ "" := asStr_ne_empty x
    simpa [Text.splitStr] using hempty
  · refine iff_of_eq (congrArg (x.asStr ∈ ·) (Text.splitStr_intercalate ?_ hnil))
    intro p hp
    obtain ⟨y, -, rfl⟩ := mem_parts.1 hp
    exact space_notMem_asStr y

theorem fromStrings_toOidcScopeString (self : ScopeSet) :
    fromStrings (Text.splitStr ' ' self.toOidcScopeString) = self := by
  have hinner : (fromStrings (Text.splitStr ' ' self.toOidcScopeString)).inner = self.inner := by
    ext x
    rw [mem_fromStrings, mem_split_toOidcScopeString]
  exact congrArg ScopeSet.mk hinner

/-- **Scopes as strings.** A list of strings grants what its entries imply
and, with the wildcard, everything but staff access, which has to be listed
itself; and a set is read back from the claim it is written to. -/
theorem scope_strings_exact :
    (∀ scopes x, (fromStringsWithWildcard scopes).has x = true ↔
      (∃ s ∈ scopes, ∃ granted, Scope.parse s = some granted ∧ granted.implies x = true) ∨
        "*" ∈ scopes ∧ x ≠ .staffAccess) ∧
      (∀ scopes, (fromStringsWithWildcard scopes).has .staffAccess = true ↔ "staff:access" ∈ scopes) ∧
      ∀ s : ScopeSet, fromStrings (Text.splitStr ' ' s.toOidcScopeString) = s :=
  ⟨fun _ _ => has_fromStringsWithWildcard, fun _ => has_staffAccess_iff, fromStrings_toOidcScopeString⟩

end ScopeSet

end FerrKit.Permissions
