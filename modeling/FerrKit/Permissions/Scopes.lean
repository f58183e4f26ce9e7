/-
Scopes and scope sets (`crates/permissions/src/lib.rs`). A set stores some
scopes and grants those the stored ones imply. Under `implies` the scopes are
ordered, and what a set grants is the lower set its stored scopes generate
(`ScopeSet.grants`): the operations of the code are then the operations of
the lattice of lower sets, `intersection` its meet (`grants_intersection`).
-/
import Mathlib.Order.UpperLower.Closure
import Mathlib.Data.Finset.Image
import Mathlib.Data.Finset.Dedup

namespace FerrKit.Permissions

inductive Scope
  | staffAccess
  | orgOwner | orgAdmin | orgMember | orgBilling | orgAuditor
  | secretsRead | secretsWrite | secretsAdmin
  | issuesRead | issuesWrite | issuesAdmin
  | sitesRead | sitesWrite | sitesAdmin
  | agentsRead | agentsRun | agentsAdmin
  | tokensManage
  deriving DecidableEq, Repr

namespace Scope

def asStr : Scope → String
  | staffAccess => "staff:access"
  | orgOwner => "org:owner"
  | orgAdmin => "org:admin"
  | orgMember => "org:member"
  | orgBilling => "org:billing"
  | orgAuditor => "org:auditor"
  | secretsRead => "secrets:read"
  | secretsWrite => "secrets:write"
  | secretsAdmin => "secrets:admin"
  | issuesRead => "issues:read"
  | issuesWrite => "issues:write"
  | issuesAdmin => "issues:admin"
  | sitesRead => "sites:read"
  | sitesWrite => "sites:write"
  | sitesAdmin => "sites:admin"
  | agentsRead => "agents:read"
  | agentsRun => "agents:run"
  | agentsAdmin => "agents:admin"
  | tokensManage => "tokens:manage"

def parse (s : String) : Option Scope :=
  match s with
  | "staff:access" => some staffAccess
  | "org:owner" => some orgOwner
  | "org:admin" => some orgAdmin
  | "org:member" => some orgMember
  | "org:billing" => some orgBilling
  | "org:auditor" => some orgAuditor
  | "secrets:read" => some secretsRead
  | "secrets:write" => some secretsWrite
  | "secrets:admin" => some secretsAdmin
  | "issues:read" => some issuesRead
  | "issues:write" => some issuesWrite
  | "issues:admin" => some issuesAdmin
  | "sites:read" => some sitesRead
  | "sites:write" => some sitesWrite
  | "sites:admin" => some sitesAdmin
  | "agents:read" => some agentsRead
  | "agents:run" => some agentsRun
  | "agents:admin" => some agentsAdmin
  | "tokens:manage" => some tokensManage
  | _ => none

def all : List Scope :=
  [staffAccess, orgOwner, orgAdmin, orgMember, orgBilling, orgAuditor, secretsRead, secretsWrite, secretsAdmin,
    issuesRead, issuesWrite, issuesAdmin, sitesRead, sitesWrite, sitesAdmin, agentsRead, agentsRun, agentsAdmin,
    tokensManage]

def implies (self other : Scope) : Bool :=
  if self = other then true
  else
    match self, other with
    | secretsAdmin, secretsWrite | secretsAdmin, secretsRead => true
    | secretsWrite, secretsRead => true
    | issuesAdmin, issuesWrite | issuesAdmin, issuesRead => true
    | issuesWrite, issuesRead => true
    | sitesAdmin, sitesWrite | sitesAdmin, sitesRead => true
    | sitesWrite, sitesRead => true
    | agentsAdmin, agentsRun | agentsAdmin, agentsRead => true
    | agentsRun, agentsRead => true
    | orgOwner, orgAdmin | orgOwner, orgMember | orgOwner, orgBilling | orgOwner, orgAuditor => true
    | orgAdmin, orgMember | orgAdmin, orgAuditor => true
    | _, _ => false

@[simp] theorem parse_asStr (s : Scope) : parse s.asStr = some s := by cases s <;> rfl

/-- The two tables agree: a scope is read from its own text and no other. -/
theorem parse_eq_some_iff {text : String} {s : Scope} : parse text = some s ↔ text = s.asStr := by
  constructor
  · intro h
    unfold parse at h
    split at h <;> cases h <;> rfl
  · rintro rfl
    exact parse_asStr s

@[simp] theorem mem_all (s : Scope) : s ∈ all := by cases s <;> decide

@[simp] theorem implies_refl (s : Scope) : s.implies s = true := by simp [implies]

/-- The table, by the scope on its left. -/
theorem implies_iff_mem {a b : Scope} : a.implies b = true ↔ b ∈ all.filter a.implies := by simp

/-- A chain of implications is an implication of the table. -/
theorem implies_trans {a b c : Scope} (hab : a.implies b = true) (hbc : b.implies c = true) : a.implies c = true := by
  have hall : ∀ a ∈ all, ∀ b ∈ all.filter a.implies, ∀ c ∈ all.filter b.implies, a.implies c = true := by decide
  exact hall a (mem_all a) b (implies_iff_mem.1 hab) c (implies_iff_mem.1 hbc)

/-- The scope that implies is the larger one. -/
instance : Preorder Scope where
  le a b := b.implies a = true
  le_refl := implies_refl
  le_trans _ _ _ hab hbc := implies_trans hbc hab

theorem le_iff_implies {a b : Scope} : a ≤ b ↔ b.implies a = true := Iff.rfl

end Scope

structure AccessDenied where
  missing : Scope
  deriving DecidableEq, Repr

/-- The stored scopes. -/
structure ScopeSet where
  inner : Finset Scope
  deriving DecidableEq

namespace ScopeSet

def empty : ScopeSet := ⟨∅⟩

def fullSession : ScopeSet := ⟨(Scope.all.filter (· ≠ .staffAccess)).toFinset⟩

def fromStrings (scopes : List String) : ScopeSet := ⟨(scopes.filterMap Scope.parse).toFinset⟩

def fromStringsWithWildcard (scopes : List String) : ScopeSet :=
  -- the closure sets a flag at each "*" and goes on to the end of the list
  let wildcard := scopes.any (· == "*")
  let parsed := (scopes.filterMap fun s => if s == "*" then none else Scope.parse s).toFinset
  if wildcard then ⟨parsed ∪ fullSession.inner⟩ else ⟨parsed⟩

def has (self : ScopeSet) (scope : Scope) : Bool := decide (∃ granted ∈ self.inner, granted.implies scope = true)

def require (self : ScopeSet) (scope : Scope) : Except AccessDenied Unit :=
  if self.has scope then .ok () else .error ⟨scope⟩

/-- The set after the call, and whether the scope is new in it. -/
def insert (self : ScopeSet) (scope : Scope) : ScopeSet × Bool :=
  (⟨Insert.insert scope self.inner⟩, decide (scope ∉ self.inner))

def intersection (self other : ScopeSet) : ScopeSet :=
  ⟨(Scope.all.filter fun scope => self.has scope && other.has scope).toFinset⟩

/-! ## What a set grants -/

/-- The scopes a set grants, as a lower set. -/
def grants (a : ScopeSet) : LowerSet Scope := lowerClosure (a.inner : Set Scope)

/-- The code's test is membership in the granted scopes. -/
theorem has_iff_mem_grants {a : ScopeSet} {x : Scope} : a.has x = true ↔ x ∈ a.grants := by
  rw [has, decide_eq_true_iff, grants, mem_lowerClosure]
  rfl

theorem grants_empty : empty.grants = ⊥ := by
  simp [grants, empty]

theorem grants_insert (a : ScopeSet) (x : Scope) : (a.insert x).1.grants = a.grants ⊔ LowerSet.Iic x := by
  rw [grants, insert, Finset.coe_insert, Set.insert_eq, lowerClosure_union, lowerClosure_singleton, sup_comm]
  rfl

theorem grants_intersection (a b : ScopeSet) : (a.intersection b).grants = a.grants ⊓ b.grants := by
  have hinner : ((a.intersection b).inner : Set Scope) = ((a.grants ⊓ b.grants : LowerSet Scope) : Set Scope) := by
    ext x
    simp [intersection, has_iff_mem_grants]
  rw [grants, hinner]
  exact LowerSet.lowerClosure _

/-- The same scopes pass `has`. -/
def HasEquiv (a b : ScopeSet) : Prop := ∀ x, a.has x = b.has x

theorem hasEquiv_iff_grants {a b : ScopeSet} : HasEquiv a b ↔ a.grants = b.grants := by
  constructor
  · intro h
    ext x
    show x ∈ a.grants ↔ x ∈ b.grants
    rw [← has_iff_mem_grants, h x, has_iff_mem_grants]
  · intro h x
    rw [Bool.eq_iff_iff, has_iff_mem_grants, has_iff_mem_grants, h]

theorem has_of_implies {a : ScopeSet} {x y : Scope} (hxy : x.implies y = true) (h : a.has x = true) : a.has y = true :=
  has_iff_mem_grants.2 (a.grants.lower (Scope.le_iff_implies.2 hxy) (has_iff_mem_grants.1 h))

theorem require_ok_iff {a : ScopeSet} {x : Scope} : a.require x = .ok () ↔ x ∈ a.grants := by
  rw [← has_iff_mem_grants, require]
  split <;> simp_all

theorem has_intersection {a b : ScopeSet} {x : Scope} :
    (a.intersection b).has x = true ↔ a.has x = true ∧ b.has x = true := by
  rw [has_iff_mem_grants, grants_intersection, LowerSet.mem_inf_iff, has_iff_mem_grants, has_iff_mem_grants]

/-- **The intersection is the meet.** It grants exactly what both sides grant,
so up to what is granted it is commutative, associative and idempotent and
never adds anything; and a granted scope grants what it implies. -/
theorem intersection_laws (a b c : ScopeSet) :
    (∀ x, (a.intersection b).has x = true ↔ a.has x = true ∧ b.has x = true) ∧
      HasEquiv (a.intersection b) (b.intersection a) ∧
      HasEquiv ((a.intersection b).intersection c) (a.intersection (b.intersection c)) ∧
      HasEquiv (a.intersection a) a ∧
      (∀ x, a.has x = false ∨ b.has x = false → (a.intersection b).has x = false) ∧
      ∀ x y, x.implies y = true → a.has x = true → a.has y = true := by
  simp only [hasEquiv_iff_grants, grants_intersection]
  refine ⟨fun x => has_intersection, inf_comm _ _, inf_assoc _ _ _, inf_idem _, fun x hlack => ?_,
    fun x y => has_of_implies⟩
  rw [Bool.eq_false_iff, Ne, has_intersection]
  rintro ⟨ha, hb⟩
  rw [ha, hb] at hlack
  simp at hlack

end ScopeSet

end FerrKit.Permissions
