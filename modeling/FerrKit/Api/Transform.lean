/-
Contract changes and their registry (`crates/api-version/src/transform.rs`).
A registry keeps its transforms ascending by version, as a field says; both
walks and `touches` read that one list.
-/
import FerrKit.Api.Version
import FerrKit.Lib.Json
import FerrKit.Lib.KeySort

namespace FerrKit.Api

open KeySort

/-- `http::Method`, by its name. -/
abbrev Method := String

/-- `trait Transform`; `&mut Value` is passed and returned. -/
structure Transform where
  version : ApiVersion
  appliesTo : String → Method → Bool
  downgradeResponse : Json.Value → Json.Value
  upgradeRequest : Json.Value → Json.Value := id

structure TransformRegistry where
  transforms : List Transform
  sorted : Sorted Transform.version transforms

namespace TransformRegistry

def new : TransformRegistry := ⟨[], List.Pairwise.nil⟩

/-- `with`: push, then `sort_by_key`. -/
def register (r : TransformRegistry) (t : Transform) : TransformRegistry :=
  ⟨sortByKey Transform.version (r.transforms ++ [t]), sortByKey_sorted _ _⟩

def oldestChange (r : TransformRegistry) : Option ApiVersion := r.transforms.head?.map (·.version)

/-- A transform applies to a caller pinned before it, on a route it claims. -/
def active (pinned : ApiVersion) (route : String) (method : Method) (t : Transform) : Bool :=
  decide (t.version > pinned) && t.appliesTo route method

def downgradeResponse (r : TransformRegistry) (pinned : ApiVersion) (route : String) (method : Method)
    (body : Json.Value) : Json.Value :=
  r.transforms.reverse.foldl (fun body t => if active pinned route method t then t.downgradeResponse body else body)
    body

def upgradeRequest (r : TransformRegistry) (pinned : ApiVersion) (route : String) (method : Method)
    (body : Json.Value) : Json.Value :=
  r.transforms.foldl (fun body t => if active pinned route method t then t.upgradeRequest body else body) body

def touches (r : TransformRegistry) (pinned : ApiVersion) (route : String) (method : Method) : Bool :=
  r.transforms.any (active pinned route method)

/-- `new()` and then `with` for each. -/
def registerAll (ts : List Transform) : TransformRegistry := ts.foldl register new

/-! ## What a walk does -/

variable {r : TransformRegistry} {pinned p q : ApiVersion} {route : String} {method : Method}

/-- The transforms a walk applies, oldest first. -/
def chain (r : TransformRegistry) (pinned : ApiVersion) (route : String) (method : Method) : List Transform :=
  r.transforms.filter (active pinned route method)

theorem downgradeResponse_eq (body : Json.Value) : r.downgradeResponse pinned route method body =
    (r.chain pinned route method).reverse.foldl (fun body t => t.downgradeResponse body) body := by
  rw [chain, ← List.filter_reverse, List.foldl_filter]
  rfl

theorem upgradeRequest_eq (body : Json.Value) : r.upgradeRequest pinned route method body =
    (r.chain pinned route method).foldl (fun body t => t.upgradeRequest body) body := by
  rw [chain, List.foldl_filter]
  rfl

theorem touches_eq_false : r.touches pinned route method = false ↔ r.chain pinned route method = [] := by
  simp [touches, chain, List.filter_eq_nil_iff]

theorem chain_sorted : Sorted Transform.version (r.chain pinned route method) := r.sorted.filter _

theorem register_perm (r : TransformRegistry) (t : Transform) : (r.register t).transforms.Perm (t :: r.transforms) :=
  (sortByKey_perm _ _).trans (List.perm_append_singleton t _)

theorem foldl_register_perm (ts : List Transform) (r : TransformRegistry) :
    (ts.foldl register r).transforms.Perm (ts ++ r.transforms) := by
  induction ts generalizing r with
  | nil => exact .refl _
  | cons t ts ih => exact (ih _).trans (((register_perm r t).append_left ts).trans List.perm_middle)

/-- A registry holds what was registered, each as often. -/
theorem registerAll_perm (ts : List Transform) : (registerAll ts).transforms.Perm ts := by
  have h := foldl_register_perm ts new
  rwa [show new.transforms = [] from rfl, List.append_nil] at h

end TransformRegistry

end FerrKit.Api
