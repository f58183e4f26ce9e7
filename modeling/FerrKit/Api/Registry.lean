/-
Laws of the transform registry. The walk to an older version goes through
any version in between, a document carried forward and rendered back is
unchanged, and where nothing is touched nothing happens.

Order of registration is another matter. The sort is stable, so transforms
of one date run in the order they were registered in, and two of them that
claim one route and do not commute answer differently: the order is
irrelevant exactly for stocks of transforms in which those of one date
commute.
-/
import FerrKit.Api.Transform

namespace FerrKit.Api.TransformRegistry

open KeySort

variable {r : TransformRegistry} {pinned p q : ApiVersion} {route : String} {method : Method}

/-! ## Walks -/

/-- The transforms that claim the route and landed after `p`, up to `q`. -/
def between (r : TransformRegistry) (p q : ApiVersion) (route : String) (method : Method) : List Transform :=
  r.transforms.filter fun t => (decide (p < t.version) && decide (t.version ≤ q)) && t.appliesTo route method

theorem chain_through (hpq : p ≤ q) :
    r.chain p route method = r.between p q route method ++ r.chain q route method := by
  have hlow : (r.chain p route method).filter (fun t => t.version ≤ q) = r.between p q route method := by
    rw [chain, List.filter_filter, between]
    refine List.filter_congr fun t _ => ?_
    simp only [active, gt_iff_lt]
    cases decide (p < t.version) <;> cases decide (t.version ≤ q) <;> cases t.appliesTo route method <;> rfl
  have hhigh : (r.chain p route method).filter (fun t => q < t.version) = r.chain q route method := by
    rw [chain, List.filter_filter, chain]
    refine List.filter_congr fun t _ => ?_
    by_cases hq : q < t.version
    · simp [active, hq, lt_of_le_of_lt hpq hq]
    · simp [active, hq]
  conv_lhs => rw [chain_sorted.split q]
  rw [hlow, hhigh]

/-- The two branches of `negotiate` (`layer.rs`), on the documents that pass
through it. -/
def negotiate (r : TransformRegistry) (version : ApiVersion) (route : String) (method : Method)
    (handler : Json.Value → Json.Value) (request : Json.Value) : Json.Value :=
  if !r.touches version route method then handler request
  else r.downgradeResponse version route method (handler (r.upgradeRequest version route method request))

theorem walks_of_untouched (h : r.touches pinned route method = false) (body : Json.Value) :
    r.downgradeResponse pinned route method body = body ∧ r.upgradeRequest pinned route method body = body := by
  rw [downgradeResponse_eq, upgradeRequest_eq, touches_eq_false.1 h]
  exact ⟨rfl, rfl⟩

theorem negotiate_eq (handler : Json.Value → Json.Value) (request : Json.Value) :
    r.negotiate pinned route method handler request =
      r.downgradeResponse pinned route method (handler (r.upgradeRequest pinned route method request)) := by
  unfold negotiate
  cases ht : r.touches pinned route method with
  | true => rfl
  | false =>
    rw [(walks_of_untouched ht request).2, (walks_of_untouched ht _).1]
    rfl

/-- Between two versions are the transforms that were registered with a date
in between and claim the route, each as often. -/
theorem between_registerAll (ts : List Transform) (p q : ApiVersion) (route : String) (method : Method) :
    ((registerAll ts).between p q route method).Perm
      (ts.filter fun t => (decide (p < t.version) && decide (t.version ≤ q)) && t.appliesTo route method) :=
  (registerAll_perm ts).filter _

/-- **A walk goes through every version on its way**, whatever was registered
in whatever order. To `p`, a response is downgraded to `q` and then, newest
first, by exactly the registered transforms in `(p, q]` that claim the route;
from `p`, a request is upgraded by these, oldest first, and then from `q`.
Where nothing is touched both leave every document alone, so the fast path of
`negotiate` is the other one. -/
theorem walks_through (ts : List Transform) (hpq : p ≤ q) (route : String) (method : Method) (body : Json.Value) :
    ((registerAll ts).between p q route method).Perm
      (ts.filter fun t => (decide (p < t.version) && decide (t.version ≤ q)) && t.appliesTo route method) ∧
    Sorted Transform.version ((registerAll ts).between p q route method) ∧
    (registerAll ts).downgradeResponse p route method body =
      ((registerAll ts).between p q route method).reverse.foldl (fun body t => t.downgradeResponse body)
        ((registerAll ts).downgradeResponse q route method body) ∧
    (registerAll ts).upgradeRequest p route method body =
      (registerAll ts).upgradeRequest q route method
        (((registerAll ts).between p q route method).foldl (fun body t => t.upgradeRequest body) body) ∧
    ((registerAll ts).touches p route method = false →
      (registerAll ts).downgradeResponse p route method body = body ∧
        (registerAll ts).upgradeRequest p route method body = body) ∧
    ∀ handler, (registerAll ts).negotiate p route method handler body =
      (registerAll ts).downgradeResponse p route method
        (handler ((registerAll ts).upgradeRequest p route method body)) := by
  refine ⟨between_registerAll ts p q route method, (registerAll ts).sorted.filter _, ?_, ?_,
    fun ht => walks_of_untouched ht body, fun handler => negotiate_eq handler body⟩
  · rw [downgradeResponse_eq, downgradeResponse_eq, chain_through hpq, List.reverse_append, List.foldl_append]
  · rw [upgradeRequest_eq, upgradeRequest_eq, chain_through hpq, List.foldl_append]

/-- Puts a mark on the trail it finds in a body, both ways. -/
def marker (landed : ApiVersion) (tag : String) : Transform where
  version := landed
  appliesTo route _ := route == "/agents"
  downgradeResponse body := mark body
  upgradeRequest body := mark body
where
  mark : Json.Value → Json.Value
    | .string trail => .string (trail ++ tag)
    | body => body

def august : ApiVersion := ⟨2026, 8, 1, by decide, by decide⟩

def september : ApiVersion := ⟨2026, 9, 1, by decide, by decide⟩

theorem walks_through_september :
    ((registerAll [marker september "b", marker august "a"]).between august september "/agents" "GET").Perm
      [marker september "b"] ∧
    (registerAll [marker september "b", marker august "a"]).upgradeRequest august "/agents" "GET" (.string "") =
      (registerAll [marker september "b", marker august "a"]).upgradeRequest september "/agents" "GET"
        (((registerAll [marker september "b", marker august "a"]).between august september "/agents" "GET").foldl
          (fun body t => t.upgradeRequest body) (.string "")) := by
  have h := walks_through [marker september "b", marker august "a"] (by decide : august ≤ september) "/agents" "GET"
    (.string "")
  exact ⟨h.1, h.2.2.2.1⟩

/-- **What is carried forward is rendered back**, through a chain of any
length, when each transform undoes itself. -/
theorem render_carried (r : TransformRegistry)
    (h : ∀ t ∈ r.transforms, ∀ b, t.downgradeResponse (t.upgradeRequest b) = b) (pinned : ApiVersion) (route : String)
    (method : Method) (body : Json.Value) :
    r.downgradeResponse pinned route method (r.upgradeRequest pinned route method body) = body := by
  rw [downgradeResponse_eq, upgradeRequest_eq]
  exact foldl_reverse_foldl (fun t ht => h t (List.mem_of_mem_filter ht)) body

/-- Since then the documents of a route come in a list. -/
def listed (landed : ApiVersion) : Transform where
  version := landed
  appliesTo route _ := route == "/agents"
  downgradeResponse
    | .array [body] => body
    | body => body
  upgradeRequest body := .array [body]

theorem render_carried_twice (body : Json.Value) :
    ∀ t ∈ (registerAll [listed august, listed september]).transforms, t.downgradeResponse (t.upgradeRequest body) = body := by
  intro t ht
  rcases List.mem_pair.1 ((registerAll_perm _).mem_iff.1 ht) with rfl | rfl <;> rfl

theorem render_carried_listed :
    (registerAll [listed august, listed september]).downgradeResponse ⟨2026, 7, 1, by decide, by decide⟩ "/agents" "POST"
      ((registerAll [listed august, listed september]).upgradeRequest ⟨2026, 7, 1, by decide, by decide⟩ "/agents" "POST"
        .null) = .null :=
  render_carried _ (fun t ht b => render_carried_twice b t ht) _ _ _ _

/-! ## Order of registration -/

/-- The same answer to every caller. -/
def SameBehaviour (r r' : TransformRegistry) : Prop :=
  ∀ pinned route method body,
    r.downgradeResponse pinned route method body = r'.downgradeResponse pinned route method body ∧
      r.upgradeRequest pinned route method body = r'.upgradeRequest pinned route method body

/-- Wherever both are applied, it does not matter which is first. -/
def Interchangeable (a b : Transform) : Prop :=
  ∀ pinned route method, active pinned route method a = true → active pinned route method b = true → ∀ body,
    a.downgradeResponse (b.downgradeResponse body) = b.downgradeResponse (a.downgradeResponse body) ∧
      a.upgradeRequest (b.upgradeRequest body) = b.upgradeRequest (a.upgradeRequest body)

theorem sameBehaviour_of_perm {r r' : TransformRegistry} (hp : r.transforms.Perm r'.transforms)
    (hc : ∀ a ∈ r.transforms, ∀ b ∈ r.transforms, a.version = b.version → Interchangeable a b) :
    SameBehaviour r r' := by
  intro pinned route method body
  have hperm : (r.chain pinned route method).Perm (r'.chain pinned route method) := hp.filter _
  have hcom : ∀ a ∈ r.chain pinned route method, ∀ b ∈ r.chain pinned route method, a.version = b.version →
      ∀ body, a.downgradeResponse (b.downgradeResponse body) = b.downgradeResponse (a.downgradeResponse body) ∧
        a.upgradeRequest (b.upgradeRequest body) = b.upgradeRequest (a.upgradeRequest body) := by
    intro a ha b hb hv
    obtain ⟨ha, haa⟩ := List.mem_filter.1 ha
    obtain ⟨hb, hba⟩ := List.mem_filter.1 hb
    exact hc a ha b hb hv pinned route method haa hba
  constructor
  · -- the downgrade runs newest first: the same lists under the opposite order
    rw [downgradeResponse_eq, downgradeResponse_eq]
    refine chain_sorted.reverse.foldl_eq_of_perm chain_sorted.reverse
      (((List.reverse_perm _).trans hperm).trans (List.reverse_perm _).symm) (fun a ha b hb hv body => ?_) body
    exact ((hcom a (List.mem_reverse.1 ha) b (List.mem_reverse.1 hb) hv body).1).symm
  · rw [upgradeRequest_eq, upgradeRequest_eq]
    exact chain_sorted.foldl_eq_of_perm chain_sorted hperm
      (fun a ha b hb hv body => ((hcom a ha b hb hv body).2).symm) body

/-- Two transforms of one date stay in the order they came in. -/
theorem registerAll_pair {a b : Transform} (hv : a.version = b.version) : (registerAll [a, b]).transforms = [a, b] := by
  have h₁ : (new.register a).transforms = [a] := sortByKey_of_sorted (List.pairwise_singleton _ _)
  show sortByKey Transform.version ((new.register a).transforms ++ [b]) = [a, b]
  rw [h₁]
  exact sortByKey_of_sorted (by simp [Sorted, hv])

/-- **The order of registration does not matter exactly when transforms of
one date commute.** For every stock of transforms: any two orders of
registering any collection drawn from it give registries that behave alike,
if and only if any two of the stock that carry one date are interchangeable
wherever both are applied. -/
theorem orderIrrelevant_iff (stock : Transform → Prop) :
    (∀ ts ts' : List Transform, ts.Perm ts' → (∀ t ∈ ts, stock t) → SameBehaviour (registerAll ts) (registerAll ts')) ↔
      ∀ a b, stock a → stock b → a.version = b.version → Interchangeable a b := by
  constructor
  · intro h a b ha hb hv pinned route method haa hba body
    obtain ⟨hd, hu⟩ := h [a, b] [b, a] (.swap b a []) (by simp [ha, hb]) pinned route method body
    rw [downgradeResponse_eq, downgradeResponse_eq, chain, chain, registerAll_pair hv, registerAll_pair hv.symm] at hd
    rw [upgradeRequest_eq, upgradeRequest_eq, chain, chain, registerAll_pair hv, registerAll_pair hv.symm] at hu
    simp only [List.filter_cons, haa, hba, if_true, List.filter_nil, List.reverse_cons, List.reverse_nil,
      List.nil_append, List.cons_append, List.foldl_cons, List.foldl_nil] at hd hu
    exact ⟨hd, hu.symm⟩
  · intro h ts ts' hp hs
    have hall : ∀ t ∈ (registerAll ts).transforms, stock t := fun t ht => hs t ((registerAll_perm ts).mem_iff.1 ht)
    exact sameBehaviour_of_perm ((registerAll_perm ts).trans (hp.trans (registerAll_perm ts').symm))
      fun a ha b hb => h a b (hall a ha) (hall b hb)

/-- Two changes of one date on one route: registered the other way round,
they leave the other trail. -/
theorem sameDate_order_shows : ¬ ∀ ts ts' : List Transform, ts.Perm ts' →
    SameBehaviour (registerAll ts) (registerAll ts') := by
  intro h
  obtain ⟨hd, -⟩ := h [marker september "a", marker september "b"] [marker september "b", marker september "a"]
    (.swap _ _ []) august "/agents" "GET" (.string "")
  have hab : (registerAll [marker september "a", marker september "b"]).transforms = _ := registerAll_pair rfl
  have hba : (registerAll [marker september "b", marker september "a"]).transforms = _ := registerAll_pair rfl
  rw [downgradeResponse, downgradeResponse, hab, hba] at hd
  have hd : Json.Value.string "ba" = Json.Value.string "ab" := hd
  simp at hd

end FerrKit.Api.TransformRegistry
