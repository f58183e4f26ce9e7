/-
The Stripe client (`crates/billing/src/client.rs`) against Stripe: one
subscription per org and product, on one item whose price stands for the
tier, with org, product and tier in its metadata.

Calls of any number of clients go on at a time. A call makes one request, or
two (`update_tier` looks for the item first), and between them anything may
happen. Stripe carries a request out or does not, and its answer may get
lost; it changes the status of a subscription as it likes, and nothing else
by itself. Stripe is a parameter (`StripeApi`); what is assumed of it is
`StripeApi.Documented`: which items and metadata a subscription has after a
request. A metadata value that is the empty text unsets its key there.

`described` is the invariant: a subscription is always as one of the calls
for it has written it, price and metadata together. Left out: the HTTP of
`async-stripe`, the secret key and all the other fields of its objects.
-/
import FerrKit.Billing.Events
import FerrKit.Lib.Results
import FerrKit.Lib.Runs

namespace FerrKit.Billing

structure PlanPrice where
  product : Product
  tier : Plan
  priceId : String
  deriving DecidableEq

def tierSlug : Plan → String
  | .free => "free"
  | .pro => "pro"
  | .team => "team"
  | .enterprise => "enterprise"

/-- Metadata of a request. -/
abbrev Stamp := List (String × String)

def subscriptionMetadata (orgId : String) (plan : PlanPrice) : Stamp :=
  [("org_id", orgId), ("product", plan.product.slug), ("tier", tierSlug plan.tier)]

/-- `BillingError`, as far as the client returns it. -/
inductive ClientError
  | stripe (reason : String)
  | missingField (field : String)
  deriving DecidableEq

/-- Which texts are ids: `str::parse` of `CustomerId` and `SubscriptionId`. -/
structure Ids where
  customer : String → Bool
  subscription : String → Bool

/-! ## Stripe -/

structure Customer where
  id : String
  email : String
  metadata : String → Option String
  deleted : Bool

structure Item where
  id : String
  price : String
  deriving DecidableEq

structure Subscription where
  id : String
  customer : String
  status : String
  items : List Item
  metadata : String → Option String

inductive Request
  | createCustomer (email : String) (metadata : Stamp)
  | retrieveCustomer (id : String)
  | createSubscription (customer price : String) (metadata : Stamp)
  | retrieveSubscription (id : String)
  | updateSubscription (id item price : String) (metadata : Stamp)
  | cancelSubscription (id : String)
  deriving DecidableEq

/-- What a request is answered with. -/
inductive Object
  | customer (c : Customer)
  | subscription (s : Subscription)

structure Stripe where
  customers : String → Option Customer
  subscriptions : String → Option Subscription

/-- What Stripe chooses for a new object. -/
structure Fresh where
  id : String
  item : String
  status : String

def putMetadata (metadata : String → Option String) (new : Stamp) : String → Option String :=
  new.foldl (fun m kv => Function.update m kv.1 (if kv.2 = "" then none else some kv.2)) metadata

/-- The item gets the price; the other items stay. -/
def Subscription.swap (sub : Subscription) (item price : String) (metadata : Stamp) : Subscription :=
  { sub with
    items := sub.items.map fun i => if i.id = item then { i with price } else i
    metadata := putMetadata sub.metadata metadata }

/-- The request sets items and metadata of a subscription. -/
def Request.setsPlan : Request → Bool
  | .createSubscription .. | .updateSubscription .. => true
  | .createCustomer .. | .retrieveCustomer _ | .retrieveSubscription _ | .cancelSubscription _ => false

/-- Stripe carries a request out, or not. -/
structure StripeApi where
  serve : Stripe → Fresh → Request → Option (Stripe × Object)

structure StripeApi.Documented (api : StripeApi) : Prop where
  /-- A new subscription has the one item and the metadata it was asked for
  with. -/
  create : ∀ {stripe fresh customer price metadata stripe' answer},
    api.serve stripe fresh (.createSubscription customer price metadata) = some (stripe', answer) →
    ∃ sub item, sub.customer = customer ∧ sub.items = [⟨item, price⟩] ∧
      sub.metadata = putMetadata (fun _ => none) metadata ∧
      stripe'.subscriptions = Function.update stripe.subscriptions sub.id (some sub)
  /-- An update is of an item that is there. Price and metadata change
  together. -/
  update : ∀ {stripe fresh id item price metadata stripe' answer},
    api.serve stripe fresh (.updateSubscription id item price metadata) = some (stripe', answer) →
    ∃ sub status, stripe.subscriptions id = some sub ∧ item ∈ sub.items.map Item.id ∧
      stripe'.subscriptions =
        Function.update stripe.subscriptions id (some { sub.swap item price metadata with status })
  /-- Any other request changes at most the status of a subscription. -/
  others : ∀ {stripe fresh request stripe' answer}, request.setsPlan = false →
    api.serve stripe fresh request = some (stripe', answer) →
    ∀ id sub', stripe'.subscriptions id = some sub' →
      ∃ sub, stripe.subscriptions id = some sub ∧ sub' = { sub with status := sub'.status }

/-! ## The client -/

/-- The methods of `BillingClient`. -/
inductive Op
  | ensureCustomer (orgId email : String) (existingCustomerId : Option String)
  | createSubscription (customerId orgId : String) (plan : PlanPrice)
  | updateTier (subscriptionId orgId : String) (plan : PlanPrice)
  | cancelSubscription (subscriptionId : String)
  | getSubscription (subscriptionId : String)
  deriving DecidableEq

/-- An id that parses. -/
def orNoId (known : String → Bool) (field id : String) : Except ClientError String :=
  if known id then .ok id else .error (.missingField field)

/-- The request a method starts with. -/
def Op.request (ids : Ids) : Op → Except ClientError Request
  | .ensureCustomer orgId email none => .ok (.createCustomer email [("org_id", orgId)])
  | .ensureCustomer _ _ (some id) => do
    let customerId ← orNoId ids.customer "stripe_customer_id" id
    pure (.retrieveCustomer customerId)
  | .createSubscription customerId orgId plan => do
    let customer ← orNoId ids.customer "stripe_customer_id" customerId
    pure (.createSubscription customer plan.priceId (subscriptionMetadata orgId plan))
  | .updateTier subscriptionId _ _ => do
    let subId ← orNoId ids.subscription "stripe_subscription_id" subscriptionId
    pure (.retrieveSubscription subId)
  | .cancelSubscription subscriptionId => do
    let subId ← orNoId ids.subscription "stripe_subscription_id" subscriptionId
    pure (.cancelSubscription subId)
  | .getSubscription subscriptionId => do
    let subId ← orNoId ids.subscription "stripe_subscription_id" subscriptionId
    pure (.retrieveSubscription subId)

/-- What a method does with an answer to `sent`: it returns, or sends on. -/
inductive Next
  | done (result : Except ClientError Object)
  | send (request : Request)

def Op.next (sent : Request) (answer : Object) : Op → Next
  | .ensureCustomer .. =>
    match sent, answer with
    | .retrieveCustomer _, .customer c =>
      .done (if c.deleted then .error (.missingField "customer is deleted") else .ok answer)
    | _, _ => .done (.ok answer)
  | .updateTier subscriptionId orgId plan =>
    match sent, answer with
    | .retrieveSubscription _, .subscription current =>
      match current.items.head? with
      | none => .done (.error (.missingField "subscription has no items"))
      | some item =>
        .send (.updateSubscription subscriptionId item.id plan.priceId (subscriptionMetadata orgId plan))
    | _, _ => .done (.ok answer)
  | .createSubscription .. | .cancelSubscription _ | .getSubscription _ => .done (.ok answer)

/-! ## Calls that go on at a time -/

structure Call where
  op : Op
  sent : Request
  deriving DecidableEq

structure St where
  stripe : Stripe := ⟨fun _ => none, fun _ => none⟩
  calls : List Call := []
  /-- The calls that were made. -/
  begun : List Op := []
  /-- What they have returned. -/
  results : List (Op × Except ClientError Object) := []

inductive Action
  | begin (op : Op)
  /-- carried out and answered -/
  | answer (call : Call) (fresh : Fresh)
  /-- carried out, with the answer lost on the way -/
  | lose (call : Call) (fresh : Fresh) (reason : String)
  /-- refused, or never there -/
  | fail (call : Call) (reason : String)
  /-- Stripe's own doing: a payment, a trial that ends -/
  | status (id status : String)

def Op.begin (ids : Ids) (s : St) (op : Op) : St :=
  match op.request ids with
  | .ok sent => { s with calls := ⟨op, sent⟩ :: s.calls, begun := op :: s.begun }
  | .error e => { s with begun := op :: s.begun, results := (op, .error e) :: s.results }

/-- The call goes on with an answer. -/
def Call.resume (call : Call) (answer : Object) (s : St) : St :=
  match call.op.next call.sent answer with
  | .done result => { s with calls := s.calls.erase call, results := (call.op, result) :: s.results }
  | .send request => { s with calls := ⟨call.op, request⟩ :: s.calls.erase call }

def Stripe.put (stripe : Stripe) (sub : Subscription) : Stripe :=
  { stripe with subscriptions := Function.update stripe.subscriptions sub.id (some sub) }

def step (api : StripeApi) (ids : Ids) (s : St) : Action → Option St
  | .begin op => some (op.begin ids s)
  | .answer call fresh =>
    if call ∈ s.calls then
      (api.serve s.stripe fresh call.sent).map fun (stripe, answer) => call.resume answer { s with stripe }
    else none
  | .lose call fresh reason =>
    if call ∈ s.calls then
      (api.serve s.stripe fresh call.sent).map fun (stripe, _) =>
        { s with stripe, calls := s.calls.erase call, results := (call.op, .error (.stripe reason)) :: s.results }
    else none
  | .fail call reason =>
    if call ∈ s.calls then
      some { s with calls := s.calls.erase call, results := (call.op, .error (.stripe reason)) :: s.results }
    else none
  | .status id status =>
    (s.stripe.subscriptions id).map fun sub => { s with stripe := s.stripe.put { sub with status } }

/-! ## A subscription is as one call has written it -/

/-- The subscription is the plan's, for the org. -/
structure Describes (orgId : String) (plan : PlanPrice) (sub : Subscription) : Prop where
  item : ∃ id, sub.items = [⟨id, plan.priceId⟩]
  org : sub.metadata "org_id" = some orgId
  product : sub.metadata "product" = some plan.product.slug
  tier : sub.metadata "tier" = some (tierSlug plan.tier)

/-- One of the calls was for the subscription, with that org and plan. -/
def WrittenBy (begun : List Op) (sub : Subscription) (orgId : String) (plan : PlanPrice) : Prop :=
  .createSubscription sub.customer orgId plan ∈ begun ∨ .updateTier sub.id orgId plan ∈ begun

/-- What a call under way may have sent. -/
inductive Sent : Op → Request → Prop
  | create (customerId orgId : String) (plan : PlanPrice) :
      Sent (.createSubscription customerId orgId plan)
        (.createSubscription customerId plan.priceId (subscriptionMetadata orgId plan))
  | swap (id orgId : String) (plan : PlanPrice) (item : String) :
      Sent (.updateTier id orgId plan) (.updateSubscription id item plan.priceId (subscriptionMetadata orgId plan))
  | createCustomer {op : Op} (email : String) (metadata : Stamp) : Sent op (.createCustomer email metadata)
  | retrieveCustomer {op : Op} (id : String) : Sent op (.retrieveCustomer id)
  | retrieveSubscription {op : Op} (id : String) : Sent op (.retrieveSubscription id)
  | cancel {op : Op} (id : String) : Sent op (.cancelSubscription id)

/-- Every subscription is as one of the calls for it has written it. -/
def Described (begun : List Op) (stripe : Stripe) : Prop :=
  ∀ id sub, stripe.subscriptions id = some sub →
    sub.id = id ∧ ∃ orgId plan, WrittenBy begun sub orgId plan ∧ Describes orgId plan sub

/-- The call names an org. -/
def Op.NamesOrg : Op → Prop
  | .createSubscription _ orgId _ | .updateTier _ orgId _ => orgId ≠ ""
  | _ => True

structure Inv (s : St) : Prop where
  described : Described s.begun s.stripe
  calls : ∀ call ∈ s.calls, call.op ∈ s.begun ∧ Sent call.op call.sent
  orgs : ∀ op ∈ s.begun, op.NamesOrg

/-- The calls that an action begins name an org. -/
def BeginsWithOrg : Action → Prop
  | .begin op => op.NamesOrg
  | _ => True

variable {api : StripeApi} {ids : Ids} {s t : St} {a : Action} {as : List Action} {begun : List Op}
  {stripe stripe' : Stripe} {sub : Subscription} {op : Op} {request : Request} {fresh : Fresh} {answer : Object}

theorem orNoId_ok {known : String → Bool} {field id id' : String} (h : orNoId known field id = .ok id') : id' = id := by
  unfold orNoId at h
  split at h
  · cases h
    rfl
  · cases h

theorem sent_of_request (h : op.request ids = .ok request) : Sent op request := by
  cases op with
  | ensureCustomer orgId email existing =>
    cases existing with
    | none =>
      cases h
      exact .createCustomer ..
    | some id =>
      obtain ⟨id', -, h⟩ := Except.bind_ok_iff.1 h
      cases h
      exact .retrieveCustomer ..
  | createSubscription customerId orgId plan =>
    obtain ⟨id', hid, h⟩ := Except.bind_ok_iff.1 h
    cases h
    cases orNoId_ok hid
    exact .create ..
  | updateTier subscriptionId orgId plan | getSubscription subscriptionId =>
    obtain ⟨id', -, h⟩ := Except.bind_ok_iff.1 h
    cases h
    exact .retrieveSubscription ..
  | cancelSubscription subscriptionId =>
    obtain ⟨id', -, h⟩ := Except.bind_ok_iff.1 h
    cases h
    exact .cancel ..

/-- What a call sends on is the swap. -/
theorem sent_of_next {sent : Request} (h : op.next sent answer = .send request) : Sent op request := by
  cases op with
  | updateTier subscriptionId orgId plan =>
    simp only [Op.next] at h
    split at h
    · split at h
      · cases h
      · cases h
        exact .swap ..
    · cases h
  | ensureCustomer orgId email existing =>
    simp only [Op.next] at h
    split at h <;> cases h
  | createSubscription | cancelSubscription | getSubscription => cases h

/-! ## What Stripe carries out -/

theorem putMetadata_subscriptionMetadata (metadata : String → Option String) {orgId : String} (h : orgId ≠ "")
    (plan : PlanPrice) :
    putMetadata metadata (subscriptionMetadata orgId plan) "org_id" = some orgId ∧
      putMetadata metadata (subscriptionMetadata orgId plan) "product" = some plan.product.slug ∧
      putMetadata metadata (subscriptionMetadata orgId plan) "tier" = some (tierSlug plan.tier) := by
  have hproduct : plan.product.slug ≠ "" := by cases plan.product <;> decide
  have htier : tierSlug plan.tier ≠ "" := by cases plan.tier <;> decide
  simp [putMetadata, subscriptionMetadata, Function.update, h, hproduct, htier]

theorem Described.mono {begun' : List Op} (h : Described begun stripe) (hsub : begun ⊆ begun') :
    Described begun' stripe := by
  intro id sub hid
  obtain ⟨heq, orgId, plan, hwritten, hdesc⟩ := h id sub hid
  exact ⟨heq, orgId, plan, hwritten.imp (@hsub _) (@hsub _), hdesc⟩

theorem Described.set (h : Described begun stripe)
    (hsub : ∃ orgId plan, WrittenBy begun sub orgId plan ∧ Describes orgId plan sub)
    (hset : stripe'.subscriptions = Function.update stripe.subscriptions sub.id (some sub)) :
    Described begun stripe' := by
  intro id sub' hid
  rw [hset, Function.update_apply] at hid
  split at hid
  · next heq =>
    cases hid
    exact ⟨heq.symm, hsub⟩
  · exact h id sub' hid

/-- Another status is not another plan. -/
theorem Described.restatus (h : Described begun stripe)
    (hsame : ∀ id sub', stripe'.subscriptions id = some sub' →
      ∃ sub, stripe.subscriptions id = some sub ∧ sub' = { sub with status := sub'.status }) :
    Described begun stripe' := by
  intro id sub' hid
  obtain ⟨sub, hold, he⟩ := hsame id sub' hid
  obtain ⟨hsub, orgId, plan, hwritten, hdesc⟩ := h id sub hold
  rw [he]
  exact ⟨hsub, orgId, plan, hwritten, hdesc.item, hdesc.org, hdesc.product, hdesc.tier⟩

/-- So when Stripe gives a subscription another one. -/
theorem Described.put_status (h : Described begun stripe) {id status : String} (hid : stripe.subscriptions id = some sub) :
    Described begun (stripe.put { sub with status }) := by
  refine h.restatus fun id' sub' hsub' => ?_
  simp only [Stripe.put, Function.update_apply] at hsub'
  split at hsub'
  · next heq =>
    cases hsub'
    refine ⟨sub, ?_, rfl⟩
    rwa [heq, (h id sub hid).1]
  · exact ⟨sub', hsub', rfl⟩

/-- The one item there is gets the price, and the metadata comes with it. -/
theorem describes_swap {orgId orgId' item : String} {plan plan' : PlanPrice} (h : Describes orgId plan sub)
    (hitem : item ∈ sub.items.map Item.id) (horg : orgId' ≠ "") (status : String) :
    Describes orgId' plan' { sub.swap item plan'.priceId (subscriptionMetadata orgId' plan') with status } := by
  obtain ⟨id, hitems⟩ := h.item
  obtain ⟨hmetaOrg, hmetaProduct, hmetaTier⟩ := putMetadata_subscriptionMetadata sub.metadata horg plan'
  refine ⟨⟨id, ?_⟩, hmetaOrg, hmetaProduct, hmetaTier⟩
  rw [hitems, List.map_singleton, List.mem_singleton] at hitem
  simp [Subscription.swap, hitems, hitem]

theorem described_serve (hapi : api.Documented) (h : Described begun stripe) (hop : op ∈ begun)
    (hsent : Sent op request) (horg : op.NamesOrg)
    (hserve : api.serve stripe fresh request = some (stripe', answer)) : Described begun stripe' := by
  cases hsent with
  | create customerId orgId plan =>
    obtain ⟨sub, item, rfl, hitems, hmeta, hset⟩ := hapi.create hserve
    obtain ⟨hmetaOrg, hmetaProduct, hmetaTier⟩ := putMetadata_subscriptionMetadata (fun _ => none) horg plan
    rw [← hmeta] at hmetaOrg hmetaProduct hmetaTier
    exact h.set ⟨orgId, plan, .inl hop, ⟨item, hitems⟩, hmetaOrg, hmetaProduct, hmetaTier⟩ hset
  | swap id orgId plan item =>
    obtain ⟨sub, status, hid, hitem, hset⟩ := hapi.update hserve
    obtain ⟨rfl, orgId', plan', -, hdesc⟩ := h id sub hid
    have hswap : Describes orgId plan { sub.swap item plan.priceId (subscriptionMetadata orgId plan) with status } :=
      describes_swap hdesc hitem horg status
    have hwritten : WrittenBy begun { sub.swap item plan.priceId (subscriptionMetadata orgId plan) with status }
      orgId plan := .inr hop
    exact h.set ⟨orgId, plan, hwritten, hswap⟩ hset
  | createCustomer email metadata | retrieveCustomer id | retrieveSubscription id | cancel id =>
    exact h.restatus (hapi.others rfl hserve)

/-! ## Every run -/

theorem inv_init : Inv {} where
  described := nofun
  calls := nofun
  orgs := nofun

theorem inv_begin (hi : Inv s) (horg : op.NamesOrg) : Inv (op.begin ids s) := by
  have hdesc : Described (op :: s.begun) s.stripe := hi.described.mono (List.subset_cons_self ..)
  have horgs : ∀ op' ∈ op :: s.begun, op'.NamesOrg := List.forall_mem_cons.2 ⟨horg, hi.orgs⟩
  have hcalls : ∀ call ∈ s.calls, call.op ∈ op :: s.begun ∧ Sent call.op call.sent := fun call hcall =>
    ⟨List.mem_cons_of_mem _ (hi.calls call hcall).1, (hi.calls call hcall).2⟩
  unfold Op.begin
  split
  · next sent hsent =>
    exact ⟨hdesc, List.forall_mem_cons.2 ⟨⟨List.mem_cons_self, sent_of_request hsent⟩, hcalls⟩, horgs⟩
  · exact ⟨hdesc, hcalls, horgs⟩

theorem inv_resume {call : Call} (hi : Inv s) (hcall : call ∈ s.calls) (answer : Object) : Inv (call.resume answer s) := by
  have hcalls : ∀ c ∈ s.calls.erase call, c.op ∈ s.begun ∧ Sent c.op c.sent := fun c hc =>
    hi.calls c (List.mem_of_mem_erase hc)
  unfold Call.resume
  split
  · exact ⟨hi.described, hcalls, hi.orgs⟩
  · next request hnext =>
    exact ⟨hi.described, List.forall_mem_cons.2 ⟨⟨(hi.calls call hcall).1, sent_of_next hnext⟩, hcalls⟩, hi.orgs⟩

/-- A call that has ended is one less. -/
theorem Inv.ended (hi : Inv s) (call : Call) (results : List (Op × Except ClientError Object)) :
    Inv { s with calls := s.calls.erase call, results } where
  described := hi.described
  calls c hc := hi.calls c (List.mem_of_mem_erase hc)
  orgs := hi.orgs

theorem Inv.served (hapi : api.Documented) {call : Call} (hi : Inv s) (hcall : call ∈ s.calls)
    (hserve : api.serve s.stripe fresh call.sent = some (stripe', answer)) : Inv { s with stripe := stripe' } := by
  obtain ⟨hbegun, hsent⟩ := hi.calls call hcall
  exact ⟨described_serve hapi hi.described hbegun hsent (hi.orgs _ hbegun) hserve, hi.calls, hi.orgs⟩

theorem step_keeps_inv (hapi : api.Documented) (hi : Inv s) (horg : BeginsWithOrg a)
    (h : step api ids s a = some t) : Inv t := by
  cases a with
  | «begin» op =>
    cases h
    exact inv_begin hi horg
  | answer call fresh =>
    simp only [step] at h
    split at h
    · next hcall =>
      obtain ⟨⟨stripe', answer⟩, hserve, rfl⟩ := Option.map_eq_some_iff.1 h
      exact inv_resume (hi.served hapi hcall hserve) hcall answer
    · cases h
  | lose call fresh reason =>
    simp only [step] at h
    split at h
    · next hcall =>
      obtain ⟨⟨stripe', answer⟩, hserve, rfl⟩ := Option.map_eq_some_iff.1 h
      exact (hi.served hapi hcall hserve).ended call _
    · cases h
  | fail call reason =>
    simp only [step] at h
    split at h
    · cases h
      exact hi.ended call _
    · cases h
  | status id status =>
    obtain ⟨sub, hid, rfl⟩ := Option.map_eq_some_iff.1 h
    exact ⟨hi.described.put_status hid, hi.calls, hi.orgs⟩

theorem inv_run (hapi : api.Documented) (horgs : ∀ a ∈ as, BeginsWithOrg a)
    (hr : Runs.run (step api ids) {} as = some s) : Inv s := by
  have halong : Runs.Along (step api ids) (fun _ a => BeginsWithOrg a) {} as :=
    Runs.Along.of_at fun pre a post t he _ => horgs a (he ▸ List.mem_append_cons_self)
  exact Runs.invariant_along (fun hi horg h => step_keeps_inv hapi hi horg h) halong hr inv_init

end FerrKit.Billing
