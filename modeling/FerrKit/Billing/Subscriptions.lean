/-
From the Stripe client to the webhook: what `parse_event` reads out of an
event about a subscription is what a call has put into it
(`subscriptionMetadata` and `Metadata.read` are inverse), and, since price
and metadata are written by one request, what the org is billed for.

An event is any JSON text with the members Stripe gives it, whatever others
it has; the reader is as in `FerrKit.Billing.Events`.
-/
import FerrKit.Billing.Client

namespace FerrKit.Billing

open Json Serde

/-! ## Bodies -/

/-- The body of an event of that type about an object. -/
def EventOf (r : Reader) (payload : List UInt8) (eventType : String) (object : Map) : Prop :=
  ∃ members data raw, r.parse payload = some (.object members) ∧ membersOf "type" members = [.string eventType] ∧
    membersOf "data" members = [.object data] ∧ membersOf "object" data = [raw] ∧
    r.toValue raw = some (.object object)

/-- A member that holds the metadata. -/
def HasMetadata (metadata : String → Option String) (object : Map) : Prop :=
  ∃ members, membersOf "metadata" object = [.object members] ∧
    ∀ key, membersOf key members = ((metadata key).map Value.string).toList

/-- A subscription in JSON. -/
structure SubscriptionFields (sub : Subscription) (object : Map) : Prop where
  id : membersOf "id" object = [.string sub.id]
  customer : membersOf "customer" object = [.string sub.customer]
  status : membersOf "status" object = [.string sub.status]
  metadata : HasMetadata sub.metadata object

/-- An invoice for it: no org of its own, and on its first line what the
subscription has. -/
structure InvoiceFields (sub : Subscription) (object : Map) : Prop where
  customer : membersOf "customer" object = [.string sub.customer]
  metadata : HasMetadata (fun _ => none) object
  lines : ∃ lines line rest, membersOf "lines" object = [.object lines] ∧
    membersOf "data" lines = [.array (.object line :: rest)] ∧ (∀ v ∈ rest, (InvoiceLine.decode v).isSome) ∧
    HasMetadata sub.metadata line ∧ membersOf "subscription" line = [.string sub.id] ∧
    (membersOf "subscription" object = [.string sub.id] ∨ membersOf "subscription" object = [])

variable {r : Reader} {payload : List UInt8} {eventType : String} {object : Map} {sub : Subscription}
  {metadata : String → Option String} {orgId : String} {plan : PlanPrice}

/-! ## Reading them -/

/-- The metadata as a struct. -/
def metadataOf (metadata : String → Option String) : Metadata :=
  ⟨metadata "org_id", metadata "product", metadata "tier"⟩

theorem ofMembers_text {key : String} {members : Map} (text : Option String)
    (h : membersOf key members = (text.map Value.string).toList) :
    (Field.optional key Value.asStr).only.ofMembers members = some text := by
  cases text with
  | none => exact ofMembers_absent (f := Field.optional key Value.asStr) h
  | some text => exact ofMembers_one (f := Field.optional key Value.asStr) h

theorem decode_metadata {members : Map} (h : ∀ key, membersOf key members = ((metadata key).map Value.string).toList) :
    Metadata.decode (.object members) = some (metadataOf metadata) := by
  rw [Metadata.decode, Fields.struct, ofMembers_and.2 ⟨ofMembers_text _ (h "org_id"),
    ofMembers_and.2 ⟨ofMembers_text _ (h "product"), ofMembers_text _ (h "tier")⟩⟩]
  rfl

theorem ofMembers_metadata (h : HasMetadata metadata object) :
    (Field.defaulted "metadata" Metadata.decode {}).only.ofMembers object = some (metadataOf metadata) := by
  obtain ⟨members, hmember, hkeys⟩ := h
  rw [ofMembers_one (f := Field.defaulted "metadata" Metadata.decode {}) hmember]
  exact decode_metadata hkeys

theorem decode_subscription (h : SubscriptionFields sub object) :
    RawSubscriptionObject.decode (.object object) = some ⟨sub.id, sub.customer, sub.status, metadataOf sub.metadata⟩ := by
  rw [RawSubscriptionObject.decode, Fields.struct, ofMembers_and.2 ⟨ofMembers_string h.id, ofMembers_and.2
    ⟨ofMembers_string h.customer, ofMembers_and.2 ⟨ofMembers_string h.status, ofMembers_metadata h.metadata⟩⟩⟩]
  rfl

theorem decode_line {line : Map} {id : String} (hmeta : HasMetadata metadata line)
    (hsub : membersOf "subscription" line = [.string id]) :
    InvoiceLine.decode (.object line) = some ⟨metadataOf metadata, some id⟩ := by
  have hfield : (Field.defaulted "subscription" (option Value.asStr) none).only.ofMembers line = some (some id) :=
    ofMembers_one (f := Field.defaulted "subscription" (option Value.asStr) none) hsub
  rw [InvoiceLine.decode, Fields.struct, ofMembers_and.2 ⟨ofMembers_metadata hmeta, hfield⟩]
  rfl

/-- Lines that can be read, each by itself. -/
theorem mapM_decode {rest : List Value} (h : ∀ v ∈ rest, (InvoiceLine.decode v).isSome) :
    ∃ lines, rest.mapM InvoiceLine.decode = some lines := by
  induction rest with
  | nil => exact ⟨[], rfl⟩
  | cons v rest ih =>
    rw [List.forall_mem_cons] at h
    obtain ⟨line, hline⟩ := Option.isSome_iff_exists.1 h.1
    obtain ⟨lines, hlines⟩ := ih h.2
    exact ⟨line :: lines, by simp [hline, hlines]⟩

/-- What the code reads of an invoice: the org is not in its own metadata, the
first line is the subscription's. -/
theorem decode_invoice (h : InvoiceFields sub object) :
    ∃ subscription lines, RawInvoiceObject.decode (.object object) =
        some ⟨subscription, sub.customer, metadataOf fun _ => none, ⟨⟨metadataOf sub.metadata, some sub.id⟩ :: lines⟩⟩ ∧
      (subscription = some sub.id ∨ subscription = none) := by
  obtain ⟨members, line, rest, hmembers, hdata, hrest, hmeta, hsub, htop⟩ := h.lines
  obtain ⟨lines, hlines⟩ := mapM_decode hrest
  have hlist : InvoiceLines.decode (.object members) = some ⟨⟨metadataOf sub.metadata, some sub.id⟩ :: lines⟩ := by
    rw [InvoiceLines.decode, Fields.struct,
      ofMembers_one (f := Field.defaulted "data" (vec InvoiceLine.decode) []) hdata]
    simp [Field.defaulted, vec, decode_line hmeta hsub, hlines]
  have hfield : (Field.defaulted "lines" InvoiceLines.decode {}).only.ofMembers object =
      some ⟨⟨metadataOf sub.metadata, some sub.id⟩ :: lines⟩ := by
    rw [ofMembers_one (f := Field.defaulted "lines" InvoiceLines.decode {}) hmembers]
    exact hlist
  have htopField : ∃ subscription, (Field.optional "subscription" Value.asStr).only.ofMembers object = some subscription ∧
      (subscription = some sub.id ∨ subscription = none) := by
    obtain htop | htop := htop
    · exact ⟨some sub.id, ofMembers_text (some sub.id) htop, .inl rfl⟩
    · exact ⟨none, ofMembers_text none htop, .inr rfl⟩
  obtain ⟨subscription, hsubscription, hcases⟩ := htopField
  refine ⟨subscription, lines, ?_, hcases⟩
  rw [RawInvoiceObject.decode, Fields.struct, ofMembers_and.2 ⟨hsubscription, ofMembers_and.2
    ⟨ofMembers_string h.customer, ofMembers_and.2 ⟨ofMembers_metadata h.metadata, hfield⟩⟩⟩]
  rfl

/-- What the envelope is, in front of the object. -/
theorem parseEvent_of_eventOf (h : EventOf r payload eventType object) :
    parseEvent r payload = RawEvent.event r ⟨eventType, ⟨.object object⟩⟩ := by
  obtain ⟨members, data, raw, hparse, htype, hdata, hraw, hvalue⟩ := h
  have hobject : RawData.decode r (.object data) = some ⟨.object object⟩ :=
    struct_one.2 ⟨raw, .object object, .inr ⟨data, rfl, hraw⟩, hvalue, rfl⟩
  have henvelope : RawEvent.decode r (.object members) = some ⟨eventType, ⟨.object object⟩⟩ :=
    (rawEvent_object htype).2 ⟨rfl, .object data, hdata, hobject⟩
  rw [parseEvent, hparse, Option.bind_some, henvelope]

/-! ## Round trip -/

theorem productFromSlug_slug (product : Product) : productFromSlug product.slug = some product := by
  cases product <;> decide

theorem tierFromStr_tierSlug (tier : Plan) : tierFromStr (tierSlug tier) = tier := by
  cases tier <;> decide

/-- What a call has stamped is what is read. -/
theorem read_of_describes (h : Describes orgId plan sub) :
    (metadataOf sub.metadata).read = .ok (orgId, plan.product, plan.tier) := by
  simp [metadataOf, h.org, h.product, h.tier, Metadata.read, orMissing, productFromSlug_slug, tierFromStr_tierSlug,
    bind, Except.bind, pure, Except.pure]

/-- The change that a subscription amounts to, with a status. -/
def changeOf (sub : Subscription) (orgId : String) (plan : PlanPrice) (status : SubscriptionStatus) :
    SubscriptionChange :=
  { stripeSubscriptionId := sub.id, stripeCustomerId := sub.customer, orgId, product := plan.product, tier := plan.tier
    status }

theorem changeFromSubscription_of_describes (h : Describes orgId plan sub) (override : Option SubscriptionStatus) :
    changeFromSubscription ⟨sub.id, sub.customer, sub.status, metadataOf sub.metadata⟩ override =
      .ok (changeOf sub orgId plan (override.getD (statusFromStripe sub.status))) := by
  rw [changeFromSubscription, read_of_describes h]
  rfl

theorem changeFromInvoice_of_describes (h : Describes orgId plan sub) {subscription : Option String}
    (hsub : subscription = some sub.id ∨ subscription = none) (lines : List InvoiceLine) :
    changeFromInvoice
        ⟨subscription, sub.customer, metadataOf fun _ => none, ⟨⟨metadataOf sub.metadata, some sub.id⟩ :: lines⟩⟩ =
      .ok (changeOf sub orgId plan .active) := by
  have hown : (metadataOf fun _ => none).orgId = none := rfl
  rw [changeFromInvoice]
  simp only [hown, Option.isSome_none, Bool.false_eq_true, if_false, List.head?_cons, Option.elim_some,
    read_of_describes h]
  obtain rfl | rfl := hsub <;> rfl

/-- Events about the subscription are read as the plan, for the org. -/
structure ReadAs (sub : Subscription) (orgId : String) (plan : PlanPrice) : Prop where
  updated : ∀ {r payload object}, EventOf r payload "customer.subscription.updated" object →
    SubscriptionFields sub object →
    parseEvent r payload = .ok (.subscriptionUpdated (changeOf sub orgId plan (statusFromStripe sub.status)))
  deleted : ∀ {r payload object}, EventOf r payload "customer.subscription.deleted" object →
    SubscriptionFields sub object → parseEvent r payload = .ok (.subscriptionDeleted (changeOf sub orgId plan .canceled))
  invoicePaid : ∀ {r payload object}, EventOf r payload "invoice.paid" object → InvoiceFields sub object →
    parseEvent r payload = .ok (.invoicePaid (changeOf sub orgId plan .active))

theorem readAs_of_describes (h : Describes orgId plan sub) : ReadAs sub orgId plan where
  updated hevent hfields := by
    rw [parseEvent_of_eventOf hevent]
    simp [RawEvent.event, fromValue, decode_subscription hfields, changeFromSubscription_of_describes h, bind,
      Except.bind, pure, Except.pure]
  deleted hevent hfields := by
    rw [parseEvent_of_eventOf hevent]
    simp [RawEvent.event, fromValue, decode_subscription hfields, changeFromSubscription_of_describes h, bind,
      Except.bind, pure, Except.pure]
  invoicePaid hevent hfields := by
    obtain ⟨subscription, lines, hdecode, hsub⟩ := decode_invoice hfields
    rw [parseEvent_of_eventOf hevent]
    simp [RawEvent.event, fromValue, hdecode, changeFromInvoice_of_describes h hsub, bind, Except.bind, pure,
      Except.pure]

/-- A Stripe that carries out what it can. -/
def carryOut (stripe : Stripe) (fresh : Fresh) : Request → Option (Stripe × Object)
  | .createCustomer email metadata =>
    let c : Customer := ⟨fresh.id, email, putMetadata (fun _ => none) metadata, false⟩
    some ({ stripe with customers := Function.update stripe.customers fresh.id (some c) }, .customer c)
  | .retrieveCustomer id => (stripe.customers id).map fun c => (stripe, .customer c)
  | .createSubscription customer price metadata =>
    let sub : Subscription :=
      ⟨fresh.id, customer, fresh.status, [⟨fresh.item, price⟩], putMetadata (fun _ => none) metadata⟩
    some (stripe.put sub, .subscription sub)
  | .retrieveSubscription id => (stripe.subscriptions id).map fun sub => (stripe, .subscription sub)
  | .updateSubscription id item price metadata =>
    match stripe.subscriptions id with
    | none => none
    | some sub =>
      if item ∈ sub.items.map Item.id then
        some ({ stripe with
          subscriptions := Function.update stripe.subscriptions id (some (sub.swap item price metadata)) },
          .subscription (sub.swap item price metadata))
      else none
  | .cancelSubscription id =>
    (stripe.subscriptions id).map fun sub =>
      ({ stripe with
        subscriptions := Function.update stripe.subscriptions id (some { sub with status := "canceled" }) },
        .subscription { sub with status := "canceled" })

theorem carryOut_documented : StripeApi.Documented ⟨carryOut⟩ where
  create h := by
    cases h
    exact ⟨_, _, rfl, rfl, rfl, rfl⟩
  update h := by
    simp only [carryOut] at h
    split at h
    · cases h
    · next sub hid =>
      split at h
      · next hitem =>
        cases h
        exact ⟨sub, sub.status, hid, hitem, rfl⟩
      · cases h
  others {stripe fresh request stripe' answer} hsets h id sub' hid := by
    cases request with
    | createSubscription | updateSubscription => cases hsets
    | createCustomer email metadata =>
      cases h
      exact ⟨sub', hid, rfl⟩
    | retrieveCustomer | retrieveSubscription =>
      simp only [carryOut, Option.map_eq_some_iff, Prod.mk.injEq] at h
      obtain ⟨_, -, rfl, -⟩ := h
      exact ⟨sub', hid, rfl⟩
    | cancelSubscription id' =>
      simp only [carryOut, Option.map_eq_some_iff, Prod.mk.injEq] at h
      obtain ⟨sub, hsub, rfl, -⟩ := h
      simp only [Function.update_apply] at hid
      split at hid
      · next heq =>
        cases hid
        exact ⟨sub, heq ▸ hsub, rfl⟩
      · exact ⟨sub', hid, rfl⟩

def anyIds : Ids := ⟨fun _ => true, fun _ => true⟩

def vaultPlan (tier : Plan) (priceId : String) : PlanPrice := ⟨.ferrVault, tier, priceId⟩

def toTeam : Op := .updateTier "sub_1" "org-9" (vaultPlan .team "price_team")

def toPro : Op := .updateTier "sub_1" "org-9" (vaultPlan .pro "price_pro")

/-- The answer to the first of these is lost, the other one comes later. -/
def twoChanges : List Action :=
  [.begin (.createSubscription "cus_1" "org-9" (vaultPlan .free "price_free")),
    .answer ⟨.createSubscription "cus_1" "org-9" (vaultPlan .free "price_free"),
      .createSubscription "cus_1" "price_free" (subscriptionMetadata "org-9" (vaultPlan .free "price_free"))⟩
      ⟨"sub_1", "si_1", "incomplete"⟩,
    .begin toTeam, .begin toPro,
    .answer ⟨toTeam, .retrieveSubscription "sub_1"⟩ ⟨"", "", ""⟩,
    .answer ⟨toPro, .retrieveSubscription "sub_1"⟩ ⟨"", "", ""⟩, .status "sub_1" "active",
    .lose ⟨toTeam, .updateSubscription "sub_1" "si_1" "price_team"
      (subscriptionMetadata "org-9" (vaultPlan .team "price_team"))⟩ ⟨"", "", ""⟩ "timed out",
    .answer ⟨toPro, .updateSubscription "sub_1" "si_1" "price_pro"
      (subscriptionMetadata "org-9" (vaultPlan .pro "price_pro"))⟩ ⟨"", "", ""⟩]

theorem twoChanges_orgs : ∀ a ∈ twoChanges, BeginsWithOrg a := by
  simp [twoChanges, BeginsWithOrg, toTeam, toPro, Op.NamesOrg]

end FerrKit.Billing
