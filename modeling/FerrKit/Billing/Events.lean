/-
Stripe webhook events (`crates/billing/src/events.rs`): `parse_event` and the
structs it reads.

The body is read twice: as the envelope, straight from the text, and then
its `data.object`, from a `serde_json::Value`, for the three types that are
acted on. The envelope comes before the type is looked at, so an event of
any other type is acknowledged exactly when it has a `data.object` too.
-/
import FerrKit.Lib.Serde
import FerrKit.Lib.Wire

namespace FerrKit.Billing

open Json Serde

/-! ## Types -/

inductive Plan
  | free | pro | team | enterprise
  deriving DecidableEq

inductive Product
  | ferrFlow | ferrVault | ferrTrack | ferrGrowth | ferrFleet
  deriving DecidableEq

def Product.slug : Product → String
  | .ferrFlow => "ferrflow"
  | .ferrVault => "ferrvault"
  | .ferrTrack => "ferrtrack"
  | .ferrGrowth => "ferrgrowth"
  | .ferrFleet => "ferrfleet"

def Product.all : List Product := [.ferrFlow, .ferrVault, .ferrTrack, .ferrGrowth, .ferrFleet]

inductive SubscriptionStatus
  | trialing | active | pastDue | canceled | incomplete
  deriving DecidableEq

/-- `BillingError`, as far as `parse_event` returns it. -/
inductive BillingError
  | malformedPayload (reason : String)
  | missingField (field : String)
  deriving DecidableEq

structure SubscriptionChange where
  stripeSubscriptionId : String
  stripeCustomerId : String
  orgId : String
  product : Product
  tier : Plan
  status : SubscriptionStatus
  deriving DecidableEq

inductive WebhookEvent
  | invoicePaid (change : SubscriptionChange)
  | subscriptionUpdated (change : SubscriptionChange)
  | subscriptionDeleted (change : SubscriptionChange)
  | other (eventType : String)
  deriving DecidableEq

/-- `serde_json`. -/
structure Reader where
  /-- The document of a text, with every member of its objects. -/
  parse : List UInt8 → Option Value
  /-- What a `Value` keeps of it: the last member of each name. It has no
  number beyond its range and does not nest too deep. -/
  toValue : Value → Option Value
  /-- The text of an error of `from_slice::<RawEvent>`. -/
  sliceError : List UInt8 → String
  /-- The text of an error of `from_value`, for the struct of that name. -/
  valueError : String → Value → String

/-! ## Raw structs -/

structure RawData where
  object : Value

structure RawEvent where
  eventType : String
  data : RawData

structure Metadata where
  orgId : Option String := none
  product : Option String := none
  tier : Option String := none

structure RawSubscriptionObject where
  id : String
  customer : String
  status : String
  metadata : Metadata

structure InvoiceLine where
  metadata : Metadata
  subscription : Option String

structure InvoiceLines where
  data : List InvoiceLine := []

structure RawInvoiceObject where
  subscription : Option String
  customer : String
  metadata : Metadata
  lines : InvoiceLines

def RawData.decode (r : Reader) : Value → Option RawData :=
  (Field.only { key := "object", decode := r.toValue }).struct RawData.mk

def RawEvent.decode (r : Reader) : Value → Option RawEvent :=
  Fields.struct
    ((Field.only { key := "type", decode := Value.asStr }).and
      (Field.only { key := "data", decode := RawData.decode r }))
    fun (eventType, data) => { eventType, data }

def Metadata.decode : Value → Option Metadata :=
  Fields.struct
    ((Field.optional "org_id" Value.asStr).only.and
      ((Field.optional "product" Value.asStr).only.and (Field.optional "tier" Value.asStr).only))
    fun (orgId, product, tier) => { orgId, product, tier }

def RawSubscriptionObject.decode : Value → Option RawSubscriptionObject :=
  Fields.struct
    ((Field.only { key := "id", decode := Value.asStr }).and
      ((Field.only { key := "customer", decode := Value.asStr }).and
        ((Field.only { key := "status", decode := Value.asStr }).and
          (Field.defaulted "metadata" Metadata.decode {}).only)))
    fun (id, customer, status, metadata) => { id, customer, status, metadata }

def InvoiceLine.decode : Value → Option InvoiceLine :=
  Fields.struct
    ((Field.defaulted "metadata" Metadata.decode {}).only.and
      (Field.defaulted "subscription" (option Value.asStr) none).only)
    fun (metadata, subscription) => { metadata, subscription }

def InvoiceLines.decode : Value → Option InvoiceLines :=
  (Field.defaulted "data" (vec InvoiceLine.decode) []).only.struct InvoiceLines.mk

def RawInvoiceObject.decode : Value → Option RawInvoiceObject :=
  Fields.struct
    ((Field.optional "subscription" Value.asStr).only.and
      ((Field.only { key := "customer", decode := Value.asStr }).and
        ((Field.defaulted "metadata" Metadata.decode {}).only.and
          (Field.defaulted "lines" InvoiceLines.decode {}).only)))
    fun (subscription, customer, metadata, lines) => { subscription, customer, metadata, lines }

/-! ## Changes -/

def productFromSlug (slug : String) : Option Product := Product.all.find? fun p => p.slug = slug

def tierFromStr : String → Plan
  | "pro" => .pro
  | "team" => .team
  | "enterprise" => .enterprise
  | _ => .free

def statusFromStripe : String → SubscriptionStatus
  | "trialing" => .trialing
  | "active" => .active
  | "past_due" | "unpaid" => .pastDue
  | "canceled" => .canceled
  | _ => .incomplete

/-- `ok_or(BillingError::MissingField(field))`. -/
def orMissing {α : Type} (field : String) : Option α → Except BillingError α
  | some a => .ok a
  | none => .error (.missingField field)

/-- The org, product and tier, which both kinds of change begin with. -/
def Metadata.read (metadata : Metadata) : Except BillingError (String × Product × Plan) := do
  let orgId ← orMissing "metadata.org_id" metadata.orgId
  let productSlug ← orMissing "metadata.product" metadata.product
  let product ← orMissing "metadata.product (unknown slug)" (productFromSlug productSlug)
  pure (orgId, product, metadata.tier.elim .free tierFromStr)

def changeFromSubscription (raw : RawSubscriptionObject) (statusOverride : Option SubscriptionStatus) :
    Except BillingError SubscriptionChange := do
  let (orgId, product, tier) ← raw.metadata.read
  pure
    { stripeSubscriptionId := raw.id, stripeCustomerId := raw.customer, orgId, product, tier
      status := statusOverride.getD (statusFromStripe raw.status) }

def changeFromInvoice (raw : RawInvoiceObject) : Except BillingError SubscriptionChange := do
  let lineMeta := raw.lines.data.head?
  let metadata := if raw.metadata.orgId.isSome then raw.metadata else lineMeta.elim raw.metadata (·.metadata)
  let (orgId, product, tier) ← metadata.read
  let subscriptionId ← orMissing "subscription" (raw.subscription.or (lineMeta.bind (·.subscription)))
  pure
    { stripeSubscriptionId := subscriptionId, stripeCustomerId := raw.customer, orgId, product, tier
      status := .active }

/-! ## Events -/

/-- `from_value`. -/
def fromValue {α : Type} (r : Reader) (name : String) (decode : Value → Option α) (object : Value) :
    Except BillingError α :=
  match decode object with
  | some a => .ok a
  | none => .error (.malformedPayload (r.valueError name object))

/-- The event of an envelope. -/
def RawEvent.event (r : Reader) (raw : RawEvent) : Except BillingError WebhookEvent :=
  match raw.eventType with
  | "invoice.paid" => do
    let invoice ← fromValue r "RawInvoiceObject" RawInvoiceObject.decode raw.data.object
    pure (.invoicePaid (← changeFromInvoice invoice))
  | "customer.subscription.updated" => do
    let sub ← fromValue r "RawSubscriptionObject" RawSubscriptionObject.decode raw.data.object
    pure (.subscriptionUpdated (← changeFromSubscription sub none))
  | "customer.subscription.deleted" => do
    let sub ← fromValue r "RawSubscriptionObject" RawSubscriptionObject.decode raw.data.object
    pure (.subscriptionDeleted (← changeFromSubscription sub (some .canceled)))
  | other => .ok (.other other)

def parseEvent (r : Reader) (payload : List UInt8) : Except BillingError WebhookEvent :=
  match (r.parse payload).bind (RawEvent.decode r) with
  | some raw => raw.event r
  | none => .error (.malformedPayload (r.sliceError payload))

/-! ## Events of other types -/

/-- The types that are acted on. -/
def handledTypes : List String := ["invoice.paid", "customer.subscription.updated", "customer.subscription.deleted"]

/-- A `data` with one `object`, which a `Value` can hold. -/
def HasObject (r : Reader) (data : Value) : Prop :=
  ∃ object, (data = .array [object] ∨ ∃ members, data = .object members ∧ membersOf "object" members = [object]) ∧
    (r.toValue object).isSome

variable {r : Reader} {payload : List UInt8} {members : Map} {eventType : String}

theorem rawData_isSome_iff {data : Value} : (RawData.decode r data).isSome ↔ HasObject r data := by
  rw [Option.isSome_iff_exists, HasObject]
  constructor
  · rintro ⟨raw, hraw⟩
    obtain ⟨object, value, hobject, hvalue, -⟩ := struct_one.1 hraw
    exact ⟨object, hobject, by simp [hvalue]⟩
  · rintro ⟨object, hobject, hsome⟩
    obtain ⟨value, hvalue⟩ := Option.isSome_iff_exists.1 hsome
    exact ⟨⟨value⟩, struct_one.2 ⟨object, value, hobject, hvalue, rfl⟩⟩

/-- The envelope of an object with one `type`. -/
theorem rawEvent_object (htype : membersOf "type" members = [.string eventType]) {raw : RawEvent} :
    RawEvent.decode r (.object members) = some raw ↔
      raw.eventType = eventType ∧ ∃ data, membersOf "data" members = [data] ∧ RawData.decode r data = some raw.data := by
  simp only [RawEvent.decode, Fields.struct, Option.map_eq_some_iff, Prod.exists, ofMembers_and, ofMembers_required,
    htype]
  constructor
  · rintro ⟨eventType', data', ⟨⟨v, hv, htype'⟩, data, hdata, hdecode⟩, rfl⟩
    obtain rfl : Value.string eventType = v := by simpa using hv
    exact ⟨(Option.some.inj htype').symm, data, hdata, hdecode⟩
  · rintro ⟨rfl, data, hdata, hdecode⟩
    exact ⟨raw.eventType, raw.data, ⟨⟨_, rfl, rfl⟩, data, hdata, hdecode⟩, rfl⟩

theorem event_other {raw : RawEvent} (hother : raw.eventType ∉ handledTypes) :
    raw.event r = .ok (.other raw.eventType) := by
  unfold RawEvent.event
  split
  · next h => exact absurd (by simp [h, handledTypes]) hother
  · next h => exact absurd (by simp [h, handledTypes]) hother
  · next h => exact absurd (by simp [h, handledTypes]) hother
  · rfl

/-- **Which events of other types are acknowledged.** An event whose one
`type` is not acted on is `Other` exactly when it has one `data` with an
`object`, as if it were acted on. -/
theorem parseEvent_other_iff (hparse : r.parse payload = some (.object members))
    (htype : membersOf "type" members = [.string eventType]) (hother : eventType ∉ handledTypes) :
    parseEvent r payload = .ok (.other eventType) ↔ ∃ data, membersOf "data" members = [data] ∧ HasObject r data := by
  simp only [parseEvent, hparse, Option.bind_some, ← rawData_isSome_iff]
  cases hraw : RawEvent.decode r (.object members) with
  | some raw =>
    obtain ⟨rfl, data, hdata, hdecode⟩ := (rawEvent_object htype).1 hraw
    exact iff_of_true (event_other hother) ⟨data, hdata, by simp [hdecode]⟩
  | none =>
    refine iff_of_false nofun ?_
    rintro ⟨data, hdata, hsome⟩
    obtain ⟨raw, hdecode⟩ := Option.isSome_iff_exists.1 hsome
    have henvelope : RawEvent.decode r (.object members) = some ⟨eventType, raw⟩ :=
      (rawEvent_object htype).2 ⟨rfl, data, hdata, hdecode⟩
    cases hraw.symm.trans henvelope

/-- A reader of one text. -/
def readerOf (text : String) (document : Value) : Reader where
  parse payload := if payload = Wire.bytes text then some document else none
  toValue := some
  sliceError _ := "missing field `data` at line 1 column 50"
  valueError _ _ := "unused"

theorem parse_readerOf (text : String) (document : Value) :
    (readerOf text document).parse (Wire.bytes text) = some document :=
  if_pos rfl

theorem parseEvent_other_iff_payment :
    parseEvent
        (readerOf "\x7b\"type\":\"payment_intent.succeeded\",\"data\":\x7b\"object\":\x7b\x7d\x7d\x7d"
          (.object [("type", .string "payment_intent.succeeded"), ("data", .object [("object", .object [])])]))
        (Wire.bytes "\x7b\"type\":\"payment_intent.succeeded\",\"data\":\x7b\"object\":\x7b\x7d\x7d\x7d") =
      .ok (.other "payment_intent.succeeded") := by
  refine (parseEvent_other_iff (parse_readerOf _ _) rfl (by decide)).2 ⟨.object [("object", .object [])], rfl, ?_⟩
  exact ⟨.object [], .inr ⟨_, rfl, rfl⟩, rfl⟩

/-- A thin event, which has no `data`. -/
theorem thinEvent_refused :
    parseEvent
        (readerOf "\x7b\"type\":\"v1.billing.meter.error_report_triggered\"\x7d"
          (.object [("type", .string "v1.billing.meter.error_report_triggered")]))
        (Wire.bytes "\x7b\"type\":\"v1.billing.meter.error_report_triggered\"\x7d") =
      .error (.malformedPayload "missing field `data` at line 1 column 50") := by
  rw [parseEvent, parse_readerOf]
  rfl

end FerrKit.Billing
