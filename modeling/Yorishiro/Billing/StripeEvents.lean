import Mathlib.Order.Lattice
import Yorishiro.Base.Uuid
import Yorishiro.Base.Error
import Yorishiro.Lib.Fence
import Yorishiro.Lib.Json
import Yorishiro.Queue.Lifecycle

/-!
# Stripe events

The tables `stripe_events` and `tenant_billing`, the statements on them, and
`applyStripeEvent`, the transaction a webhook delivery runs. A delivery that returns early
never commits, so it ends as `Unrecorded`: ignored (the webhook answers with success) or
refused with an error.

Events are told apart by their ids: `events id` is what Stripe sends for `id`, however often
it delivers it. `deliver` is the transaction of one delivery, and systems of concurrent
deliveries are the interleavings of `Yorishiro.Lib.Fence` of that code.
-/

set_option autoImplicit false

namespace Yorishiro.Billing

open Yorishiro.Lib
open Yorishiro.Lib.Fence
open Yorishiro.Queue (Instant)

/-! ## Plans -/

/-- A subscription tier. -/
inductive Plan where
  | free
  | pro
  | team
deriving DecidableEq, Repr

/-- The stored name of a plan. -/
def Plan.asStr : Plan → String
  | .free => "free"
  | .pro => "pro"
  | .team => "team"

/-- Which Stripe price is which plan. -/
structure StripePriceMapping where
  proPriceId : Option String
  teamPriceId : Option String
deriving DecidableEq, Repr

/-- The plan of a Stripe price. -/
def Plan.fromStripePriceId (priceId : String) (mapping : StripePriceMapping) : Option Plan :=
  if mapping.proPriceId = some priceId then some .pro
  else if mapping.teamPriceId = some priceId then some .team
  else none

/-! ## Tables -/

/-- A row of `tenant_billing`. -/
structure TenantBilling where
  plan : Option String
  stripeCustomerId : Option String
deriving DecidableEq, Repr

/-- `stripe_customer_id` is unique; rows without one never conflict. -/
def TenantBilling.clash (a b : TenantBilling) : Bool :=
  a.stripeCustomerId.isSome && decide (a.stripeCustomerId = b.stripeCustomerId)

/-- A row of `stripe_events`. -/
structure ProcessedEvent where
  eventType : String
  customerId : Option String
  stripeCreated : Instant
deriving DecidableEq, Repr

/-- The tables of billing; of `tenant_tenants` only the ids, which `tenant_billing` refers
to. -/
structure BillingDb where
  tenants : List Uuid
  billing : Table Uuid TenantBilling TenantBilling.clash
  events : OrderedMap String ProcessedEvent
deriving DecidableEq

/-- Why a delivery ended without a commit. -/
inductive Unrecorded where
  | ignored
  | refused (error : YorishiroError)
deriving DecidableEq, Repr

/-- A transaction of a delivery. Locks are named by their texts. -/
abbrev Tx := Script String BillingDb Unrecorded

/-- The `.internal()` of the source: a failed statement. -/
def internal (e : DbErr) : Unrecorded := .refused (.internal e)

/-! ## `tenant_billing` -/

/-- Resolves the tenant a Stripe customer belongs to. -/
def getByStripeCustomer (customer : String) (db : BillingDb) : Option Uuid :=
  (db.billing.rows.entries.find? fun e => e.2.stripeCustomerId = some customer).map Prod.fst

/-- `INSERT ... ON CONFLICT (tenant_id) DO UPDATE` of a billing row; a new row refers to its
tenant. -/
def upsertBilling (tenant : Uuid) (row : TenantBilling) (change : TenantBilling → TenantBilling)
    (db : BillingDb) : Except Unrecorded (Unit × BillingDb) :=
  if (db.billing.get? tenant).isNone ∧ tenant ∉ db.tenants then
    .error (internal .foreignKeyViolation)
  else
    ((db.billing.upsert tenant row change).mapError internal).map fun billing =>
      ((), { db with billing := billing })

/-- Records the Stripe customer of a tenant. -/
def linkStripeCustomer (tenant : Uuid) (customer : String) : Tx Unit :=
  .update (upsertBilling tenant ⟨none, some customer⟩
    fun row => { row with stripeCustomerId := some customer })

/-- Sets a tenant's plan. -/
def setPlan (tenant : Uuid) (plan : String) : Tx Unit :=
  .update (upsertBilling tenant ⟨some plan, none⟩ fun row => { row with plan := some plan })

/-- A successful upsert of a billing row, tenant by tenant. -/
theorem upsertBilling_eq_ok {tenant : Uuid} {row : TenantBilling}
    {change : TenantBilling → TenantBilling} {db db' : BillingDb} {r : Unit}
    (h : upsertBilling tenant row change db = .ok (r, db')) :
    ((db.billing.get? tenant).isNone = true → tenant ∈ db.tenants) ∧ db'.events = db.events ∧
      ∀ t, db'.billing.get? t = if t = tenant then
        some ((db.billing.get? tenant).elim row change) else db.billing.get? t := by
  unfold upsertBilling at h
  split_ifs at h with hmissing
  obtain ⟨billing, hok, heq⟩ := Except.map_eq_ok h
  cases heq
  refine ⟨fun hnone => by_contra fun hmem => hmissing ⟨hnone, hmem⟩, rfl, fun t => ?_⟩
  exact Table.get?_upsert (Except.mapError_eq_ok hok) t

/-! ## `stripe_events` -/

/-- Whether the event has already been applied. -/
def isEventProcessed (id : String) (db : BillingDb) : Bool := (db.events.get? id).isSome

/-- The creation times of the customer's recorded events. -/
def createdTimes (customer : String) (db : BillingDb) : List Instant :=
  (db.events.entries.filter fun e => e.2.customerId = some customer).map fun e =>
    e.2.stripeCreated

/-- Whether `created` is older than the most recently created event recorded for the
customer. -/
def isStaleForCustomer (customer : String) (created : Instant) (db : BillingDb) : Bool :=
  (createdTimes customer db).max?.any fun latest => decide (created < latest)

/-- `INSERT ... ON CONFLICT (event_id) DO NOTHING`. -/
def recordEvent (id : String) (row : ProcessedEvent) (db : BillingDb) : BillingDb :=
  if isEventProcessed id db then db else { db with events := db.events.insert id row }

/-- Records that the event has been applied. -/
def recordProcessedEvent (id : String) (row : ProcessedEvent) : Tx Unit :=
  .update fun db => .ok ((), recordEvent id row db)

/-! ## Applying an event -/

/-- What Stripe sends for an event id. -/
structure StripeEvent where
  eventType : String
  created : Int
  object : Json

/-- The events that are ordered per customer. -/
def subscriptionTypes : List String :=
  ["customer.subscription.created", "customer.subscription.updated",
    "customer.subscription.deleted"]

/-- `DateTime::from_timestamp` of whole seconds; `none` outside the years it represents. -/
def fromTimestamp (seconds : Int) : Option Instant :=
  if -8334601228800 ≤ seconds ∧ seconds ≤ 8210266876799 then some (seconds * 1000000) else none

namespace StripeEvent

/-- The object's `customer` field. -/
def customerField (ev : StripeEvent) : Option String :=
  (ev.object.get? "customer").bind Json.asStr

/-- The customer whose events the event is ordered with. -/
def customerId (ev : StripeEvent) : Option String :=
  if ev.eventType ∈ subscriptionTypes then ev.customerField else none

/-- The price of the first subscription item. -/
def priceId (ev : StripeEvent) : Option String := do
  let items ← ev.object.get? "items"
  let data ← items.get? "data"
  let first ← data.elements.head?
  let price ← first.get? "price"
  let id ← price.get? "id"
  id.asStr

/-- The tenant a checkout session was started for. -/
def clientReferenceId (ev : StripeEvent) : Option Uuid :=
  ((ev.object.get? "client_reference_id").bind Json.asStr).bind Uuid.parseStr

/-- The row that records the event. -/
def record (ev : StripeEvent) (created : Instant) : ProcessedEvent :=
  ⟨ev.eventType, ev.customerId, created⟩

end StripeEvent

/-- The refusal of an event whose customer has no tenant yet. -/
def unlinkedCustomer : Unrecorded :=
  .refused (.backendUnavailable
    "subscription customer is not linked yet; retry after checkout completes")

/-- The tenant a subscription event's customer resolves to. -/
def resolveTenantByCustomer (ev : StripeEvent) : Tx (Option Uuid) :=
  match ev.customerField with
  | none => pure none
  | some customer => .read (getByStripeCustomer customer)

/-- Waits for the events of the customer, and ends the delivery of a stale one. -/
def orderForCustomer (customer : Option String) (created : Instant) : Tx Unit :=
  match customer with
  | none => pure ()
  | some customer => do
      Script.acquire ("stripe-customer:" ++ customer)
      let stale ← Script.read (isStaleForCustomer customer created)
      if stale then .fail .ignored else pure ()

/-- What the event does to the tenant. -/
def applyEffect (mapping : StripePriceMapping) (ev : StripeEvent) : Tx Unit :=
  if ev.eventType = "checkout.session.completed" then
    match ev.clientReferenceId, ev.customerField with
    | some tenant, some customer => linkStripeCustomer tenant customer
    | _, _ => .fail .ignored
  else if ev.eventType = "customer.subscription.created" ∨
      ev.eventType = "customer.subscription.updated" then do
    let tenant ← resolveTenantByCustomer ev
    let tenant ← Script.orFail unlinkedCustomer tenant
    let plan ← Script.orFail .ignored
      (ev.priceId.bind fun id => Plan.fromStripePriceId id mapping)
    setPlan tenant plan.asStr
  else if ev.eventType = "customer.subscription.deleted" then do
    let tenant ← resolveTenantByCustomer ev
    let tenant ← Script.orFail unlinkedCustomer tenant
    setPlan tenant Plan.free.asStr
  else pure ()

/-- Applies a verified Stripe event. -/
def applyStripeEvent (mapping : StripePriceMapping) (id : String) (ev : StripeEvent) :
    Tx Unit := do
  let processed ← Script.read (isEventProcessed id)
  if processed then .fail .ignored
  let created ← Script.orFail .ignored (fromTimestamp ev.created)
  orderForCustomer ev.customerId created
  applyEffect mapping ev
  recordProcessedEvent id (ev.record created)

/-- A delivery of the event `id`. -/
def deliver (mapping : StripePriceMapping) (events : String → StripeEvent) (id : String) :
    Tx Unit :=
  applyStripeEvent mapping id (events id)

/-- Concurrent deliveries, named by the ids of their events. -/
abbrev Deliveries := Server String String BillingDb Unrecorded Unit

/-- One step of concurrent deliveries; only deliveries write the two tables. -/
def Deliveries.next (mapping : StripePriceMapping) (events : String → StripeEvent) :
    Deliveries → Event String Empty → Deliveries :=
  Server.step (deliver mapping events) fun e => e.elim

end Yorishiro.Billing
