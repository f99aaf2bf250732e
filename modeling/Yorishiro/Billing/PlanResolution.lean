import Yorishiro.Base.Quotas
import Yorishiro.Billing.PlanOrder

/-!
# The plan of a tenant

`Plan.forTenant` reads the plan from an active licence, else from the tenant's billing row, and
takes a tenant without a row to be on the free plan. The row is made by the first event that
writes it, and that is a checkout: it has a customer and no plan yet. A row without a plan is an
error.

`resolves_iff` says when the plan can be resolved for every tenant at every point of a sequence of
events: when no checkout of the sequence makes a row.
-/

set_option autoImplicit false

namespace Yorishiro.Billing

open Yorishiro.Lib Yorishiro.Lib.Fence Yorishiro.Lib.Transition
open Yorishiro.Queue (Instant)

/-! ## Resolution -/

/-- What may be wrong with a stored plan: "billing plan is missing" and "unknown plan value", both
internal errors to the caller. -/
inductive PlanError where
  | missing
  | unknown (value : String)
deriving DecidableEq, Repr

/-- The plan of a stored name. -/
def Plan.fromDbStr (value : String) : Except PlanError Plan :=
  if value = "free" then .ok .free
  else if value = "pro" then .ok .pro
  else if value = "team" then .ok .team
  else if value = "enterprise" then .ok .team
  else .error (.unknown value)

/-- What the modelled functions read of a verified licence key. -/
structure LicenceClaims where
  plan : String
  exp : Int
deriving DecidableEq, Repr

/-- The licence of the deployment. -/
structure LicenceState where
  claims : Option LicenceClaims
deriving DecidableEq, Repr

/-- A verified key that has not yet expired. -/
def LicenceState.isActiveAt (state : LicenceState) (now : Int) : Bool :=
  state.claims.any fun claims => decide (now < claims.exp)

/-- The plan of an active licence; an unknown one is not used. -/
def LicenceState.activePlanAt (state : LicenceState) (now : Int) : Option Plan :=
  (state.claims.filter fun claims => decide (now < claims.exp)).bind fun claims =>
    (Plan.fromDbStr claims.plan).toOption

/-- `Plan::for_tenant`. -/
def Plan.forTenant (licence : Option LicenceState) (now : Int) (db : BillingDb) (tenant : Uuid) :
    Except PlanError Plan :=
  match licence.bind fun state => state.activePlanAt now with
  | some plan => .ok plan
  | none =>
      match db.billing.get? tenant with
      | none => .ok .free
      | some billing =>
          match billing.plan with
          | none => .error .missing
          | some plan => Plan.fromDbStr plan

/-! ## Quotas -/

/-- The limits of a plan. -/
def Plan.caps : Plan → Quotas
  | .free => ⟨some 1, some 500⟩
  | .pro => ⟨some 5, some 50000⟩
  | .team => ⟨none, none⟩

/-- Whether plan rules apply: they are switched on, under an active licence. -/
def planPolicyEnabled (enabled : Bool) (licence : Option LicenceState) (now : Int) : Bool :=
  enabled && licence.any fun state => state.isActiveAt now

/-- The quotas of a tenant, for the creation of workspaces and entities. The clock is read for the
policy and again for the plan. -/
def quotas (enabled : Bool) (licence : Option LicenceState) (now now' : Int) (db : BillingDb)
    (tenant : Uuid) : Except PlanError Quotas :=
  if planPolicyEnabled enabled licence now then (Plan.forTenant licence now' db tenant).map Plan.caps
  else .ok ⟨none, none⟩

/-- A plan is found for every tenant under every licence, and so are its quotas. -/
def Resolves (db : BillingDb) : Prop :=
  ∀ tenant licence now, (∃ plan, Plan.forTenant licence now db tenant = .ok plan) ∧
    ∀ enabled before, ∃ q, quotas enabled licence before now db tenant = .ok q

/-! ## Sequences of events -/

/-- The tables after a delivery; one that does not commit leaves them as they are. -/
def applied (mapping : StripePriceMapping) (events : String → StripeEvent) (db : BillingDb)
    (id : String) : BillingDb :=
  match (deliver mapping events id).alone db with
  | .ok r => r.2
  | .error _ => db

/-- The delivery makes a billing row: a checkout that was not applied before, by a customer no
tenant has, for a tenant without a row. -/
def opensRow (events : String → StripeEvent) (db : BillingDb) (id : String) : Bool :=
  decide ((events id).eventType = "checkout.session.completed") && !isEventProcessed id db &&
    (fromTimestamp (events id).created).isSome &&
    match (events id).clientReferenceId, (events id).customerField with
    | some tenant, some customer => (db.billing.get? tenant).isNone && decide (tenant ∈ db.tenants) &&
        (getByStripeCustomer customer db).isNone
    | _, _ => false

/-- Every billing row has a plan. -/
def Planned (db : BillingDb) : Prop :=
  ∀ tenant row, db.billing.get? tenant = some row →
    ∃ name plan, row.plan = some name ∧ Plan.fromDbStr name = .ok plan

theorem fromDbStr_asStr (plan : Plan) : Plan.fromDbStr plan.asStr = .ok plan := by
  cases plan with
  | free => rfl
  | pro => rfl
  | team => rfl

theorem resolves_iff_planned (db : BillingDb) : Resolves db ↔ Planned db := by
  constructor
  · intro h tenant row hrow
    obtain ⟨plan, hplan⟩ := (h tenant none 0).1
    simp only [Plan.forTenant, Option.bind_none, hrow] at hplan
    cases hname : row.plan with
    | none =>
        rw [hname] at hplan
        cases hplan
    | some name =>
        rw [hname] at hplan
        exact ⟨name, plan, rfl, hplan⟩
  · intro h tenant licence now
    have hplan : ∃ plan, Plan.forTenant licence now db tenant = .ok plan := by
      unfold Plan.forTenant
      cases licence.bind fun state => state.activePlanAt now with
      | some plan => exact ⟨plan, rfl⟩
      | none =>
          cases hrow : db.billing.get? tenant with
          | none => exact ⟨.free, rfl⟩
          | some row =>
              obtain ⟨name, plan, hname, hplan⟩ := h tenant row hrow
              simp only [hname]
              exact ⟨plan, hplan⟩
    refine ⟨hplan, fun enabled before => ?_⟩
    unfold quotas
    split_ifs
    · obtain ⟨plan, hplan⟩ := hplan
      rw [hplan]
      exact ⟨plan.caps, rfl⟩
    · exact ⟨_, rfl⟩

theorem orderForCustomer_state {customer : Option String} {created : Instant} {db : BillingDb}
    {r : Unit × BillingDb} (h : (orderForCustomer customer created).alone db = .ok r) :
    r.2 = db := by
  cases customer with
  | none =>
      cases h
      rfl
  | some customer =>
      simp only [orderForCustomer, Script.alone_acquire_bind, Script.alone_read_bind] at h
      split_ifs at h
      · cases h
      · cases h
        rfl

/-- A delivery that commits. -/
theorem applyStripeEvent_eq_ok {mapping : StripePriceMapping} {id : String} {ev : StripeEvent}
    {db : BillingDb} {r : Unit × BillingDb} :
    (applyStripeEvent mapping id ev).alone db = .ok r ↔
      isEventProcessed id db = false ∧ ∃ created mid, fromTimestamp ev.created = some created ∧
        (orderForCustomer ev.customerId created).alone db = .ok ((), db) ∧
        (applyEffect mapping ev).alone db = .ok ((), mid) ∧
          r = ((), recordEvent id (ev.record created) mid) := by
  unfold applyStripeEvent
  rw [Script.alone_read_bind]
  cases hprocessed : isEventProcessed id db with
  | true => simp [Script.alone_bind, Except.bind]
  | false =>
      simp only [Bool.false_eq_true, if_false, true_and]
      rw [Script.alone_orFail_bind_eq_ok]
      refine exists_congr fun created => ?_
      rw [Script.alone_bind_eq_ok]
      constructor
      · rintro ⟨hcreated, u, s, horder, h⟩
        obtain rfl : s = db := orderForCustomer_state horder
        obtain ⟨_, mid, heffect, h⟩ := Script.alone_bind_eq_ok.mp h
        exact ⟨mid, hcreated, horder, heffect, (Except.ok.inj h).symm⟩
      · rintro ⟨mid, hcreated, horder, heffect, rfl⟩
        exact ⟨hcreated, (), db, horder, Script.alone_bind_eq_ok.mpr ⟨(), mid, heffect, rfl⟩⟩

/-- A successful link. -/
theorem linkStripeCustomer_eq_ok {tenant : Uuid} {customer : String} {db db' : BillingDb} {r : Unit}
    (h : (linkStripeCustomer tenant customer).alone db = .ok (r, db')) :
    ((db.billing.get? tenant).isNone = true → tenant ∈ db.tenants) ∧
      ∀ t, db'.billing.get? t = if t = tenant then
        some { plan := (db.billing.get? tenant).bind (·.plan), stripeCustomerId := some customer }
        else db.billing.get? t := by
  rw [linkStripeCustomer, Script.alone_update] at h
  obtain ⟨htenant, -, hbilling⟩ := upsertBilling_eq_ok h
  refine ⟨htenant, fun t => ?_⟩
  rw [hbilling t]
  cases db.billing.get? tenant with
  | none => rfl
  | some row => rfl

theorem getByStripeCustomer_eq_none {customer : String} {db : BillingDb}
    (h : getByStripeCustomer customer db = none) {t : Uuid} {row : TenantBilling}
    (hrow : db.billing.get? t = some row) : row.stripeCustomerId ≠ some customer := by
  have hnone := List.find?_eq_none.mp (Option.map_eq_none_iff.mp h) (t, row)
    ((OrderedMap.mem_entries_iff db.billing.rows t row).mpr hrow)
  simpa using hnone

theorem TenantBilling.clash_comm (a b : TenantBilling) :
    TenantBilling.clash a b = TenantBilling.clash b a := by
  by_cases heq : a.stripeCustomerId = b.stripeCustomerId
  · simp [TenantBilling.clash, heq]
  · simp [TenantBilling.clash, heq, Ne.symm heq]

/-- A new customer can be linked to a tenant without a row. -/
theorem linkStripeCustomer_total {tenant : Uuid} {customer : String} {db : BillingDb}
    (htenant : tenant ∈ db.tenants) (hrow : db.billing.get? tenant = none)
    (hcustomer : getByStripeCustomer customer db = none) :
    ∃ db', (linkStripeCustomer tenant customer).alone db = .ok ((), db') := by
  obtain ⟨billing, hinsert⟩ := Table.insert_total TenantBilling.clash_comm hrow
    (x := ⟨none, some customer⟩) fun t row ht => by
      simp [TenantBilling.clash, (getByStripeCustomer_eq_none hcustomer ht).symm]
  have hupsert : db.billing.upsert tenant ⟨none, some customer⟩
      (fun row => { row with stripeCustomerId := some customer }) = .ok billing := by
    rw [Table.insert, if_neg (by simp [hrow])] at hinsert
    rw [Table.upsert, hrow]
    exact hinsert
  refine ⟨{ db with billing := billing }, ?_⟩
  rw [linkStripeCustomer, Script.alone_update, upsertBilling, if_neg (fun h => h.2 htenant), hupsert]
  rfl

/-! ## What an event does to plans -/

section Events

variable {mapping : StripePriceMapping} {events : String → StripeEvent} {db : BillingDb} {id : String}

theorem applyEffect_of_checkout {ev : StripeEvent}
    (h : ev.eventType = "checkout.session.completed") {tenant : Uuid} {customer : String}
    (htenant : ev.clientReferenceId = some tenant) (hcustomer : ev.customerField = some customer) :
    applyEffect mapping ev = linkStripeCustomer tenant customer := by
  unfold applyEffect
  rw [if_pos h, htenant, hcustomer]

/-- The event makes the tenant's row: a checkout by a customer no tenant has. -/
structure Opens (ev : StripeEvent) (db : BillingDb) (tenant : Uuid) : Prop where
  eventType : ev.eventType = "checkout.session.completed"
  reference : ev.clientReferenceId = some tenant
  registered : tenant ∈ db.tenants
  unbilled : db.billing.get? tenant = none
  customer : ∃ customer, ev.customerField = some customer ∧ getByStripeCustomer customer db = none

theorem opensRow_iff : opensRow events db id = true ↔ isEventProcessed id db = false ∧
    (fromTimestamp (events id).created).isSome ∧ ∃ tenant, Opens (events id) db tenant := by
  unfold opensRow
  constructor
  · intro h
    simp only [Bool.and_eq_true, decide_eq_true_eq, Bool.not_eq_true'] at h
    obtain ⟨⟨⟨htype, hprocessed⟩, hcreated⟩, h⟩ := h
    split at h
    · rename_i tenant customer htenant hcustomer
      simp only [Bool.and_eq_true, Option.isNone_iff_eq_none, decide_eq_true_eq] at h
      exact ⟨hprocessed, hcreated, tenant, htype, htenant, h.1.2, h.1.1, customer, hcustomer, h.2⟩
    · cases h
  · rintro ⟨hprocessed, hcreated, tenant, htype, htenant, hmem, hrow, customer, hcustomer, hfree⟩
    simp [htype, hprocessed, hcreated, htenant, hcustomer, hrow, hmem, hfree]

theorem link_effect {ev : StripeEvent} {mid : BillingDb} {tenant : Uuid} {customer : String}
    (htype : ev.eventType = "checkout.session.completed")
    (htenant : ev.clientReferenceId = some tenant) (hcustomer : ev.customerField = some customer)
    (h : (linkStripeCustomer tenant customer).alone db = .ok ((), mid)) {t : Uuid}
    {row : TenantBilling} (hrow : mid.billing.get? t = some row) :
    (∃ old, db.billing.get? t = some old ∧ row.plan = old.plan) ∨ Opens ev db t := by
  obtain ⟨hmem, hget⟩ := linkStripeCustomer_eq_ok h
  have hself := hget t
  rw [hrow] at hself
  split_ifs at hself with ht
  · subst ht
    cases hold : db.billing.get? t with
    | some old =>
        rw [hold] at hself
        cases hself
        exact Or.inl ⟨old, rfl, rfl⟩
    | none =>
        refine Or.inr ⟨htype, htenant, hmem (by simp [hold]), hold, customer, hcustomer, ?_⟩
        -- else the customer would have two tenants now
        by_contra hother
        obtain ⟨t', ht'⟩ := Option.ne_none_iff_exists'.mp hother
        obtain ⟨row', hrow', hlinked⟩ := getByStripeCustomer_eq_some ht'
        have hne : t' ≠ t := by
          rintro rfl
          rw [hold] at hrow'
          cases hrow'
        cases hself
        have hnew : Linked customer t mid := ⟨_, hrow, rfl⟩
        have hkept : Linked customer t' mid := by
          refine ⟨row', ?_, hlinked⟩
          rw [hget t', if_neg hne]
          exact hrow'
        exact hne (hkept.unique hnew)
  · exact Or.inl ⟨row, hself.symm, rfl⟩

/-- **What an event can do to a row**: set a plan in it, keep its plan, or make it. -/
theorem applyEffect_rows {ev : StripeEvent} {mid : BillingDb}
    (h : (applyEffect mapping ev).alone db = .ok ((), mid)) {t : Uuid} {row : TenantBilling}
    (hrow : mid.billing.get? t = some row) :
    (∃ plan : Plan, row.plan = some plan.asStr) ∨
      (∃ old, db.billing.get? t = some old ∧ row.plan = old.plan) ∨ Opens ev db t := by
  by_cases htype : ev.eventType = "checkout.session.completed"
  · cases htenant : ev.clientReferenceId with
    | none =>
        rw [applyEffect, if_pos htype, htenant] at h
        cases h
    | some tenant =>
        cases hcustomer : ev.customerField with
        | none =>
            rw [applyEffect, if_pos htype, htenant, hcustomer] at h
            cases h
        | some customer =>
            rw [applyEffect_of_checkout htype htenant hcustomer] at h
            exact Or.inr (link_effect htype htenant hcustomer h hrow)
  · by_cases hsub : ev.eventType ∈ subscriptionTypes
    · rw [applyEffect_of_subscription hsub] at h
      obtain ⟨found, s, hresolve, hrest⟩ := Script.alone_bind_eq_ok.mp h
      obtain rfl : s = db := by
        unfold resolveTenantByCustomer at hresolve
        cases hcustomer : ev.customerField with
        | none =>
            rw [hcustomer] at hresolve
            cases hresolve
            rfl
        | some customer =>
            rw [hcustomer] at hresolve
            cases hresolve
            rfl
      obtain ⟨tenant, -, hrest⟩ := Script.alone_orFail_bind_eq_ok.mp hrest
      obtain ⟨plan, -, hset⟩ := Script.alone_orFail_bind_eq_ok.mp hrest
      rw [setPlan, Script.alone_update] at hset
      replace hset := (setPlan_eq_ok hset).2 t
      rw [hrow] at hset
      split_ifs at hset with ht
      · cases hset
        exact Or.inl ⟨plan, rfl⟩
      · exact Or.inr (Or.inl ⟨row, hset.symm, rfl⟩)
    · simp only [subscriptionTypes, List.mem_cons, List.not_mem_nil, or_false, not_or] at hsub
      rw [applyEffect, if_neg htype, if_neg (not_or.mpr ⟨hsub.1, hsub.2.1⟩), if_neg hsub.2.2] at h
      cases h
      exact Or.inr (Or.inl ⟨row, hrow, rfl⟩)

/-- **Every row keeps a plan**, unless the event makes one. -/
theorem applied_planned (h : Planned db) (hopens : opensRow events db id = false) :
    Planned (applied mapping events db id) := by
  unfold applied
  split
  · rename_i r hr
    obtain ⟨hprocessed, created, mid, hcreated, -, heffect, rfl⟩ := applyStripeEvent_eq_ok.mp hr
    intro tenant row hrow
    rw [recordEvent_billing] at hrow
    rcases applyEffect_rows heffect hrow with ⟨plan, hplan⟩ | ⟨old, hold, heq⟩ | hopen
    · exact ⟨plan.asStr, plan, hplan, fromDbStr_asStr plan⟩
    · rw [heq]
      exact h tenant old hold
    · have htrue := opensRow_iff.mpr ⟨hprocessed, by rw [hcreated]; rfl, tenant, hopen⟩
      rw [hopens] at htrue
      cases htrue
  · exact h

/-- A row that an event makes has no plan. -/
theorem applied_not_planned (hopens : opensRow events db id = true) :
    ¬Planned (applied mapping events db id) := by
  obtain ⟨hprocessed, hcreated, tenant, htype, htenant, hmem, hrow, customer, hcustomer, hfree⟩ :=
    opensRow_iff.mp hopens
  obtain ⟨created, hcreated⟩ := Option.isSome_iff_exists.mp hcreated
  obtain ⟨mid, hlink⟩ := linkStripeCustomer_total hmem hrow hfree
  have horder : (orderForCustomer (events id).customerId created).alone db = .ok ((), db) := by
    have hnone : (events id).customerId = none := by
      rw [StripeEvent.customerId, htype]
      rfl
    rw [hnone]
    rfl
  have hdeliver : (deliver mapping events id).alone db =
      .ok ((), recordEvent id ((events id).record created) mid) := by
    refine applyStripeEvent_eq_ok.mpr ⟨hprocessed, created, mid, hcreated, horder, ?_, rfl⟩
    rw [applyEffect_of_checkout htype htenant hcustomer]
    exact hlink
  unfold applied
  rw [hdeliver]
  intro hplanned
  obtain ⟨name, plan, hname, -⟩ := hplanned tenant ⟨none, some customer⟩ (by
    rw [recordEvent_billing, (linkStripeCustomer_eq_ok hlink).2, if_pos rfl, hrow]
    rfl)
  cases hname

end Events

/-! ## Whole sequences -/

/-- **A plan can be resolved throughout a sequence of events exactly when no checkout of the
sequence makes a billing row.** -/
theorem resolves_iff (mapping : StripePriceMapping) (events : String → StripeEvent) (db : BillingDb)
    (hdb : Resolves db) (ids : List String) :
    (∀ earlier later, ids = earlier ++ later → Resolves (run (applied mapping events) db earlier)) ↔
      StepsMeet (applied mapping events) (fun db id => opensRow events db id = false) db ids := by
  induction ids generalizing db with
  | nil =>
      refine iff_of_true (fun earlier later h => ?_) trivial
      obtain ⟨rfl, -⟩ := List.append_eq_nil_iff.mp h.symm
      exact hdb
  | cons id ids ih =>
      constructor
      · intro h
        have hnext := h [id] ids rfl
        have hopens : opensRow events db id = false := by
          by_contra hopens
          exact applied_not_planned (eq_true_of_ne_false hopens)
            ((resolves_iff_planned _).mp hnext)
        refine ⟨hopens, (ih _ hnext).mp fun earlier later heq => ?_⟩
        exact h (id :: earlier) later (by rw [heq]; rfl)
      · rintro ⟨hopens, hrest⟩ earlier later heq
        have hnext : Resolves (applied mapping events db id) :=
          (resolves_iff_planned _).mpr
            (applied_planned ((resolves_iff_planned _).mp hdb) hopens)
        cases earlier with
        | nil => exact hdb
        | cons first earlier =>
            obtain ⟨rfl, hids⟩ := List.cons.inj heq
            exact (ih _ hnext).mpr hrest earlier later hids

/-- A checkout of tenant 1 by `cus_a`, and subscription events of `cus_a` at one price. -/
def checkoutThen (price id : String) : StripeEvent :=
  if id = "evt_checkout" then
    { eventType := "checkout.session.completed"
      created := 1
      object := .object
        [("client_reference_id", .string "00000000-0000-0000-0000-000000000001"),
          ("customer", .string "cus_a")] }
  else subscriptionAt price

/-- A tenant that was never billed. -/
def unbilledTenant : BillingDb where
  tenants := [1]
  billing := .empty
  events := OrderedMap.empty

/-- A tenant whose subscription has ended. -/
def formerTenant : BillingDb where
  tenants := [1]
  billing := ⟨OrderedMap.ofList [(1, ⟨some "free", none⟩)], by decide⟩
  events := OrderedMap.empty

theorem unbilledTenant_resolves : Resolves unbilledTenant :=
  (resolves_iff_planned _).mpr fun _ _ hrow => by cases hrow

theorem formerTenant_resolves : Resolves formerTenant := by
  refine (resolves_iff_planned _).mpr fun tenant row hrow => ?_
  have hmem := (OrderedMap.mem_entries_iff formerTenant.billing.rows tenant row).mpr hrow
  obtain ⟨-, rfl⟩ := Prod.mk.inj (List.mem_singleton.mp hmem)
  exact ⟨"free", .free, rfl, rfl⟩

/-- A former subscriber comes back. -/
theorem resolves_iff_formerTenant :
    let db := run (applied twoPrices (checkoutThen "price_pro")) formerTenant
      ["evt_checkout", "evt_e"]
    storedPlan 1 db = some "pro" ∧ Resolves db :=
  ⟨by decide, (resolves_iff twoPrices (checkoutThen "price_pro") formerTenant
    formerTenant_resolves ["evt_checkout", "evt_e"]).mpr (by decide)
      ["evt_checkout", "evt_e"] [] rfl⟩

/-- A first checkout leaves a row without a plan, and so does a subscription at a price that no
plan has. -/
theorem not_resolves_unbilledTenant :
    Resolves unbilledTenant ∧
      ¬Resolves (run (applied twoPrices (checkoutThen "price_other")) unbilledTenant
        ["evt_checkout"]) ∧
      ¬Resolves (run (applied twoPrices (checkoutThen "price_other")) unbilledTenant
        ["evt_checkout", "evt_e"]) := by
  refine ⟨unbilledTenant_resolves, fun h => ?_, fun h => ?_⟩
  · obtain ⟨plan, hplan⟩ := (h 1 none 0).1
    have herror : Plan.forTenant none 0 (run (applied twoPrices (checkoutThen "price_other"))
        unbilledTenant ["evt_checkout"]) 1 = .error .missing := by decide
    rw [herror] at hplan
    cases hplan
  · obtain ⟨plan, hplan⟩ := (h 1 none 0).1
    have herror : Plan.forTenant none 0 (run (applied twoPrices (checkoutThen "price_other"))
        unbilledTenant ["evt_checkout", "evt_e"]) 1 = .error .missing := by decide
    rw [herror] at hplan
    cases hplan

end Yorishiro.Billing
