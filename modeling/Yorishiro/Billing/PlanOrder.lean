import Yorishiro.Billing.StripeEvents

/-!
# The order of subscription events

One customer is linked to one tenant, and deliveries of subscription events run in any
interleaving, with any duplicates and failures. `plan_follows_newest` says that the tenant's
plan is always that of a recorded event that no recorded event of the customer is newer
than, and that only a delivery that records its event changes anything.

`applied_once` is about duplicates of one event. The check for them is made before the
customer's lock is taken and not again under it, so a second delivery can be on its way when
the first one commits. It sets the plan again when another event of the same second has come
between (`not_applied_once_sameSecond`), and only then: whenever a delivery checks for
staleness (`Settled`), its event is not recorded yet, or a newer one is, or the events
recorded for that second have its plan.
-/

set_option autoImplicit false

namespace Yorishiro.Billing

open Yorishiro.Lib
open Yorishiro.Lib.Fence
open Yorishiro.Queue (Instant)

/-! ## What the statements leave -/

theorem not_stale {customer : String} {created : Instant} {db : BillingDb}
    (h : isStaleForCustomer customer created db = false) {id : String} {row : ProcessedEvent}
    (hrow : db.events.get? id = some row) (hcustomer : row.customerId = some customer) :
    row.stripeCreated ≤ created := by
  have hmem : row.stripeCreated ∈ createdTimes customer db := by
    apply List.mem_map.mpr
    refine ⟨(id, row), List.mem_filter.mpr ⟨?_, by simpa using hcustomer⟩, rfl⟩
    exact (OrderedMap.mem_entries_iff db.events id row).mpr hrow
  cases hmax : (createdTimes customer db).max? with
  | none => simp [List.max?_eq_none_iff.mp hmax] at hmem
  | some latest =>
      have hle : row.stripeCreated ≤ latest := (List.max?_eq_some_iff.mp hmax).2 _ hmem
      have hlatest : latest ≤ created := by simpa [isStaleForCustomer, hmax] using h
      exact hle.trans hlatest

theorem getByStripeCustomer_eq_some {customer : String} {db : BillingDb} {tenant : Uuid}
    (h : getByStripeCustomer customer db = some tenant) :
    ∃ row, db.billing.get? tenant = some row ∧ row.stripeCustomerId = some customer := by
  obtain ⟨⟨t, row⟩, hfind, rfl⟩ := Option.map_eq_some_iff.mp h
  refine ⟨row, ?_, by simpa using List.find?_some hfind⟩
  exact (OrderedMap.mem_entries_iff db.billing.rows t row).mp (List.mem_of_find?_eq_some hfind)

/-- A successful change of a plan. -/
theorem setPlan_eq_ok {tenant : Uuid} {plan : String} {db db' : BillingDb} {r : Unit}
    (h : upsertBilling tenant ⟨some plan, none⟩ (fun row => { row with plan := some plan }) db
      = .ok (r, db')) :
    db'.events = db.events ∧ ∀ t, db'.billing.get? t = if t = tenant then
      some { plan := some plan, stripeCustomerId := (db.billing.get? tenant).bind (·.stripeCustomerId) }
      else db.billing.get? t := by
  obtain ⟨-, hevents, hbilling⟩ := upsertBilling_eq_ok h
  refine ⟨hevents, fun t => ?_⟩
  rw [hbilling t]
  cases db.billing.get? tenant with
  | none => rfl
  | some row => rfl

theorem recordEvent_billing (id : String) (row : ProcessedEvent) (db : BillingDb) :
    (recordEvent id row db).billing = db.billing := by
  unfold recordEvent
  split_ifs
  · rfl
  · rfl

theorem recordEvent_events (id : String) (row : ProcessedEvent) (db : BillingDb) (l : String) :
    (recordEvent id row db).events.get? l =
      if l = id then some ((db.events.get? id).getD row) else db.events.get? l := by
  unfold recordEvent isEventProcessed
  cases hid : db.events.get? id with
  | none => simp
  | some old =>
      simp only [Option.isSome_some, if_true, Option.getD_some]
      split_ifs with hl
      · rw [hl, hid]
      · rfl

/-! ## What a delivery does -/

/-- The plan a subscription event stands for. -/
def StripeEvent.plan (mapping : StripePriceMapping) (ev : StripeEvent) : Option Plan :=
  if ev.eventType = "customer.subscription.deleted" then some .free
  else ev.priceId.bind fun id => Plan.fromStripePriceId id mapping

/-- Every subscription event sets its plan at the tenant its customer resolves to. -/
theorem applyEffect_of_subscription {mapping : StripePriceMapping} {ev : StripeEvent}
    (h : ev.eventType ∈ subscriptionTypes) :
    applyEffect mapping ev = (do
      let tenant ← resolveTenantByCustomer ev
      let tenant ← Script.orFail unlinkedCustomer tenant
      let plan ← Script.orFail .ignored (ev.plan mapping)
      setPlan tenant plan.asStr) := by
  unfold applyEffect StripeEvent.plan
  simp only [subscriptionTypes, List.mem_cons, List.not_mem_nil, or_false] at h
  rcases h with h | h | h
  · simp [h]
  · simp [h]
  · simp only [h, String.reduceEq, if_false, if_true, or_self]
    rfl

/-! ## The order -/

/-- A recorded event of the customer. -/
structure Recorded (customer id : String) (row : ProcessedEvent) (db : BillingDb) : Prop where
  get : db.events.get? id = some row
  customer : row.customerId = some customer

/-- The customer's tenant. -/
def Linked (customer : String) (tenant : Uuid) (db : BillingDb) : Prop :=
  ∃ row, db.billing.get? tenant = some row ∧ row.stripeCustomerId = some customer

/-- The stored plan of a tenant. -/
def storedPlan (tenant : Uuid) (db : BillingDb) : Option String :=
  (db.billing.get? tenant).bind (·.plan)

/-- A customer has one tenant only. -/
theorem Linked.unique {customer : String} {t t' : Uuid} {db : BillingDb}
    (h : Linked customer t db) (h' : Linked customer t' db) : t = t' := by
  obtain ⟨row, hrow, hc⟩ := h
  obtain ⟨row', hrow', hc'⟩ := h'
  by_contra hne
  have hclash : TenantBilling.clash row row' = false := by
    refine Table.clash_eq_false (fun a b => ?_) hne hrow hrow'
    cases a with
    | mk plan c =>
        cases b with
        | mk plan' c' =>
            by_cases heq : c = c'
            · simp [TenantBilling.clash, heq]
            · simp [TenantBilling.clash, heq, Ne.symm heq]
  simp [TenantBilling.clash, hc, hc'] at hclash

/-- Once an event of the customer is recorded, the plan is that of a recorded event than
which none is newer. -/
def FollowsNewest (mapping : StripePriceMapping) (events : String → StripeEvent)
    (customer : String) (tenant : Uuid) (db : BillingDb) : Prop :=
  (∃ id row, Recorded customer id row db) →
    ∃ id row plan, Recorded customer id row db ∧
      (∀ id' row', Recorded customer id' row' db → row'.stripeCreated ≤ row.stripeCreated) ∧
      (events id).plan mapping = some plan ∧ storedPlan tenant db = some plan.asStr

/-- After a commit of an event no other delivery of it changes the tenant's plan. -/
def AppliedOnce (tenant : Uuid) (log : List (Entry String BillingDb Unit)) : Prop :=
  log.Pairwise fun first later =>
    first.job = later.job → storedPlan tenant later.before = storedPlan tenant later.after

/-- The event is not recorded, or a newer one of the customer is, or the events recorded for
its second have its plan. -/
def Settled (mapping : StripePriceMapping) (events : String → StripeEvent)
    (customer id : String) (db : BillingDb) : Prop :=
  (∀ row, ¬ Recorded customer id row db) ∨
    ∀ created, fromTimestamp (events id).created = some created →
      (∃ id' row', Recorded customer id' row' db ∧ created < row'.stripeCreated) ∨
      ∀ id' row', Recorded customer id' row' db → row'.stripeCreated = created →
        (events id').plan mapping = (events id).plan mapping

/-- A delivery for the customer that is about to check for staleness, which is its second
statement, sees its event settled. -/
def ChecksSettled (mapping : StripePriceMapping) (events : String → StripeEvent)
    (customer : String) (s : Deliveries) : Event String Empty → Prop
  | .step t =>
      ∀ x, s.sessions.get? t = some x → x.script.isStatement = true → x.seen.length = 1 →
        (events x.job).customerId = some customer →
          ∀ v, x.pending s.state.db = .ok v → Settled mapping events customer x.job v
  | _ => True

/-! ## What the customer's lock protects -/

section Order

variable (mapping : StripePriceMapping) (events : String → StripeEvent) (customer : String)
  (tenant : Uuid) (db₀ : BillingDb)

/-- The row of `id` records the event as Stripe sends it. -/
def Truthful (id : String) (row : ProcessedEvent) : Prop :=
  ∃ created, fromTimestamp (events id).created = some created ∧ row = (events id).record created

/-- **The invariant of deliveries**, from the tables `db₀` on: the customer stays linked, old
records stay, new ones are truthful, the plan follows the newest record, and what has
committed is recorded. With `once`, the commits apply each event once. -/
structure Ordered (once : Prop) (w : State String BillingDb Unit) : Prop where
  linked : Linked customer tenant w.db
  kept : ∀ id row, db₀.events.get? id = some row → w.db.events.get? id = some row
  truthful : ∀ id row, w.db.events.get? id = some row →
    db₀.events.get? id = some row ∨ Truthful events id row
  follows : FollowsNewest mapping events customer tenant w.db
  logged : ∀ e ∈ w.log, (w.db.events.get? e.job).isSome
  applied : once → AppliedOnce tenant w.log

/-- The customer's records and the tenant's billing row are the same. -/
def SameOrder (w w' : State String BillingDb Unit) : Prop :=
  (∀ id row, Recorded customer id row w.db ↔ Recorded customer id row w'.db) ∧
    w'.db.billing.get? tenant = w.db.billing.get? tenant

/-- Whoever has the customer's lock finds the order of its events as it is. -/
def discipline (once : Prop) : Discipline String String BillingDb Unit where
  inv := Ordered mapping events customer tenant db₀ once
  onward := fun _ _ => True
  keeps := fun name w w' => name = "stripe-customer:" ++ customer → SameOrder customer tenant w w'
  met := fun id seen v => once → seen.length = 1 → (events id).customerId = some customer →
    Settled mapping events customer id v
  onward_refl := fun _ => trivial
  onward_trans := fun _ _ _ _ _ => trivial
  keeps_refl := fun _ _ _ => ⟨fun _ _ => Iff.rfl, rfl⟩
  keeps_trans := fun _ _ _ _ h h' hname =>
    ⟨fun id row => ((h hname).1 id row).trans ((h' hname).1 id row),
      (h' hname).2.trans (h hname).2⟩

variable {mapping events customer tenant db₀} {once : Prop}

/-- What the commit of a delivery writes. -/
structure Writes (events : String → StripeEvent) (id : String) (created : Instant) (t : Uuid)
    (plan : Plan) (db db' : BillingDb) : Prop where
  events : ∀ l, db'.events.get? l =
    if l = id then some ((db.events.get? id).getD ((events id).record created))
    else db.events.get? l
  billing : ∀ l, db'.billing.get? l = if l = t then
    some ⟨some plan.asStr, (db.billing.get? t).bind (·.stripeCustomerId)⟩ else db.billing.get? l

theorem writes_of_pending {id : String} {created : Instant} {t : Uuid} {plan : Plan}
    {db db' : BillingDb}
    (h : ((Except.ok db : Except Unrecorded BillingDb).bind fun s => (upsertBilling t
      ⟨some plan.asStr, none⟩ (fun row => { row with plan := some plan.asStr }) s).map
        Prod.snd).bind (fun s => (Except.ok ((), recordEvent id ((events id).record created) s) :
          Except Unrecorded (Unit × BillingDb)).map Prod.snd) = .ok db') :
    Writes events id created t plan db db' := by
  obtain ⟨mid, hmid, hrec⟩ := Except.bind_eq_ok.mp h
  obtain ⟨d, hd, hset⟩ := Except.bind_eq_ok.mp hmid
  cases hd
  obtain ⟨⟨r, mid'⟩, hupsert, hsnd⟩ := Except.map_eq_ok hset
  cases hsnd
  cases hrec
  obtain ⟨hevents, hbilling⟩ := setPlan_eq_ok hupsert
  refine ⟨fun l => ?_, fun l => ?_⟩
  · rw [recordEvent_events, hevents]
  · rw [recordEvent_billing, hbilling]

section Commit

variable {id : String} {created : Instant} {plan : Plan} {t : Uuid} {seen : List BillingDb}
  {w : State String BillingDb Unit} {a : BillingDb}

/-- The event is recorded once it has been written. -/
theorem Writes.recorded (hw : Writes events id created t plan w.db a) (h₀ : db₀.events.get? id = none)
    (h : Ordered mapping events customer tenant db₀ once w)
    (hcreated : fromTimestamp (events id).created = some created) :
    a.events.get? id = some ((events id).record created) := by
  rw [hw.events id, if_pos rfl]
  cases hrow : w.db.events.get? id with
  | none => rfl
  | some row =>
      -- a record made meanwhile is the same, since both are truthful
      rcases h.truthful id row hrow with hold | ⟨created', hcreated', rfl⟩
      · simp [h₀] at hold
      · obtain rfl : created' = created := Option.some.inj (hcreated'.symm.trans hcreated)
        rfl

theorem Writes.kept (hw : Writes events id created t plan w.db a) {l : String}
    {row : ProcessedEvent} (hrow : w.db.events.get? l = some row) :
    a.events.get? l = some row := by
  rw [hw.events l]
  split_ifs with hl
  · rw [← hl, hrow]
    rfl
  · exact hrow

/-- The records stay as the invariant says. -/
theorem Ordered.records (h : Ordered mapping events customer tenant db₀ once w)
    (h₀ : db₀.events.get? id = none)
    (hcreated : fromTimestamp (events id).created = some created)
    (hw : Writes events id created t plan w.db a) :
    (∀ l row, db₀.events.get? l = some row → a.events.get? l = some row) ∧
      (∀ l row, a.events.get? l = some row →
        db₀.events.get? l = some row ∨ Truthful events l row) ∧
      ∀ seen, ∀ e ∈ (w.commit id () seen a).log, (a.events.get? e.job).isSome := by
  refine ⟨fun l row hrow => hw.kept (h.kept l row hrow), fun l row hrow => ?_,
    fun seen e he => ?_⟩
  · by_cases hl : l = id
    · subst hl
      rw [hw.recorded h₀ h hcreated] at hrow
      cases hrow
      exact Or.inr ⟨created, hcreated, rfl⟩
    · rw [hw.events l, if_neg hl] at hrow
      exact h.truthful l row hrow
  · rcases List.mem_append.mp he with he | he
    · obtain ⟨row, hrow⟩ := Option.isSome_iff_exists.mp (h.logged e he)
      rw [hw.kept hrow]
      rfl
    · obtain rfl := List.mem_singleton.mp he
      change (a.events.get? id).isSome = true
      rw [hw.recorded h₀ h hcreated]
      rfl

/-- The commits stay applied once when the last one changes no plan. -/
theorem AppliedOnce.commit (h : AppliedOnce tenant w.log)
    (hlast : (∃ e ∈ w.log, e.job = id) → storedPlan tenant w.db = storedPlan tenant a) :
    AppliedOnce tenant (w.commit id () seen a).log := by
  refine List.pairwise_append.mpr ⟨h, List.pairwise_singleton _ _, fun first hfirst later hlater => ?_⟩
  obtain rfl := List.mem_singleton.mp hlater
  exact fun hjob => hlast ⟨first, hfirst, hjob⟩

/-- A delivery for another customer leaves the order alone. -/
theorem Ordered.commit_other (seen : List BillingDb)
    (h : Ordered mapping events customer tenant db₀ once w)
    (h₀ : db₀.events.get? id = none)
    (hcreated : fromTimestamp (events id).created = some created)
    (hw : Writes events id created t plan w.db a)
    (hcustomer : (events id).customerId ≠ some customer) (ht : tenant ≠ t) :
    Ordered mapping events customer tenant db₀ once (w.commit id () seen a) ∧
      SameOrder customer tenant w (w.commit id () seen a) := by
  have hbilling : a.billing.get? tenant = w.db.billing.get? tenant := by
    rw [hw.billing tenant, if_neg ht]
  have hrecorded : ∀ l row, Recorded customer l row w.db ↔ Recorded customer l row a := by
    refine fun l row => ⟨fun hr => ⟨hw.kept hr.get, hr.customer⟩, fun hr => ⟨?_, hr.customer⟩⟩
    by_cases hl : l = id
    · subst hl
      have hget := hr.get
      rw [hw.recorded h₀ h hcreated] at hget
      cases hget
      exact absurd hr.customer hcustomer
    · have hget := hr.get
      rwa [hw.events l, if_neg hl] at hget
  have hplan : storedPlan tenant a = storedPlan tenant w.db := by
    unfold storedPlan
    rw [hbilling]
  obtain ⟨hkept, htruthful, hlogged⟩ := h.records h₀ hcreated hw
  refine ⟨⟨?_, hkept, htruthful, ?_, hlogged seen, fun ho => ?_⟩, hrecorded, hbilling⟩
  · obtain ⟨row, hrow, hc⟩ := h.linked
    exact ⟨row, hbilling.trans hrow, hc⟩
  · rintro ⟨l, row, hr⟩
    obtain ⟨l', row', plan', hr', hmax, hplan', hstored⟩ :=
      h.follows ⟨l, row, (hrecorded l row).mpr hr⟩
    exact ⟨l', row', plan', (hrecorded l' row').mp hr',
      fun i r hi => hmax i r ((hrecorded i r).mpr hi), hplan', hplan.trans hstored⟩
  · exact (h.applied ho).commit fun _ => hplan.symm

/-- A delivery for the customer sets the plan of an event than which none is newer. -/
theorem Ordered.commit_same (h : Ordered mapping events customer tenant db₀ once w)
    (h₀ : db₀.events.get? id = none)
    (hcreated : fromTimestamp (events id).created = some created)
    (hw : Writes events id created tenant plan w.db a)
    (hcustomer : (events id).customerId = some customer)
    (hplan : (events id).plan mapping = some plan)
    (hnewest : ∀ id' row', Recorded customer id' row' w.db → row'.stripeCreated ≤ created)
    (hsettled : once → Settled mapping events customer id w.db) :
    Ordered mapping events customer tenant db₀ once (w.commit id () seen a) := by
  obtain ⟨hkept, htruthful, hlogged⟩ := h.records h₀ hcreated hw
  have hstored : storedPlan tenant a = some plan.asStr := by
    unfold storedPlan
    rw [hw.billing tenant, if_pos rfl]
    rfl
  refine ⟨?_, hkept, htruthful, fun _ => ?_, hlogged seen, fun ho => ?_⟩
  · obtain ⟨row, hrow, hc⟩ := h.linked
    refine ⟨_, by rw [State.commit, hw.billing tenant, if_pos rfl], ?_⟩
    rw [hrow]
    exact hc
  · refine ⟨id, (events id).record created, plan,
      ⟨hw.recorded h₀ h hcreated, hcustomer⟩, fun l row hr => ?_, hplan, hstored⟩
    by_cases hl : l = id
    · subst hl
      have hget := hr.get
      rw [State.commit, hw.recorded h₀ h hcreated] at hget
      cases hget
      exact le_refl _
    · have hget := hr.get
      rw [State.commit, hw.events l, if_neg hl] at hget
      exact hnewest l row ⟨hget, hr.customer⟩
  -- a duplicate finds its own record, and so the plan of its second, which is its own
  · refine (h.applied ho).commit fun ⟨e, he, hjob⟩ => ?_
    obtain ⟨row, hrow⟩ := Option.isSome_iff_exists.mp (hjob ▸ h.logged e he)
    have hrecord : row = (events id).record created := by
      have hget := hw.kept hrow
      rw [hw.recorded h₀ h hcreated] at hget
      exact (Option.some.inj hget).symm
    have hself : Recorded customer id row w.db := ⟨hrow, by rw [hrecord]; exact hcustomer⟩
    obtain ⟨id', row', plan', hr', hmax, hplan', hstored'⟩ := h.follows ⟨id, row, hself⟩
    have htie : row'.stripeCreated = created := by
      refine le_antisymm (hnewest id' row' hr') ?_
      have hle := hmax id row hself
      rw [hrecord] at hle
      exact hle
    rcases hsettled ho with hnone | hsecond
    · exact absurd hself (hnone row)
    · rcases hsecond created hcreated with ⟨i, r, hr, hlt⟩ | hsame
      · exact absurd hlt (not_lt.mpr (hnewest i r hr))
      · have hplans : some plan' = some plan := by
          rw [← hplan', ← hplan]
          exact hsame id' row' hr' htie
        cases hplans
        rw [hstored', hstored]

end Commit

/-- A delivery resolves its customer to the tenant exactly when it is the linked one. -/
theorem tenant_eq_iff {db : BillingDb} {t : Uuid} {c : String}
    (hlinked : Linked customer tenant db) (h : getByStripeCustomer c db = some t) :
    (c = customer → t = tenant) ∧ (c ≠ customer → tenant ≠ t) := by
  have hfound : Linked c t db := getByStripeCustomer_eq_some h
  constructor
  · rintro rfl
    exact hfound.unique hlinked
  · rintro hne rfl
    obtain ⟨row, hrow, hc⟩ := hfound
    obtain ⟨row', hrow', hc'⟩ := hlinked
    obtain rfl := Option.some.inj (hrow.symm.trans hrow')
    exact hne (Option.some.inj (hc.symm.trans hc'))

/-- Deliveries of subscription events keep the discipline. -/
theorem deliver_verified (hsub : ∀ id, (events id).eventType ∈ subscriptionTypes) :
    Verified (discipline mapping events customer tenant db₀ once) (deliver mapping events) := by
  intro id w hw
  have hfield : (events id).customerId = (events id).customerField := if_pos (hsub id)
  unfold deliver applyStripeEvent
  rw [applyEffect_of_subscription (hsub id)]
  simp only [Script.wp_bind, Script.wp_read]
  -- the check for duplicates, before the lock
  intro w₀ hw₀ v₀ hv₀ _
  cases hv₀
  split_ifs with hprocessed
  · trivial
  have h₀ : db₀.events.get? id = none := by
    cases hget : db₀.events.get? id with
    | none => rfl
    | some row =>
        have hkept := hw₀.inv.kept id row hget
        simp [isEventProcessed, hkept] at hprocessed
  simp only [Script.wp_bind, Script.wp_orFail]
  intro created hcreated
  rw [hfield]
  unfold orderForCustomer resolveTenantByCustomer
  cases hc : (events id).customerField with
  | none =>
      -- no customer, no tenant
      intro t ht
      cases ht
  | some c =>
      simp only [Script.wp_bind, Script.wp_acquire, Script.wp_read]
      -- the check for staleness, under the lock
      intro w₁ hw₁ w₂ hw₂ v₂ hv₂ hmet
      cases hv₂
      split_ifs with hstale
      · trivial
      have hfresh : isStaleForCustomer c created w₂.db = false := by simpa using hstale
      intro w₃ hw₃ v₃ hv₃ _ t ht plan hplan
      cases hv₃
      unfold setPlan recordProcessedEvent
      simp only [Script.wp_update]
      intro w₄ hw₄ v₄ hv₄ _ _ _ _ w₅ hw₅ v₅ hv₅ _ _ _ _ w₆ hw₆ a ha
      have hwrites := writes_of_pending ha
      -- the lock is held from the check for staleness to the commit
      have hrely := hw₃.trans (hw₄.trans (hw₅.trans hw₆))
      obtain ⟨hsame, hother⟩ := tenant_eq_iff hw₃.inv.linked ht
      by_cases hcustomer : c = customer
      · subst hcustomer
        obtain rfl := hsame rfl
        obtain ⟨hrecorded, -⟩ := hrely.keeps _ (List.mem_cons_self ..) rfl
        refine ⟨hw₆.inv.commit_same h₀ hcreated hwrites (hfield.trans hc) hplan
          (fun id' row' hr => ?_) (fun ho => ?_), trivial, fun name hname heq => ?_⟩
        · have hr₂ := (hrecorded id' row').mpr hr
          exact not_stale hfresh hr₂.get hr₂.customer
        · rcases hmet ho rfl (hfield.trans hc) with hnone | hsecond
          · exact Or.inl fun row hr => hnone row ((hrecorded id row).mpr hr)
          · refine Or.inr fun cr hcr => (hsecond cr hcr).imp ?_ ?_
            · rintro ⟨i, r, hr, hlt⟩
              exact ⟨i, r, (hrecorded i r).mp hr, hlt⟩
            · exact fun hall i r hr => hall i r ((hrecorded i r).mpr hr)
        · subst heq
          exact absurd (List.mem_cons_self ..) hname
      · obtain ⟨hinv, hkeeps⟩ := hw₆.inv.commit_other _ h₀ hcreated hwrites
          (fun heq => hcustomer (Option.some.inj ((hfield.trans hc).symm.trans heq)))
          (hother hcustomer)
        exact ⟨hinv, trivial, fun name _ _ => hkeeps⟩

/-- Nothing happens to the tables but by deliveries. -/
theorem deliveries_tame :
    Tame (discipline mapping events customer tenant db₀ once)
      (fun e : Empty => e.elim : Empty → BillingDb → BillingDb) :=
  fun e => e.elim

theorem ordered_init (hlinked : Linked customer tenant db₀)
    (hnone : ∀ id row, ¬ Recorded customer id row db₀) :
    Ordered mapping events customer tenant db₀ once ⟨db₀, []⟩ where
  linked := hlinked
  kept := fun _ _ h => h
  truthful := fun _ _ h => Or.inl h
  follows := fun ⟨id, row, h⟩ => absurd h (hnone id row)
  logged := fun _ h => by cases h
  applied := fun _ => List.Pairwise.nil

end Order

/-! ## Main results -/

/-- The delivery `x` commits, and its event is recorded by then. -/
def CommitsRecorded (x : Session String String BillingDb Unrecorded Unit) (s s' : Deliveries) :
    Prop :=
  x.script = .done () ∧
    ∃ after, s'.state = s.state.commit x.job () x.seen after ∧
      isEventProcessed x.job after = true

section Results

variable (mapping : StripePriceMapping) (events : String → StripeEvent) (customer : String)
  (tenant : Uuid) (db₀ : BillingDb)

/-- **The plan follows the newest event.** In every interleaving of deliveries of
subscription events the tenant's plan is that of a recorded event than which none of the
customer's is newer, and the tables change only when a delivery commits its record. -/
theorem plan_follows_newest (hsub : ∀ id, (events id).eventType ∈ subscriptionTypes)
    (hlinked : Linked customer tenant db₀) (hnone : ∀ id row, ¬ Recorded customer id row db₀)
    (is : List (Event String Empty)) (i : Event String Empty) :
    let s := Transition.run (Deliveries.next mapping events) (Server.init db₀) is
    let s' := Deliveries.next mapping events s i
    FollowsNewest mapping events customer tenant s.state.db ∧
      (s'.state = s.state ∨
        ∃ t x, i = .step t ∧ s.sessions.get? t = some x ∧ CommitsRecorded x s s') := by
  intro s s'
  have hverified : Verified (discipline mapping events customer tenant db₀ False)
      (deliver mapping events) := deliver_verified hsub
  have hsound : s.Sound (discipline mapping events customer tenant db₀ False) :=
    Server.sound_run hverified deliveries_tame (ordered_init hlinked hnone)
      (Server.stepsMeet (fun _ _ _ ho => ho.elim) _ is)
  refine ⟨hsound.inv.follows, ?_⟩
  rcases Server.step_state (deliver mapping events) (fun e : Empty => e.elim) s i with
    hkeep | ⟨t, x, r, a, hi, hx, hscript, -, hcommit⟩ | ⟨e, -, -⟩
  · exact Or.inl hkeep
  · have hsound' := Server.sound_step hverified deliveries_tame hsound
      (Server.meets (fun _ _ _ ho => ho.elim) s i)
    refine Or.inr ⟨t, x, hi, hx, hscript, a, hcommit, ?_⟩
    have hlogged := hsound'.inv.logged
    rw [hcommit] at hlogged
    exact hlogged _ (List.mem_append_right _ (List.mem_singleton.mpr rfl))
  · exact e.elim

/-- **An event is applied once**, in every interleaving in which no delivery comes to its
check for staleness with its event unsettled. -/
theorem applied_once (hsub : ∀ id, (events id).eventType ∈ subscriptionTypes)
    (hlinked : Linked customer tenant db₀) (hnone : ∀ id row, ¬ Recorded customer id row db₀)
    (is : List (Event String Empty))
    (hsettled : Transition.StepsMeet (Deliveries.next mapping events)
      (ChecksSettled mapping events customer) (Server.init db₀) is) :
    AppliedOnce tenant
      (Transition.run (Deliveries.next mapping events) (Server.init db₀) is).state.log := by
  have hverified : Verified (discipline mapping events customer tenant db₀ True)
      (deliver mapping events) := deliver_verified hsub
  have hmet : ∀ (s : Deliveries) (i : Event String Empty), ChecksSettled mapping events customer s i →
      s.Meets (discipline mapping events customer tenant db₀ True) i := by
    intro s i h
    cases i with
    | step t =>
        intro x hx hstatement v hv _ hlength hcustomer
        exact h x hx hstatement hlength hcustomer v hv
    | start t job => trivial
    | drop t => trivial
    | env e => trivial
  have hsound := Server.sound_run hverified deliveries_tame (ordered_init hlinked hnone)
    (hsettled.imp hmet)
  exact hsound.inv.applied trivial

end Results

/-! ## A second with two plans -/

/-- A subscription of the customer `cus_a` at the given price. -/
def subscriptionAt (price : String) : StripeEvent where
  eventType := "customer.subscription.updated"
  created := 1700000000
  object := .object
    [("customer", .string "cus_a"),
      ("items", .object [("data", .array [.object [("price", .object [("id", .string price)])]])])]

/-- `evt_f` buys the team plan, every other event the pro plan, all in one second. -/
def oneSecond (id : String) : StripeEvent :=
  subscriptionAt (if id = "evt_f" then "price_team" else "price_pro")

/-- The prices of the two plans. -/
def twoPrices : StripePriceMapping := ⟨some "price_pro", some "price_team"⟩

/-- One tenant, linked to `cus_a`. -/
def linkedTenant : BillingDb where
  tenants := [1]
  billing := ⟨OrderedMap.ofList [(1, ⟨none, some "cus_a"⟩)], by decide⟩
  events := OrderedMap.empty

theorem linkedTenant_linked : Linked "cus_a" 1 linkedTenant := ⟨⟨none, some "cus_a"⟩, rfl, rfl⟩

theorem linkedTenant_none (id : String) (row : ProcessedEvent) :
    ¬ Recorded "cus_a" id row linkedTenant := by
  intro h
  cases h.get

theorem oneSecond_subscription (id : String) :
    (oneSecond id).eventType ∈ subscriptionTypes := by
  change "customer.subscription.updated" ∈ subscriptionTypes
  decide

/-- Two deliveries of `evt_e` find it new; the first commits, then one of `evt_f`, and then
the second. -/
def duplicateOnTheWay : List (Event String Empty) :=
  [.start 0 "evt_e", .start 1 "evt_e", .step 0, .step 1] ++ Event.steps 0 6 ++
    [.start 2 "evt_f"] ++ Event.steps 2 7 ++ Event.steps 1 6

theorem plan_follows_newest_sameSecond :
    let s := Transition.run (Deliveries.next twoPrices oneSecond) (Server.init linkedTenant)
      duplicateOnTheWay
    storedPlan 1 s.state.db = some "pro" ∧
      FollowsNewest twoPrices oneSecond "cus_a" 1 s.state.db :=
  ⟨by decide, (plan_follows_newest twoPrices oneSecond "cus_a" 1 linkedTenant
    oneSecond_subscription linkedTenant_linked linkedTenant_none duplicateOnTheWay (.drop 0)).1⟩

theorem not_applied_once_sameSecond :
    Linked "cus_a" 1 linkedTenant ∧ (∀ id row, ¬ Recorded "cus_a" id row linkedTenant) ∧
      (∀ id, (oneSecond id).eventType ∈ subscriptionTypes) ∧
      ¬ AppliedOnce 1 (Transition.run (Deliveries.next twoPrices oneSecond)
        (Server.init linkedTenant) duplicateOnTheWay).state.log := by
  refine ⟨linkedTenant_linked, linkedTenant_none, oneSecond_subscription, ?_⟩
  unfold AppliedOnce
  decide

/-- With one plan for all events every delivery finds its event settled. -/
theorem checksSettled_onePlan (s : Deliveries) (i : Event String Empty) :
    ChecksSettled twoPrices (fun _ => subscriptionAt "price_pro") "cus_a" s i := by
  cases i with
  | step t => exact fun _ _ _ _ _ _ _ => Or.inr fun _ _ => Or.inr fun _ _ _ _ => rfl
  | start t job => trivial
  | drop t => trivial
  | env e => trivial

theorem applied_once_onePlan :
    let log := (Transition.run (Deliveries.next twoPrices fun _ => subscriptionAt "price_pro")
      (Server.init linkedTenant) duplicateOnTheWay).state.log
    log.map Entry.job = ["evt_e", "evt_f", "evt_e"] ∧ AppliedOnce 1 log :=
  ⟨by decide, applied_once twoPrices (fun _ => subscriptionAt "price_pro") "cus_a" 1
    linkedTenant (fun _ => oneSecond_subscription "evt_e") linkedTenant_linked linkedTenant_none
    duplicateOnTheWay (Transition.StepsMeet.of_forall checksSettled_onePlan _ _)⟩

end Yorishiro.Billing
