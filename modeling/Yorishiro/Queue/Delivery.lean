import Yorishiro.Queue.Capacity
import Yorishiro.Queue.Relay

/-!
# Deliveries of target-restricted workers

`perform_with_terminal_lifecycle` as a machine that takes one database transaction
at a time: admission, the deferral of a saturated delivery, its requeue, and the
`finish` after the work. A delivery is created when a relay hands a message to the
provider, and again whenever the provider delivers that message once more; it may
die between any two transactions.

A saturated delivery defers the lifecycle in one transaction and requeues the job
in another. In between, the lifecycle waits for the queue while its outbox row is
still published, and only this delivery will make the row unpublished again.
`not_stranded` says that every other order of the transactions, of duplicate
deliveries and of late acknowledgements is safe.
-/

set_option autoImplicit false

namespace Yorishiro.Queue

open Yorishiro.Lib Yorishiro.Lib.Transition

/-! ## One delivery -/

/-- Where a delivery stands in `perform_with_terminal_lifecycle`. A delivery that has
returned or died is `ended`. -/
inductive DeliveryPhase where
  | sent
  | saturated (attempt : Option Int)
  | deferred
  | working (attempt : Int)
  | ended
deriving DecidableEq

/-- A message in the hands of the provider or of a worker. -/
structure Delivery where
  lifecycleId : Uuid
  message : Message
  phase : DeliveryPhase
deriving DecidableEq

/-- `SATURATED`. -/
def saturatedError : String := "worker capacity saturated"

/-- What a transaction of a delivery depends on besides the database: the time, the
error of the handler if it fails, and the tag of the target unless one of the lookups
of `requeue` fails. -/
structure DeliveryInput where
  now : Instant
  work : Option String
  tag : Option String
deriving DecidableEq

/-- The job `requeue` records: the arguments again, with the lifecycle and the workspace
they belong to. -/
def requeueJob (d : Delivery) (tag : String) : Option Job :=
  (payloadWorkspaceId d.message.payload).map fun workspaceId =>
    { payload := Json.insert "workspace_id" (.string workspaceId.toString)
        (withLifecycleId d.message.payload d.lifecycleId)
      workerName := d.message.workerName
      queueName := some tag
      tags := some [tag] }

/-- The deferral of a saturated delivery. -/
def deferSaturated (t : Lifecycles) (id : Uuid) (attempt : Option Int) (now : Instant) :
    Except DbErr Lifecycles :=
  match attempt with
  | some k => deferAt t id k saturatedError now
  | none => defer t id none saturatedError now

/-- The status and the diagnostic `finish` records for the result of the work. -/
def finishOf : Option String → LifecycleStatus × Option String
  | none => (.completed, none)
  | some error => (.failed, some error)

/-- The next transaction of a delivery. -/
def Delivery.transact (db : QueueDb) (d : Delivery) (i : DeliveryInput) : QueueDb × DeliveryPhase :=
  match d.phase with
  | .sent =>
      match startAt db.lifecycles d.lifecycleId i.now with
      | .ok (.started k, t) | .ok (.recovered k, t) => ({ db with lifecycles := t }, .working k)
      | .ok (.saturated k, _) => (db, .saturated k)
      | .ok (.duplicate _, _) | .ok (.terminal, _) | .error _ => (db, .ended)
  | .saturated k =>
      match deferSaturated db.lifecycles d.lifecycleId k i.now with
      | .ok t => ({ db with lifecycles := t }, .deferred)
      | .error _ => (db, .ended)
  | .deferred =>
      -- the lookups come before the transaction; a failed one ends the delivery
      match i.tag.bind (requeueJob d) with
      | none => (db, .ended)
      | some job =>
          match recordLifecyclePayload db d.lifecycleId job with
          | .ok db' => (db', .ended)
          | .error _ => (db, .ended)
  | .working k =>
      match finish db.lifecycles d.lifecycleId (some k) (finishOf i.work).1 (finishOf i.work).2
          i.now with
      | .ok t => ({ db with lifecycles := t }, .ended)
      | .error _ => (db, .ended)
  | .ended => (db, .ended)

/-! ## All parties -/

/-- The relays and the database, the lifecycles of the workers modelled here, the
identifiers given to rows so far, and the deliveries. -/
structure DeliveryState where
  relay : RelayState
  handled : List Uuid
  recorded : List Uuid
  deliveries : List Delivery
deriving DecidableEq

/-- An empty queue. -/
def DeliveryState.empty : DeliveryState := ⟨.start QueueDb.empty, [], [], []⟩

/-- The database. -/
def DeliveryState.db (s : DeliveryState) : QueueDb := s.relay.db

/-- One transaction of one party. -/
inductive DeliveryLabel where
  | enqueue (e : Enqueue) (job : Job) (now : Instant)
  | relay (l : RelayLabel)
  | advance (p : Nat) (i : DeliveryInput)
  | heartbeat (p : Nat) (now : Instant)
  | redeliver (p : Nat)
  | die (p : Nat)
deriving DecidableEq

/-- The identifier a call gives to a new row. -/
def Op.recorded : Op → Option Uuid
  | .record e _ => some e.id
  | .recordQuery id _ _ => some id
  | _ => none

/-- A relay statement, or a call that concerns no lifecycle of these workers and gives
out no identifier twice. -/
def foreignLabel (s : DeliveryState) : RelayLabel → Bool
  | .call c =>
      c.op.lifecycle.all (fun id => !s.handled.contains id) &&
        c.op.recorded.all fun id => !s.recorded.contains id
  | _ => true

/-- The identifier a relay label gives to a new row. -/
def RelayLabel.recorded : RelayLabel → List Uuid
  | .call c => c.op.recorded.toList
  | _ => []

/-- The delivery a row becomes; a search embedding has no lifecycle and is not one. -/
def deliveryOf (row : PendingDispatch) : Option Delivery :=
  row.lifecycleId.map fun id => ⟨id, enqueuePending row, .sent⟩

/-- The state after a label; one that is not enabled changes nothing. -/
def deliveryStep (s : DeliveryState) : DeliveryLabel → DeliveryState
  | .enqueue e job now =>
      if s.recorded.contains e.id then s
      else
        { s with
          relay := relayStep s.relay (.call ⟨now, .record e job⟩)
          handled := e.id :: s.handled
          recorded := e.id :: s.recorded }
  | .relay l =>
      if foreignLabel s l then
        { s with
          relay := relayStep s.relay l
          recorded := l.recorded ++ s.recorded
          deliveries := s.deliveries ++ ((handedOver s.relay l).bind deliveryOf).toList }
      else s
  | .advance p i =>
      match s.deliveries[p]? with
      | some d =>
          { s with
            relay := { s.relay with db := (d.transact s.db i).1 }
            deliveries := s.deliveries.set p { d with phase := (d.transact s.db i).2 } }
      | none => s
  | .heartbeat p now =>
      match s.deliveries[p]? with
      | some ⟨id, _, .working k⟩ =>
          { s with relay := { s.relay with db := after s.db ⟨now, .renew id k⟩ } }
      | _ => s
  | .redeliver p =>
      match s.deliveries[p]? with
      | some d => { s with deliveries := s.deliveries ++ [{ d with phase := .sent }] }
      | none => s
  -- a worker that dies leaves the database as its last transaction left it
  | .die p =>
      match s.deliveries[p]? with
      | some d => { s with deliveries := s.deliveries.set p { d with phase := .ended } }
      | none => s

/-! ## Stranded jobs -/

/-- The lifecycle `id` waits for the queue: queued or retrying. -/
def waiting (db : QueueDb) (id : Uuid) : Bool := (db.lifecycles.get? id).any requeueable

/-- No job is stranded: when a lifecycle waits and every delivery of it has returned or
died, its outbox row is unpublished. -/
def NotStranded (s : DeliveryState) : Prop :=
  ∀ id ∈ s.handled, waiting s.db id = true →
    (∀ d ∈ s.deliveries, d.lifecycleId = id → d.phase = .ended) →
    ∀ l row, s.db.outbox.get? l = some row → row.lifecycleId = some id → row.publishedAt = none

/-- The phases in which a delivery has still to take or to requeue its job. -/
def DeliveryPhase.unfinished : DeliveryPhase → Bool
  | .sent | .saturated none | .deferred => true
  | _ => false

/-- A free slot, but no attempt number left for the claim. -/
def attemptsExhausted (t : Lifecycles) (id : Uuid) (now : Instant) : Bool :=
  (t.get? id).any fun row => !saturated t id row now && decide (i32Max < row.attempt + 1)

/-- The delivery a label ends by a failure: it dies, its claim has no attempt number left,
or a lookup of its requeue fails. -/
def failing (s : DeliveryState) : DeliveryLabel → Option Delivery
  | .die p => s.deliveries[p]?
  | .advance p i =>
      s.deliveries[p]?.filter fun d =>
        match d.phase with
        | .sent => attemptsExhausted s.db.lifecycles d.lifecycleId i.now
        | .deferred => (i.tag.bind (requeueJob d)).isNone
        | _ => false
  | _ => none

/-- No delivery fails while its lifecycle waits for it. -/
def failsOnlySettled (s : DeliveryState) (l : DeliveryLabel) : Bool :=
  (failing s l).all fun d => !(d.phase.unfinished && waiting s.db d.lifecycleId)

/-! ## Statements on a waiting row -/

section Waiting

variable {t t' : Lifecycles} {id : Uuid} {row : Lifecycle} {now : Instant}

theorem Lifecycle.clash_symm (a b : Lifecycle) : a.clash b = b.clash a := by
  simp only [Lifecycle.clash]
  grind

/-- A waiting row may be written as another active row of the same job. -/
theorem clash_of_active {a b c : Lifecycle} (ha : a.status.active = true)
    (hjob : b.jobName = a.jobName) (hspace : b.workspaceId = a.workspaceId)
    (hprovider : b.providerJobId = a.providerJobId ∨ b.providerJobId = none)
    (h : b.clash c = true) : a.clash c = true := by
  simp only [Lifecycle.clash, hjob, hspace] at h ⊢
  rcases hprovider with hp | hp
  all_goals
    rw [hp] at h
    grind

theorem active_of_requeueable (h : requeueable row = true) : row.status.active = true := by
  simp only [requeueable, Bool.or_eq_true, decide_eq_true_eq] at h
  rcases h with h | h
  all_goals
    rw [h]
    rfl

/-- The claim of a waiting row takes it. -/
theorem claim_eq_one {n : Nat} (hrow : t.get? id = some row) (hp : claimable false row = true)
    (h : claim t id false now = .ok (t', n)) : n = 1 := by
  unfold claim at h
  split_ifs at h
  rcases Table.updateRow_eq_ok h with ⟨-, -, -, hn, -⟩ | ⟨hany, -⟩
  · exact hn
  · rw [hrow, Option.any_some, hp] at hany
    cases hany

theorem admitDelivery_of_requeueable (hrow : t.get? id = some row)
    (hwait : requeueable row = true) :
    admitDelivery t id now = admitClaim t id row false now := by
  simp only [requeueable, Bool.or_eq_true, decide_eq_true_eq] at hwait
  rcases hwait with hs | hs
  · simp [admitDelivery, hrow, hs]
  · simp [admitDelivery, hrow, hs]

/-- A delivery of a waiting row is admitted or finds the capacity used up. -/
theorem startAt_of_requeueable {a : Admission} (hrow : t.get? id = some row)
    (hwait : requeueable row = true) (h : startAt t id now = .ok (a, t')) :
    a.granted ≠ none ∨ a = .saturated none := by
  obtain ⟨⟨a₁, t₁⟩, hadmit, hr⟩ := Except.bind_eq_ok.mp h
  have hclaimable : claimable false row = true := by
    simp only [requeueable, Bool.or_eq_true, decide_eq_true_eq] at hwait
    rcases hwait with hs | hs
    · simp [claimable, hs]
    · simp [claimable, hs]
  rw [admitDelivery_of_requeueable hrow hwait] at hadmit
  unfold admitClaim at hadmit
  by_cases hsat : saturated t id row now = true
  · rw [if_pos hsat] at hadmit
    cases hadmit
    cases hr
    exact Or.inr rfl
  · rw [if_neg hsat] at hadmit
    obtain ⟨⟨t₂, n⟩, hclaim, hres⟩ := Except.bind_eq_ok.mp hadmit
    have hn := claim_eq_one hrow hclaimable hclaim
    subst hn
    cases hres
    cases hr
    exact Or.inl (by simp [Admission.granted])

/-- A delivery of a waiting row fails only for want of attempt numbers. -/
theorem startAt_of_attempts (hrow : t.get? id = some row) (hwait : requeueable row = true)
    (hleft : attemptsExhausted t id now = false) : ∃ r, startAt t id now = .ok r := by
  suffices hadmit : ∃ r, admitClaim t id row false now = .ok r by
    obtain ⟨⟨a, t'⟩, hadmit⟩ := hadmit
    unfold startAt
    rw [admitDelivery_of_requeueable hrow hwait, hadmit]
    cases a <;> exact ⟨_, rfl⟩
  unfold admitClaim
  by_cases hsat : saturated t id row now = true
  · rw [if_pos hsat]
    exact ⟨_, rfl⟩
  · rw [if_neg hsat]
    have hroom : ¬ i32Max < row.attempt + 1 := by
      simpa [attemptsExhausted, hrow, hsat] using hleft
    obtain ⟨⟨t₁, n⟩, hu⟩ := Table.updateRow_total Lifecycle.clash_symm hrow
      (p := claimable false) (f := claimRow now)
      (fun other => clash_of_active (active_of_requeueable hwait) rfl rfl (Or.inl rfl))
    have hclaim : claim t id false now = .ok (t₁, n) := by
      unfold claim
      rw [if_neg]
      · exact hu
      · simp only [hrow, Option.any_some, Bool.and_eq_true, decide_eq_true_eq, not_and]
        exact fun _ => hroom
    rw [hclaim]
    change ∃ r, (if n = 1 then _ else _) = _
    split_ifs <;> exact ⟨_, rfl⟩

/-- A waiting row can be deferred. -/
theorem defer_of_requeueable (hrow : t.get? id = some row) (hwait : requeueable row = true)
    (error : String) (now : Instant) : ∃ t', defer t id none error now = .ok t' := by
  have hfilter : ∀ r : Lifecycle, deferFilter none r = requeueable r := by
    intro r
    simp only [deferFilter, requeueable]
    exact Bool.or_comm _ _
  obtain ⟨⟨t', n⟩, hu⟩ := Table.updateRow_total Lifecycle.clash_symm hrow
    (p := deferFilter none)
    (f := fun r => { r with
      status := .retrying, retryAt := some now, providerJobId := none, leaseUntil := none,
      error := some error })
    (fun other => clash_of_active (active_of_requeueable hwait) rfl rfl (Or.inr rfl))
  rcases Table.updateRow_eq_ok hu with ⟨-, -, -, hn, -⟩ | ⟨hany, -⟩
  · subst hn
    refine ⟨t', ?_⟩
    unfold defer
    rw [hu]
    rfl
  · rw [hrow, Option.any_some, hfilter, hwait] at hany
    cases hany

/-- A waiting job with an outbox row can be requeued. -/
theorem recordLifecyclePayload_of_requeueable {db : QueueDb}
    (hrow : db.lifecycles.get? id = some row) (hwait : requeueable row = true)
    (hdispatch : 0 < dispatches db id) (job : Job) :
    ∃ db', recordLifecyclePayload db id job = .ok db' := by
  obtain ⟨⟨ls, n⟩, hu⟩ := Table.updateRow_total Lifecycle.clash_symm hrow
    (p := requeueable) (f := fun r => { r with status := .queued, attempt := 0 })
    (fun other => clash_of_active (active_of_requeueable hwait) rfl rfl (Or.inl rfl))
  rcases Table.updateRow_eq_ok hu with ⟨-, -, -, hn, -⟩ | ⟨hany, -⟩
  · subst hn
    obtain ⟨os, ho⟩ := Table.updateWhere_of_no_clash (fun _ _ => rfl)
      (fun _ (d : Dispatch) => decide (d.lifecycleId = some id))
      (requeueDispatch { job with payload := withLifecycleId job.payload id }) db.outbox
    have hpos : dispatches db id ≠ 0 := by omega
    refine ⟨⟨ls, os⟩, ?_⟩
    unfold recordLifecyclePayload
    rw [hu]
    show (db.outbox.updateWhere _ _ >>= _) = _
    rw [ho]
    exact if_neg hpos
  · rw [hrow, Option.any_some, hwait] at hany
    cases hany

end Waiting

/-! ## Rows and calls -/

/-- A row that a call adds to the outbox stands under the identifier the call gives out,
and names no lifecycle but that one. -/
theorem dispatch_inserted {db : QueueDb} {c : Call} {l : Uuid} {d : Dispatch}
    (hnone : db.outbox.get? l = none) (h : (after db c).outbox.get? l = some d) :
    c.op.recorded = some l ∧ (d.lifecycleId = some l ∨ d.lifecycleId = none) := by
  have hchange := dispatchChange db c l
  rw [hnone, h] at hchange
  cases hchange with
  | record e job hop hl =>
      subst hl
      exact ⟨by rw [hop]; rfl, Or.inl rfl⟩
  | recordQuery deadlineAt job hop => exact ⟨by rw [hop]; rfl, Or.inr rfl⟩

/-- A call never moves an outbox row to another lifecycle. -/
theorem dispatch_lifecycleId_after {db : QueueDb} {c : Call} {l : Uuid} {d d' : Dispatch}
    (hd : db.outbox.get? l = some d) (hd' : (after db c).outbox.get? l = some d') :
    d'.lifecycleId = d.lifecycleId := by
  have heff := dispatchEffect db c l
  rw [hd, hd'] at heff
  cases heff with
  | same => rfl
  | claim => rfl
  | publish => rfl
  | requeue => rfl

/-- A call directed elsewhere leaves a lifecycle waiting or not. -/
theorem waiting_of_after {db : QueueDb} {c : Call} {id : Uuid} (hne : c.op.lifecycle ≠ some id)
    (h : waiting (after db c) id = true) : waiting db id = true := by
  cases hrow : db.lifecycles.get? id with
  | some row =>
      obtain ⟨row', hrow', hstatus, -⟩ := after_keeps_of_lifecycle_ne hrow hne
      simp only [waiting, hrow, hrow', Option.any_some, requeueable, hstatus] at h ⊢
      exact h
  | none =>
      exfalso
      have hwrite := rowWrite db c id
      rw [hrow] at hwrite
      generalize hafter : (after db c).lifecycles.get? id = now at hwrite
      cases hwrite with
      | same => simp [waiting, hafter] at h
      -- a new row stands under the lifecycle its call is directed at
      | insert e job hop =>
          cases hexec : exec db c with
          | error err =>
              rw [after_of_error hexec, hrow] at hafter
              cases hafter
          | ok r =>
              obtain ⟨db', reply⟩ := r
              obtain ⟨time, op⟩ := c
              cases hop
              obtain ⟨d₁, hd, hr⟩ := Except.map_eq_ok hexec
              cases hr
              obtain ⟨-, -, hrep, -⟩ := recordInTransaction_eq_ok hd
              rw [after_of_ok hexec, hrep.get?_ne (fun heq => hne (by rw [heq]; rfl)), hrow] at hafter
              cases hafter

/-! ## The transaction of a delivery as a queue call -/

/-- The queue call of the next transaction of a delivery. -/
def Delivery.callOf (d : Delivery) (i : DeliveryInput) : Option Call :=
  match d.phase with
  | .sent => some ⟨i.now, .start d.lifecycleId⟩
  | .saturated (some k) => some ⟨i.now, .deferAt d.lifecycleId k saturatedError⟩
  | .saturated none => some ⟨i.now, .defer d.lifecycleId none saturatedError⟩
  | .deferred => (i.tag.bind (requeueJob d)).map fun job => ⟨i.now, .requeue d.lifecycleId job⟩
  | .working k =>
      some ⟨i.now, .finish d.lifecycleId k (finishOf i.work).1 (finishOf i.work).2⟩
  | .ended => none

theorem transact_db (db : QueueDb) (d : Delivery) (i : DeliveryInput) :
    (d.transact db i).1 = ((d.callOf i).map (after db)).getD db := by
  obtain ⟨id, message, phase⟩ := d
  cases phase with
  | sent =>
      simp only [Delivery.transact, Delivery.callOf, Option.map_some, Option.getD_some]
      cases hstart : startAt db.lifecycles id i.now with
      | error e => simp [after, exec, hstart, Except.map]
      | ok r =>
          obtain ⟨a, t⟩ := r
          -- only an admission commits, so the other outcomes leave the table they found
          rcases startAt_eq_ok hstart with ⟨row, hrow, hg, -⟩ | ⟨hg, ht⟩
          · cases a with
            | started k => simp [after, exec, hstart, Except.map]
            | recovered k => simp [after, exec, hstart, Except.map]
            | duplicate k => cases hg
            | saturated k => cases hg
            | terminal => cases hg
          · subst ht
            cases a with
            | started k => cases hg
            | recovered k => cases hg
            | duplicate k => simp [after, exec, hstart, Except.map]
            | saturated k => simp [after, exec, hstart, Except.map]
            | terminal => simp [after, exec, hstart, Except.map]
  | saturated k =>
      cases k with
      | none =>
          simp only [Delivery.transact, Delivery.callOf, deferSaturated, Option.map_some,
            Option.getD_some]
          cases hdefer : defer db.lifecycles id none saturatedError i.now with
          | error e => simp [after, exec, hdefer, Except.map]
          | ok t => simp [after, exec, hdefer, Except.map]
      | some k =>
          simp only [Delivery.transact, Delivery.callOf, deferSaturated, Option.map_some,
            Option.getD_some]
          cases hdefer : deferAt db.lifecycles id k saturatedError i.now with
          | error e => simp [after, exec, hdefer, Except.map]
          | ok t => simp [after, exec, hdefer, Except.map]
  | deferred =>
      simp only [Delivery.transact, Delivery.callOf]
      cases hjob : i.tag.bind (requeueJob ⟨id, message, .deferred⟩) with
      | none => rfl
      | some job =>
          simp only [Option.map_some, Option.getD_some]
          cases hreq : recordLifecyclePayload db id job with
          | error e => simp [after, exec, hreq, Except.map]
          | ok db' => simp [after, exec, hreq, Except.map]
  | working k =>
      simp only [Delivery.transact, Delivery.callOf, Option.map_some, Option.getD_some]
      cases hfin : finish db.lifecycles id (some k) (finishOf i.work).1 (finishOf i.work).2 i.now with
      | error e => simp [after, exec, hfin, Except.map]
      | ok t => simp [after, exec, hfin, Except.map]
  | ended => rfl

theorem callOf_lifecycle {d : Delivery} {i : DeliveryInput} {c : Call} (h : d.callOf i = some c) :
    c.op.lifecycle = some d.lifecycleId ∧ c.op.recorded = none ∧ c.op.ofRelay = false := by
  obtain ⟨id, message, phase⟩ := d
  cases phase with
  | sent => cases h; exact ⟨rfl, rfl, rfl⟩
  | saturated k => cases k <;> cases h <;> exact ⟨rfl, rfl, rfl⟩
  | deferred =>
      obtain ⟨job, -, rfl⟩ := Option.map_eq_some_iff.mp h
      exact ⟨rfl, rfl, rfl⟩
  | working k => cases h; exact ⟨rfl, rfl, rfl⟩
  | ended => cases h

/-! ## Rows, tasks and identifiers -/

theorem mem_of_mapM_eq_some {α β : Type} {f : α → Option β} {xs : List α} {ys : List β} {y : β}
    (h : xs.mapM f = some ys) (hy : y ∈ ys) : ∃ x ∈ xs, f x = some y := by
  induction xs generalizing ys with
  | nil =>
      simp only [List.mapM_nil, Option.pure_def, Option.some.injEq] at h
      subst h
      cases hy
  | cons x xs ih =>
      simp only [List.mapM_cons, Option.pure_def, Option.bind_eq_bind, Option.bind_eq_some_iff,
        Option.some.injEq] at h
      obtain ⟨z, hz, zs, hzs, rfl⟩ := h
      rcases List.mem_cons.mp hy with rfl | hmem
      · exact ⟨x, List.mem_cons_self, hz⟩
      · obtain ⟨x', hx', hfx'⟩ := ih hzs hmem
        exact ⟨x', List.mem_cons_of_mem _ hx', hfx'⟩

/-- A scan returns stored rows, with the lifecycles and the payloads they are stored with. -/
theorem mem_due {db : QueueDb} {now : CurrentTimestamp} {rows : List PendingDispatch}
    {row : PendingDispatch} (h : due db now = some rows) (hmem : row ∈ rows) :
    ∃ d, db.outbox.get? row.id = some d ∧ d.lifecycleId = row.lifecycleId ∧
      d.payload = row.payload := by
  obtain ⟨e, he, hrow⟩ := mem_of_mapM_eq_some h hmem
  obtain ⟨tags, -, rfl⟩ := Option.map_eq_some_iff.mp hrow
  have hentry : e ∈ db.outbox.rows.entries := (List.mem_filter.mp (List.mem_of_mem_take he)).1
  exact ⟨e.2, (db.outbox.rows.mem_entries_iff e.1 e.2).mp hentry, rfl, rfl⟩

theorem relayCallOf_recorded {s : RelayState} {l : RelayLabel} {c : Call} {id : Uuid}
    (h : s.callOf l = some c) (hid : c.op.recorded = some id) : id ∈ l.recorded := by
  cases l with
  | call c' =>
      simp only [RelayState.callOf] at h
      split_ifs at h
      cases h
      simp [RelayLabel.recorded, hid]
  | claim i token leaseSeconds relayNow now =>
      simp only [RelayState.callOf] at h
      split at h
      · split_ifs at h
        cases h
        cases hid
      · cases h
  | publish i relayNow provider =>
      simp only [RelayState.callOf] at h
      split at h
      · split_ifs at h
        cases h
        cases hid
      · cases h
  | acknowledge i now =>
      simp only [RelayState.callOf] at h
      split at h
      · cases h
        cases hid
      · cases h
  | scan now => cases h
  | stop i => cases h

/-- An outbox row after a step was there before, for the same lifecycle, or the label
gave its identifier out. -/
theorem relayStep_row {s : RelayState} {l : RelayLabel} {k : Uuid} {d' : Dispatch}
    (h : (relayStep s l).db.outbox.get? k = some d') :
    (∃ d, s.db.outbox.get? k = some d ∧ d'.lifecycleId = d.lifecycleId) ∨
      (k ∈ l.recorded ∧ (d'.lifecycleId = some k ∨ d'.lifecycleId = none)) := by
  rw [relayStep_db] at h
  cases hcall : s.callOf l with
  | none =>
      rw [hcall] at h
      exact Or.inl ⟨d', h, rfl⟩
  | some c =>
      simp only [hcall, Option.map_some, Option.getD_some] at h
      cases hd : s.db.outbox.get? k with
      | some d => exact Or.inl ⟨d, rfl, dispatch_lifecycleId_after hd h⟩
      | none =>
          obtain ⟨hrec, hlife⟩ := dispatch_inserted hd h
          exact Or.inr ⟨relayCallOf_recorded hcall hrec, hlife⟩

/-- Every row and every row in the hands of a relay stands under an identifier that was
given out; a row names no lifecycle but its own, and the relays know which. -/
structure RowsKnown (s : RelayState) (recorded : List Uuid) : Prop where
  drawn : TokensDrawn s
  rows : ∀ l d, s.db.outbox.get? l = some d →
    l ∈ recorded ∧ ∀ id, d.lifecycleId = some id → id = l
  tasks : ∀ task ∈ s.tasks, task.row.id ∈ recorded ∧
    ∀ d, s.db.outbox.get? task.row.id = some d → d.lifecycleId = task.row.lifecycleId

theorem rowsKnown_step {s : RelayState} {recorded : List Uuid} {l : RelayLabel}
    (h : RowsKnown s recorded) (hfresh : ∀ id ∈ l.recorded, id ∉ recorded) :
    RowsKnown (relayStep s l) (l.recorded ++ recorded) := by
  -- a task of a known row keeps it: a row inserted now stands under a new identifier
  have hkept : ∀ task ∈ s.tasks, task.row.id ∈ l.recorded ++ recorded ∧
      ∀ d, (relayStep s l).db.outbox.get? task.row.id = some d →
        d.lifecycleId = task.row.lifecycleId := by
    intro task hmem
    obtain ⟨hid, hlife⟩ := h.tasks task hmem
    refine ⟨List.mem_append_right _ hid, fun d hd => ?_⟩
    rcases relayStep_row hd with ⟨d₀, hd₀, hsame⟩ | ⟨hnew, -⟩
    · exact hsame.trans (hlife d₀ hd₀)
    · exact absurd hid (hfresh _ hnew)
  refine ⟨tokensDrawn_step h.drawn l, ?_, ?_⟩
  · intro k d' hd'
    rcases relayStep_row hd' with ⟨d, hd, hsame⟩ | ⟨hnew, hlife⟩
    · refine ⟨List.mem_append_right _ (h.rows k d hd).1, fun id hid => ?_⟩
      exact (h.rows k d hd).2 id (hsame.symm.trans hid)
    · refine ⟨List.mem_append_left _ hnew, fun id hid => ?_⟩
      rcases hlife with hlife | hlife
      · exact Option.some.inj (hid.symm.trans hlife)
      · rw [hlife] at hid
        cases hid
  · intro task hmem
    cases taskOrigin hmem with
    | kept hold => exact hkept task hold
    | scanned now rows hlabel hdue hrow =>
        subst hlabel
        obtain ⟨d, hd, hlife, -⟩ := mem_due hdue hrow
        refine ⟨List.mem_append_right _ (h.rows _ d hd).1, fun d' hd' => ?_⟩
        rcases relayStep_row hd' with ⟨d₀, hd₀, hsame⟩ | ⟨hnew, -⟩
        · obtain rfl : d = d₀ := Option.some.inj (hd.symm.trans hd₀)
          exact hsame.trans hlife
        · cases hnew
    | stopped old hold hrow => rw [hrow]; exact hkept old hold
    | claimed i token leaseSeconds relayNow now db _ hfound =>
        exact hkept ⟨task.row, .scanned⟩ (List.mem_of_getElem? hfound)
    | handed i relayNow token provider _ hfound =>
        exact hkept ⟨task.row, .claimed token⟩ (List.mem_of_getElem? hfound)

/-! ## Exposed jobs -/

/-- The job of `id` counts as published, or will as soon as a relay acknowledges. -/
def Exposed (s : RelayState) (id : Uuid) : Prop :=
  (∃ l d, s.db.outbox.get? l = some d ∧ d.lifecycleId = some id ∧ d.publishedAt ≠ none) ∨
    ∃ task ∈ s.tasks, ∃ token provider d, task.phase = .handed token provider ∧
      s.db.outbox.get? task.row.id = some d ∧ d.lifecycleId = some id ∧
      d.claimToken = some token.toString

/-- An exposed job has an outbox row. -/
theorem Exposed.exists_row {s : RelayState} {id : Uuid} (h : Exposed s id) :
    ∃ l d, s.db.outbox.get? l = some d ∧ d.lifecycleId = some id := by
  rcases h with ⟨l, d, hd, hlife, -⟩ | ⟨task, -, -, -, d, -, hd, hlife, -⟩
  · exact ⟨l, d, hd, hlife⟩
  · exact ⟨task.row.id, d, hd, hlife⟩

theorem not_exposed_of_fresh {s : RelayState} {recorded : List Uuid} {id : Uuid}
    (h : RowsKnown s recorded) (hfresh : id ∉ recorded) : ¬ Exposed s id := by
  intro hexp
  obtain ⟨l, d, hd, hlife⟩ := hexp.exists_row
  obtain ⟨hrec, hown⟩ := h.rows l d hd
  rw [hown id hlife] at hfresh
  exact hfresh hrec

/-- The acknowledgement of a label comes from a task that has handed its row over. -/
theorem callOf_acknowledge {s : RelayState} {l : RelayLabel} {c : Call} {id token : Uuid}
    {provider : String} (h : s.callOf l = some c) (hop : c.op = .acknowledge id token provider) :
    ∃ task ∈ s.tasks, task.row.id = id ∧ task.phase = .handed token provider := by
  cases l with
  | acknowledge i now =>
      simp only [RelayState.callOf] at h
      split at h
      · next row token' provider' hfound =>
        cases h
        cases hop
        exact ⟨_, List.mem_of_getElem? hfound, rfl, rfl⟩
      · cases h
  | call c' =>
      simp only [RelayState.callOf] at h
      split_ifs at h with hrelay
      cases h
      rw [hop] at hrelay
      exact absurd rfl hrelay
  | claim i token' leaseSeconds relayNow now =>
      simp only [RelayState.callOf] at h
      split at h
      · split_ifs at h
        cases h
        cases hop
      · cases h
  | publish i relayNow provider' =>
      simp only [RelayState.callOf] at h
      split at h
      · split_ifs at h
        cases h
        cases hop
      · cases h
  | scan now => cases h
  | stop i => cases h

/-- A row that is published after a step was published before, or is acknowledged for a
task that has handed it over. -/
theorem exposed_of_published {s : RelayState} {l : RelayLabel} {k id : Uuid} {d : Dispatch}
    (hd : (relayStep s l).db.outbox.get? k = some d) (hlife : d.lifecycleId = some id)
    (hpub : d.publishedAt ≠ none) : Exposed s id := by
  rw [relayStep_db] at hd
  cases hcall : s.callOf l with
  | none =>
      rw [hcall] at hd
      exact Or.inl ⟨k, d, hd, hlife, hpub⟩
  | some c =>
      simp only [hcall, Option.map_some, Option.getD_some] at hd
      have heff := dispatchEffect s.db c k
      rw [hd] at heff
      generalize hbefore : s.db.outbox.get? k = before at heff
      cases heff with
      | same => exact Or.inl ⟨k, d, hbefore, hlife, hpub⟩
      | insert _ _ hnone => exact absurd hnone hpub
      | claim d₀ => exact Or.inl ⟨k, d₀, hbefore, hlife, hpub⟩
      | publish d₀ token provider hop hheld =>
          obtain ⟨task, hmem, rfl, hphase⟩ := callOf_acknowledge hcall hop
          exact Or.inr ⟨task, hmem, token, provider, d₀, hphase, hbefore, hlife,
            (acknowledgeable_iff.mp hheld).1⟩
      | requeue => exact absurd rfl hpub

/-- **What a step exposes.** Only a row that is handed over. -/
theorem exposed_relayStep {s : RelayState} {recorded : List Uuid} {l : RelayLabel} {id : Uuid}
    (h : RowsKnown s recorded) (hexp : Exposed (relayStep s l) id) :
    Exposed s id ∨ ∃ row, handedOver s l = some row ∧ row.lifecycleId = some id := by
  rcases hexp with ⟨k, d, hd, hlife, hpub⟩ | ⟨task, hmem, token, provider, d, hphase, hd, hlife, hclaim⟩
  · exact Or.inl (exposed_of_published hd hlife hpub)
  · have htoken : task.phase.token? = some token := by rw [hphase]; rfl
    cases taskOrigin hmem with
    | kept hold =>
        have hbefore := outbox_get?_of_drawn (h.drawn task hold token htoken) hd hclaim
        exact Or.inl (Or.inr ⟨task, hold, token, provider, d, hphase, hbefore, hlife, hclaim⟩)
    | scanned _ _ _ _ _ hscan => rw [hscan] at hphase; cases hphase
    | stopped _ _ _ hstop => rw [hstop] at hphase; cases hphase
    | claimed _ _ _ _ _ _ _ _ _ _ hnew => rw [hnew] at hphase; cases hphase
    | handed i relayNow t provider' _ hfound hover hnew =>
        rw [hnew] at hphase
        cases hphase
        have hold := List.mem_of_getElem? hfound
        have hbefore := outbox_get?_of_drawn (h.drawn _ hold token rfl) hd hclaim
        exact Or.inr ⟨task.row, hover, ((h.tasks _ hold).2 d hbefore).symm.trans hlife⟩

/-! ## The invariant -/

/-- Some delivery has still to take or to requeue the job of `id`. -/
def Covered (s : DeliveryState) (id : Uuid) : Prop :=
  ∃ d ∈ s.deliveries, d.lifecycleId = id ∧ d.phase.unfinished = true

/-- **The invariant.** A job that waits although it is published, or about to count as
published, is covered by a delivery. -/
structure DeliveryInv (s : DeliveryState) : Prop where
  known : RowsKnown s.relay s.recorded
  covered : ∀ id ∈ s.handled, waiting s.db id = true → Exposed s.relay id → Covered s id

/-- A delivery other than the one that is moved stays in the list. -/
theorem mem_set_of_ne {α : Type} {xs : List α} {p : Nat} {x y z : α} (hp : xs[p]? = some x)
    (hy : y ∈ xs) (hne : y ≠ x) : y ∈ xs.set p z := by
  obtain ⟨q, hq⟩ := List.mem_iff_getElem?.mp hy
  have hqp : p ≠ q := by
    rintro rfl
    exact hne (Option.some.inj (hq.symm.trans hp))
  apply List.mem_of_getElem? (i := q)
  rw [List.getElem?_set_ne hqp]
  exact hq

theorem mem_set_self {α : Type} {xs : List α} {p : Nat} {x z : α} (hp : xs[p]? = some x) :
    z ∈ xs.set p z := by
  obtain ⟨hlt, -⟩ := List.getElem?_eq_some_iff.mp hp
  exact List.mem_set hlt z

/-- The move of a delivery of one lifecycle keeps the others covered. -/
theorem Covered.set_of_ne {s : DeliveryState} {id : Uuid} {p : Nat} {d : Delivery}
    {phase : DeliveryPhase} {relay : RelayState} (h : Covered s id)
    (hp : s.deliveries[p]? = some d)
    (hne : d.lifecycleId = id → d.phase.unfinished = true → False) :
    Covered { s with
      relay := relay, deliveries := s.deliveries.set p { d with phase := phase } } id := by
  obtain ⟨d', hmem, hid, hphase⟩ := h
  refine ⟨d', mem_set_of_ne hp hmem ?_, hid, hphase⟩
  rintro rfl
  exact hne hid hphase

theorem waiting_iff {db : QueueDb} {id : Uuid} :
    waiting db id = true ↔ ∃ row, db.lifecycles.get? id = some row ∧ requeueable row = true := by
  simp only [waiting]
  cases db.lifecycles.get? id with
  | none => simp
  | some row => simp

/-! ## The transaction of one delivery -/

/-- An admission was refused for want of capacity if the job still waits after it. -/
theorem saturated_of_waiting {db : QueueDb} {id : Uuid} {now : Instant} {a : Admission}
    {t : Lifecycles} (hstart : startAt db.lifecycles id now = .ok (a, t))
    (hwait : waiting { db with lifecycles := t } id = true) : a = .saturated none := by
  obtain ⟨row', hrow', hreq'⟩ := waiting_iff.mp hwait
  rcases startAt_eq_ok hstart with ⟨row, hrow, -, -, -, hrep⟩ | ⟨hg, rfl⟩
  -- an admitted row runs
  · rw [hrep.get?_self] at hrow'
    cases hrow'
    simp [requeueable, claimRow] at hreq'
  · exact (startAt_of_requeueable hrow' hreq' hstart).resolve_left (not_not_intro hg)

/-- A finished row is completed or failed. -/
theorem not_waiting_of_finish {db : QueueDb} {id : Uuid} {k : Int} {work : Option String} {now : Instant}
    {t : Lifecycles}
    (h : finish db.lifecycles id (some k) (finishOf work).1 (finishOf work).2 now = .ok t) :
    waiting { db with lifecycles := t } id = false := by
  rw [← Bool.not_eq_true]
  intro hwait
  obtain ⟨row, hrow, -, hrep⟩ := finish_eq_ok h
  obtain ⟨row', hrow', hq⟩ := waiting_iff.mp hwait
  rw [hrep.get?_self] at hrow'
  cases hrow'
  cases hw : work <;> simp [requeueable, finishOf, hw] at hq

/-- A requeue leaves every row of the job unpublished and unclaimed. -/
theorem not_exposed_of_requeue {s : RelayState} {db' : QueueDb} {id : Uuid} {job : Job}
    (h : recordLifecyclePayload s.db id job = .ok db') : ¬ Exposed { s with db := db' } id := by
  intro hexp
  obtain ⟨-, -, -, -, -, hrows⟩ := recordLifecyclePayload_eq_ok h
  have hreset : ∀ l d, db'.outbox.get? l = some d → d.lifecycleId = some id →
      d.publishedAt = none ∧ d.claimToken = none := by
    intro l d hd hlife
    rw [hrows l] at hd
    obtain ⟨d₀, hd₀, hmap⟩ := Option.map_eq_some_iff.mp hd
    split_ifs at hmap with hl
    · subst hmap
      exact ⟨rfl, rfl⟩
    · subst hmap
      exact absurd hlife hl
  rcases hexp with ⟨l, d, hd, hlife, hpub⟩ | ⟨task, -, token, _, d, -, hd, hlife, hclaim⟩
  · exact hpub (hreset l d hd hlife).1
  · rw [(hreset _ d hd hlife).2] at hclaim
    cases hclaim

/-- An exposed job that waits has an outbox row, and can be requeued. -/
theorem requeue_of_exposed {s : RelayState} {id : Uuid} (hwait : waiting s.db id = true)
    (hexp : Exposed s id) (job : Job) : ∃ db', recordLifecyclePayload s.db id job = .ok db' := by
  obtain ⟨row, hrow, hq⟩ := waiting_iff.mp hwait
  have hdispatch : 0 < dispatches s.db id := by
    obtain ⟨l, d, hd, hlife⟩ := hexp.exists_row
    rw [dispatches, Table.count, ← OrderedMap.length_selected]
    apply List.length_pos_of_mem (a := l)
    exact OrderedMap.mem_selected.mpr ⟨d, hd, by simp [hlife]⟩
  exact recordLifecyclePayload_of_requeueable hrow hq hdispatch job

/-- **One delivery.** After a transaction of a delivery of `d.lifecycleId` that is not a
failure, the lifecycle does not wait, or none of its rows is exposed, or the delivery
has still work to do, or nothing has changed for a delivery that had none. -/
theorem transact_covers {s : DeliveryState} {d : Delivery} {i : DeliveryInput}
    (hfail : waiting s.db d.lifecycleId = true →
      (d.phase = .sent → attemptsExhausted s.db.lifecycles d.lifecycleId i.now = false) ∧
      (d.phase = .deferred → (i.tag.bind (requeueJob d)).isSome = true))
    (hwait : waiting (d.transact s.db i).1 d.lifecycleId = true)
    (hexp : Exposed { s.relay with db := (d.transact s.db i).1 } d.lifecycleId) :
    (d.transact s.db i).2.unfinished = true ∨
      ((d.transact s.db i).1 = s.db ∧ d.phase.unfinished = false) := by
  obtain ⟨id, message, phase⟩ := d
  cases phase with
  | sent =>
      simp only [Delivery.transact] at hwait hexp ⊢
      cases hstart : startAt s.db.lifecycles id i.now with
      | error e =>
          simp only [hstart] at hwait
          obtain ⟨row, hrow, hreq⟩ := waiting_iff.mp hwait
          obtain ⟨r, hok⟩ := startAt_of_attempts hrow hreq ((hfail hwait).1 rfl)
          rw [hok] at hstart
          cases hstart
      | ok r =>
          obtain ⟨a, t⟩ := r
          -- a refused delivery leaves the database as it was, and so does its answer
          have hsaturated : a = .saturated none := by
            apply saturated_of_waiting hstart
            rcases startAt_eq_ok hstart with ⟨_, -, hg, -⟩ | ⟨hg, rfl⟩
            · cases a with
              | started k => simpa only [hstart] using hwait
              | recovered k => simpa only [hstart] using hwait
              | duplicate k => cases hg
              | saturated k => cases hg
              | terminal => cases hg
            · cases a with
              | started k => cases hg
              | recovered k => cases hg
              | duplicate k => simpa only [hstart] using hwait
              | saturated k => simpa only [hstart] using hwait
              | terminal => simpa only [hstart] using hwait
          subst hsaturated
          exact Or.inl rfl
  | saturated k =>
      simp only [Delivery.transact] at hwait hexp ⊢
      cases hdefer : deferSaturated s.db.lifecycles id k i.now with
      | ok t => exact Or.inl rfl
      | error e =>
          simp only [hdefer] at hwait ⊢
          cases k with
          | some k => exact Or.inr ⟨trivial, rfl⟩
          -- a deferral without attempt number of a row that waits does not fail
          | none =>
              obtain ⟨row, hrow, hreq⟩ := waiting_iff.mp hwait
              obtain ⟨t, ht⟩ := defer_of_requeueable hrow hreq saturatedError i.now
              simp only [deferSaturated, ht] at hdefer
              cases hdefer
  | deferred =>
      exfalso
      simp only [Delivery.transact] at hwait hexp
      cases hjob : i.tag.bind (requeueJob ⟨id, message, .deferred⟩) with
      | none =>
          simp only [hjob] at hwait
          have hsome := (hfail hwait).2 rfl
          rw [hjob] at hsome
          cases hsome
      | some job =>
          simp only [hjob] at hwait hexp
          cases hreq : recordLifecyclePayload s.db id job with
          | ok db' =>
              simp only [hreq] at hexp
              exact not_exposed_of_requeue hreq hexp
          | error e =>
              simp only [hreq] at hwait hexp
              obtain ⟨db', hok⟩ := requeue_of_exposed (s := s.relay) hwait hexp job
              rw [DeliveryState.db] at hreq
              rw [hok] at hreq
              cases hreq
  | working k =>
      simp only [Delivery.transact] at hwait ⊢
      cases hfin : finish s.db.lifecycles id (some k) (finishOf i.work).1 (finishOf i.work).2 i.now with
      | error e => exact Or.inr ⟨rfl, rfl⟩
      | ok t =>
          simp only [hfin, not_waiting_of_finish hfin] at hwait
          cases hwait
  | ended => exact Or.inr ⟨rfl, rfl⟩

/-! ## Steps -/

/-- A call of a party other than a relay, as a relay label. -/
theorem relayStep_call {s : RelayState} {c : Call} (h : c.op.ofRelay = false) :
    relayStep s (.call c) = { s with db := after s.db c } := by
  simp [relayStep, h]

/-- The labels of relays and foreign calls keep every handled job waiting or not. -/
theorem waiting_of_relayStep {s : RelayState} {l : RelayLabel} {id : Uuid}
    (hne : ∀ c, l = .call c → c.op.lifecycle ≠ some id)
    (h : waiting (relayStep s l).db id = true) : waiting s.db id = true := by
  rw [relayStep_db] at h
  cases hcall : s.callOf l with
  | none => simpa [hcall] using h
  | some c =>
      simp only [hcall, Option.map_some, Option.getD_some] at h
      apply waiting_of_after _ h
      cases l with
      | call c' =>
          simp only [RelayState.callOf] at hcall
          split_ifs at hcall
          cases hcall
          exact hne c rfl
      | claim i token leaseSeconds relayNow now =>
          simp only [RelayState.callOf] at hcall
          split at hcall
          · split_ifs at hcall
            cases hcall
            simp [Op.lifecycle]
          · cases hcall
      | publish i relayNow provider =>
          simp only [RelayState.callOf] at hcall
          split at hcall
          · split_ifs at hcall
            cases hcall
            simp [Op.lifecycle]
          · cases hcall
      | acknowledge i now =>
          simp only [RelayState.callOf] at hcall
          split at hcall
          · cases hcall
            simp [Op.lifecycle]
          · cases hcall
      | scan now => cases hcall
      | stop i => cases hcall

/-- A foreign label keeps the invariant: what it exposes it has handed over, and that is
a new delivery. -/
theorem deliveryInv_relay {s : DeliveryState} {l : RelayLabel} (h : DeliveryInv s)
    (hforeign : foreignLabel s l = true) : DeliveryInv (deliveryStep s (.relay l)) := by
  have hnotHandled : ∀ id ∈ s.handled, ∀ c, l = .call c → c.op.lifecycle ≠ some id := by
    rintro id hid c rfl hlife
    simp [foreignLabel, hlife, hid] at hforeign
  have hfresh : ∀ id ∈ l.recorded, id ∉ s.recorded := by
    intro id hid
    cases l with
    | call c =>
        have hrec : c.op.recorded = some id := by simpa [RelayLabel.recorded] using hid
        have hall := (Bool.and_eq_true_iff.mp hforeign).2
        simpa [hrec] using hall
    | _ => cases hid
  simp only [deliveryStep, hforeign, if_true]
  refine ⟨rowsKnown_step h.known hfresh, ?_⟩
  intro id hid hwait hexp
  have hwait₀ : waiting s.db id = true := waiting_of_relayStep (hnotHandled id hid) hwait
  rcases exposed_relayStep h.known hexp with hexp₀ | ⟨row, hover, hlife⟩
  · obtain ⟨d, hmem, hd⟩ := h.covered id hid hwait₀ hexp₀
    exact ⟨d, List.mem_append_left _ hmem, hd⟩
  · refine ⟨⟨id, enqueuePending row, .sent⟩, List.mem_append_right _ ?_, rfl, rfl⟩
    simp [hover, deliveryOf, hlife]

/-- A call of a worker on its own lifecycle exposes nothing. -/
theorem exposed_of_after {s : RelayState} {recorded : List Uuid} {c : Call} {id : Uuid}
    (h : RowsKnown s recorded) (hrelay : c.op.ofRelay = false)
    (hexp : Exposed { s with db := after s.db c } id) : Exposed s id := by
  rw [← relayStep_call hrelay] at hexp
  rcases exposed_relayStep h hexp with hexp₀ | ⟨row, hover, -⟩
  · exact hexp₀
  · cases hover

theorem rowsKnown_call {s : RelayState} {recorded : List Uuid} {c : Call}
    (h : RowsKnown s recorded) (hrelay : c.op.ofRelay = false) (hrec : c.op.recorded = none) :
    RowsKnown { s with db := after s.db c } recorded := by
  have hlabel : (RelayLabel.call c).recorded = [] := by simp [RelayLabel.recorded, hrec]
  have hstep := rowsKnown_step (l := .call c) h (by simp [hlabel])
  rw [hlabel, relayStep_call hrelay] at hstep
  exact hstep

theorem deliveryInv_enqueue {s : DeliveryState} (h : DeliveryInv s) (e : Enqueue) (job : Job)
    (now : Instant) : DeliveryInv (deliveryStep s (.enqueue e job now)) := by
  simp only [deliveryStep]
  split_ifs with hdrawn
  · exact h
  · have hfresh : e.id ∉ s.recorded := by simpa using hdrawn
    have hknown := rowsKnown_step (l := .call ⟨now, .record e job⟩) h.known
      (by simpa [RelayLabel.recorded, Op.recorded] using hfresh)
    refine ⟨hknown, ?_⟩
    intro id hid hwait hexp
    rcases exposed_relayStep h.known hexp with hexp₀ | ⟨row, hover, -⟩
    -- the new job has no row under an identifier that was given out before
    · have hne : id ≠ e.id := by
        rintro rfl
        exact not_exposed_of_fresh h.known hfresh hexp₀
      have hid₀ : id ∈ s.handled := (List.mem_cons.mp hid).resolve_left hne
      refine h.covered id hid₀ (waiting_of_relayStep ?_ hwait) hexp₀
      rintro c hc hlife
      cases hc
      exact hne (Option.some.inj hlife).symm
    · cases hover

/-- The move of a delivery that fails, or does nothing for its job, keeps the invariant. -/
theorem deliveryInv_set {s : DeliveryState} {p : Nat} {d : Delivery} {phase : DeliveryPhase}
    (h : DeliveryInv s) (hp : s.deliveries[p]? = some d)
    (hsettled : d.phase.unfinished = true → waiting s.db d.lifecycleId = true → False) :
    DeliveryInv { s with deliveries := s.deliveries.set p { d with phase := phase } } := by
  refine ⟨h.known, ?_⟩
  intro id hid hwait hexp
  apply (h.covered id hid hwait hexp).set_of_ne hp
  rintro rfl hphase
  exact hsettled hphase hwait

/-- What a transaction of a delivery leaves of the rest: it exposes nothing, and other
lifecycles wait only if they did. -/
theorem transact_frame {s : RelayState} {recorded : List Uuid} (h : RowsKnown s recorded)
    (d : Delivery) (i : DeliveryInput) :
    RowsKnown { s with db := (d.transact s.db i).1 } recorded ∧
      (∀ id, Exposed { s with db := (d.transact s.db i).1 } id → Exposed s id) ∧
      ∀ id, d.lifecycleId ≠ id → waiting (d.transact s.db i).1 id = true →
        waiting s.db id = true := by
  rw [transact_db]
  cases hcall : d.callOf i with
  | none => exact ⟨h, fun _ hexp => hexp, fun _ _ hwait => hwait⟩
  | some c =>
      obtain ⟨hlife, hrec, hrelay⟩ := callOf_lifecycle hcall
      refine ⟨rowsKnown_call h hrelay hrec, fun _ hexp => exposed_of_after h hrelay hexp, ?_⟩
      intro id hne hwait
      apply waiting_of_after _ hwait
      rw [hlife]
      exact fun heq => hne (Option.some.inj heq)

/-- A delivery that is not failing gets through the steps its job depends on. -/
theorem succeeds_of_failsOnlySettled {s : DeliveryState} {p : Nat} {i : DeliveryInput}
    {d : Delivery} (hp : s.deliveries[p]? = some d)
    (hmeet : failsOnlySettled s (.advance p i) = true)
    (hwait : waiting s.db d.lifecycleId = true) :
    (d.phase = .sent → attemptsExhausted s.db.lifecycles d.lifecycleId i.now = false) ∧
      (d.phase = .deferred → (i.tag.bind (requeueJob d)).isSome = true) := by
  refine ⟨fun hs => ?_, fun hs => ?_⟩
  · by_contra hok
    simp [failsOnlySettled, failing, hp, hs, DeliveryPhase.unfinished, hwait, hok] at hmeet
  · by_contra hok
    simp [failsOnlySettled, failing, hp, hs, DeliveryPhase.unfinished, hwait] at hmeet
    exact hok hmeet

theorem deliveryInv_advance {s : DeliveryState} {p : Nat} {i : DeliveryInput} (h : DeliveryInv s)
    (hmeet : failsOnlySettled s (.advance p i) = true) :
    DeliveryInv (deliveryStep s (.advance p i)) := by
  cases hp : s.deliveries[p]? with
  | none => simpa only [deliveryStep, hp] using h
  | some d =>
      simp only [deliveryStep, hp]
      obtain ⟨hknown, hexposed, hothers⟩ := transact_frame h.known d i
      refine ⟨hknown, ?_⟩
      intro id hid hwait hexp
      by_cases hne : d.lifecycleId = id
      · subst hne
        rcases transact_covers (succeeds_of_failsOnlySettled hp hmeet) hwait hexp with
          hphase | ⟨hdb, hphase⟩
        · exact ⟨_, mem_set_self hp, rfl, hphase⟩
        -- a delivery without work of its own leaves the one that covers the job
        · have hwait₀ : waiting s.db d.lifecycleId = true := hdb ▸ hwait
          apply (h.covered _ hid hwait₀ (hexposed _ hexp)).set_of_ne hp
          intro _ hunfinished
          rw [hphase] at hunfinished
          cases hunfinished
      · apply (h.covered id hid (hothers id hne hwait) (hexposed id hexp)).set_of_ne hp
        exact fun heq => absurd heq hne

theorem deliveryInv_heartbeat {s : DeliveryState} (h : DeliveryInv s) (p : Nat) (now : Instant) :
    DeliveryInv (deliveryStep s (.heartbeat p now)) := by
  simp only [deliveryStep]
  split
  · next id message k hp =>
    have hrelay : (Op.renew id k).ofRelay = false := rfl
    refine ⟨rowsKnown_call h.known hrelay rfl, ?_⟩
    intro l hl hwait hexp
    refine h.covered l hl ?_ (exposed_of_after h.known hrelay hexp)
    have hwait' : waiting (after s.db ⟨now, .renew id k⟩) l = true := hwait
    by_cases hl' : id = l
    · subst hl'
      cases hexec : exec s.db ⟨now, .renew id k⟩ with
      | error e =>
          rw [after_of_error hexec] at hwait'
          exact hwait'
      | ok r =>
          obtain ⟨db', reply⟩ := r
          obtain ⟨⟨t, b⟩, hd, hr⟩ := Except.map_eq_ok hexec
          cases hr
          rw [after_of_ok hexec] at hwait'
          -- a renewal writes a running row or none
          rcases renewAt_eq_ok hd with ⟨-, row, hrow, -, hrun, hrep⟩ | ⟨-, ht⟩
          · obtain ⟨row', hrow', hq⟩ := waiting_iff.mp hwait'
            rw [hrep.get?_self] at hrow'
            cases hrow'
            simp [requeueable, hrun] at hq
          · subst ht
            exact hwait'
    · have hlife : (Op.renew id k).lifecycle ≠ some l := fun heq => hl' (Option.some.inj heq)
      exact waiting_of_after hlife hwait'
  · exact h

theorem deliveryInv_redeliver {s : DeliveryState} (h : DeliveryInv s) (p : Nat) :
    DeliveryInv (deliveryStep s (.redeliver p)) := by
  simp only [deliveryStep]
  split
  · refine ⟨h.known, ?_⟩
    intro id hid hwait hexp
    obtain ⟨d, hmem, hd⟩ := h.covered id hid hwait hexp
    exact ⟨d, List.mem_append_left _ hmem, hd⟩
  · exact h

/-- **One step.** -/
theorem deliveryInv_step {s : DeliveryState} {l : DeliveryLabel} (h : DeliveryInv s)
    (hmeet : failsOnlySettled s l = true) : DeliveryInv (deliveryStep s l) := by
  cases l with
  | enqueue e job now => exact deliveryInv_enqueue h e job now
  | relay l =>
      by_cases hforeign : foreignLabel s l = true
      · exact deliveryInv_relay h hforeign
      · simp only [deliveryStep]
        rw [if_neg hforeign]
        exact h
  | advance p i => exact deliveryInv_advance h hmeet
  | heartbeat p now => exact deliveryInv_heartbeat h p now
  | redeliver p => exact deliveryInv_redeliver h p
  | die p =>
      cases hp : s.deliveries[p]? with
      | none => simpa only [deliveryStep, hp] using h
      | some d =>
          simp only [deliveryStep, hp]
          refine deliveryInv_set h hp ?_
          intro hphase hwait
          simp [failsOnlySettled, failing, hp, hphase, hwait] at hmeet

theorem deliveryInv_empty : DeliveryInv DeliveryState.empty := by
  refine ⟨⟨?_, ?_, ?_⟩, ?_⟩
  · intro task hmem
    cases hmem
  · intro l d hd
    cases hd
  · intro task hmem
    cases hmem
  · intro id hid
    cases hid

theorem notStranded_of_inv {s : DeliveryState} (h : DeliveryInv s) : NotStranded s := by
  intro id hid hwait hended l row hrow hlife
  by_contra hpub
  obtain ⟨d, hmem, hd, hphase⟩ := h.covered id hid hwait (Or.inl ⟨l, row, hrow, hlife, hpub⟩)
  rw [hended d hmem hd] at hphase
  cases hphase

/-- **No stranded job.** From an empty queue, in every run in which no delivery fails
while its lifecycle waits for it, no job is stranded in any state reached. -/
theorem not_stranded (labels : List DeliveryLabel)
    (hmeet : StepsMeet deliveryStep (fun s l => failsOnlySettled s l = true) .empty labels) :
    NotStranded (run deliveryStep .empty labels) := by
  apply notStranded_of_inv
  exact run_invariant DeliveryInv (fun _ _ h hstep => deliveryInv_step h hstep) deliveryInv_empty
    hmeet

/-! ## A delivery that dies before its requeue -/

/-- The job of `routedJob` in a workspace. -/
def workspaceJob : Job :=
  { routedJob "worker-target:shared" with
    payload := .object [("workspace_id", .string (Uuid.toString 7))] }

/-- Publishes the row a scan puts at position `i` under `token`, as the provider's job of
that name. -/
def published (i : Nat) (token : Uuid) (now : Instant) : List DeliveryLabel :=
  [ .relay (.scan (.instant now)),
    .relay (.claim i token 60 now now),
    .relay (.publish i now (some token.toString)),
    .relay (.acknowledge i now) ]

/-- A transaction at time `now` of delivery `p`; the work succeeds and the lookups find
a target. -/
def advanced (p : Nat) (now : Instant) : DeliveryLabel :=
  .advance p ⟨now, none, some "worker-target:shared"⟩

/-- Job 1 runs in the one slot. The delivery of job 0 finds no capacity and defers its
lifecycle. -/
def deferredForCapacity : List DeliveryLabel :=
  .enqueue (oneSlot 1) workspaceJob 0 :: published 0 100 1 ++ [advanced 0 2] ++
    .enqueue (oneSlot 0) workspaceJob 3 :: published 1 101 4 ++ [advanced 1 5, advanced 1 5]

/-- The worker dies between the deferral and the requeue: job 0 is retrying, published,
and in nobody's hands. -/
theorem stranded_deferredForCapacity :
    ¬ NotStranded (run deliveryStep .empty (deferredForCapacity ++ [.die 1])) := by
  intro h
  have hstate :
      let s := run deliveryStep .empty (deferredForCapacity ++ [.die 1])
      (0 ∈ s.handled ∧ waiting s.db 0 = true ∧
        (∀ d ∈ s.deliveries, d.lifecycleId = 0 → d.phase = .ended)) ∧
      (s.db.outbox.get? 0).map (fun row => (row.lifecycleId, row.publishedAt)) =
        some (some 0, some 4) := by
    decide
  obtain ⟨⟨hhandled, hwaits, hended⟩, hpublished⟩ := hstate
  obtain ⟨row, hrow, hfields⟩ := Option.map_eq_some_iff.mp hpublished
  obtain ⟨hlife, hpub⟩ := Prod.mk.inj hfields
  have hnone := h 0 hhandled hwaits hended 0 row hrow hlife
  rw [hpub] at hnone
  cases hnone

/-- Control: the requeue is committed, and the row is unpublished again. -/
theorem not_stranded_control :
    NotStranded (run deliveryStep .empty (deferredForCapacity ++ [advanced 1 6])) :=
  not_stranded _ (by decide)

end Yorishiro.Queue
