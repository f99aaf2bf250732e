import Yorishiro.Queue.Fencing

/-!
# Capacity of a concurrency key

Lifecycle rows that share a concurrency key share its capacity: a delivery is
admitted while fewer attempts than the limit run under a live lease. Only
admission counts. `renewAt` extends the lease of an attempt that still runs,
whether or not that lease has lapsed meanwhile and its slot has been given away.

`rowWrite` lists the rows each call can write. From it, a call adds at most one
holder of a slot, and a call that is neither an admission nor the renewal of a
lapsed lease adds none; `capacity_run` is the bound over whole runs.
-/

set_option autoImplicit false

namespace Yorishiro.Queue

open Yorishiro.Lib Yorishiro.Lib.Transition

/-- The row occupies a slot of `key` at time `now`: running under a live lease. -/
def holdsSlot (key : String) (now : Instant) (row : Lifecycle) : Bool :=
  decide (row.concurrencyKey = some key) && decide (row.status = .running) &&
    runningLeaseIsLive row.leaseUntil now

/-- Number of slots of `key` in use at time `now`. -/
def slotsInUse (t : Lifecycles) (key : String) (now : Instant) : Nat :=
  t.count fun _ row => holdsSlot key now row

theorem holdsSlot_iff {key : String} {now : Instant} {row : Lifecycle} :
    holdsSlot key now row = true ↔
      row.concurrencyKey = some key ∧ row.status = .running ∧
        runningLeaseIsLive row.leaseUntil now = true := by
  simp [holdsSlot, and_assoc]

/-- A lease that is live later is live now. -/
theorem runningLeaseIsLive_of_le {lease : Option Instant} {now later : Instant} (h : now ≤ later)
    (hlive : runningLeaseIsLive lease later = true) : runningLeaseIsLive lease now = true := by
  cases lease with
  | none => rfl
  | some u =>
      simp only [runningLeaseIsLive, Option.all_some, decide_eq_true_eq] at hlive ⊢
      exact lt_of_le_of_lt h hlive

theorem holdsSlot_of_le {key : String} {now later : Instant} {row : Lifecycle} (h : now ≤ later)
    (hold : holdsSlot key later row = true) : holdsSlot key now row = true := by
  rw [holdsSlot_iff] at hold ⊢
  exact ⟨hold.1, hold.2.1, runningLeaseIsLive_of_le h hold.2.2⟩

/-- Time alone only frees slots. -/
theorem slotsInUse_le_of_le (t : Lifecycles) (key : String) {now later : Instant}
    (h : now ≤ later) : slotsInUse t key later ≤ slotsInUse t key now := by
  apply Table.count_le_count
  intro _ row hrow hold
  exact ⟨row, hrow, holdsSlot_of_le h hold⟩

/-! ## The rows a call writes -/

/-- What a call can write to the lifecycle row `id`, row by row. -/
inductive RowWrite (db : QueueDb) (c : Call) (id : Uuid) :
    Option Lifecycle → Option Lifecycle → Prop where
  | same (r : Option Lifecycle) : RowWrite db c id r r
  | insert (e : Enqueue) (job : Job) (op : c.op = .record e job) :
      RowWrite db c id none (some (e.row c.time))
  | claimed (row : Lifecycle) (op : c.op = .start id)
      (unsaturated : saturated db.lifecycles id row c.time = false) :
      RowWrite db c id (some row) (some (claimRow c.time row))
  | renewed (row row' : Lifecycle)
      (op : c.op = .renew id row.attempt ∨ ∃ error, c.op = .finish id row.attempt .running error)
      (running : row.status = .running) (key : row'.concurrencyKey = row.concurrencyKey)
      (limit : row'.concurrencyLimit = row.concurrencyLimit) :
      RowWrite db c id (some row) (some row')
  | released (row row' : Lifecycle) (idle : row'.status ≠ .running)
      (key : row'.concurrencyKey = row.concurrencyKey)
      (limit : row'.concurrencyLimit = row.concurrencyLimit) :
      RowWrite db c id (some row) (some row')
  | dispatched (row : Lifecycle) (provider : String) :
      RowWrite db c id (some row) (some { row with providerJobId := some provider })

@[simp] theorem finishRow_concurrencyKey (status : LifecycleStatus) (error : Option String)
    (now : Instant) (row : Lifecycle) :
    (finishRow status error now row).concurrencyKey = row.concurrencyKey := by
  cases status <;> rfl

@[simp] theorem finishRow_concurrencyLimit (status : LifecycleStatus) (error : Option String)
    (now : Instant) (row : Lifecycle) :
    (finishRow status error now row).concurrencyLimit = row.concurrencyLimit := by
  cases status <;> rfl

/-- **The rows a call writes.** -/
theorem rowWrite (db : QueueDb) (c : Call) (id : Uuid) :
    RowWrite db c id (db.lifecycles.get? id) ((after db c).lifecycles.get? id) := by
  have hchange := rowChange db c id
  generalize db.lifecycles.get? id = before at hchange ⊢
  generalize (after db c).lifecycles.get? id = now at hchange ⊢
  generalize grantedTo id (c, (exec db c).map Prod.snd) = grant at hchange
  cases hchange with
  | same => exact .same _
  | insert e job hop => exact .insert e job hop
  | update row row' hupdate =>
      cases hupdate with
      | start hop hadm hsat => exact .claimed row hop hsat
      | renew hop hrun => exact .renewed row _ (Or.inl hop) hrun rfl rfl
      | defer attempt error => exact .released row _ (by simp) rfl rfl
      | deferAt error => exact .released row _ (by simp) rfl rfl
      | finish status error hop hrun =>
          -- `finish` takes any status; with `running` it writes a row that still runs
          by_cases hs : status = .running
          · subst hs
            exact .renewed row _ (Or.inr ⟨error, hop⟩) hrun (by simp) (by simp)
          · exact .released row _ (by simpa using hs) (by simp) (by simp)
      | close diagnostic => exact .released row _ (by simp) (by simp) (by simp)
      | requeue job => exact .released row _ (by simp) rfl rfl
      | acknowledge l token provider => exact .dispatched row provider

/-! ## Limits -/

/-- Every row of `key` carries the limit `limit`. -/
def CarriesLimit (key : String) (limit : Int) (t : Lifecycles) : Prop :=
  ∀ id row, t.get? id = some row → row.concurrencyKey = some key →
    row.concurrencyLimit = some limit

/-- A job recorded under `key` carries the limit `limit`. -/
def Op.RecordsLimit (key : String) (limit : Int) : Op → Prop
  | .record e _ => e.concurrencyKey = some key → e.concurrencyLimit = some limit
  | _ => True

instance (key : String) (limit : Int) : (op : Op) → Decidable (op.RecordsLimit key limit)
  | .record e _ =>
      inferInstanceAs (Decidable (e.concurrencyKey = some key → e.concurrencyLimit = some limit))
  | .recordQuery .. | .start .. | .renew .. | .defer .. | .deferAt .. | .finish ..
  | .closeUnavailable .. | .requeue .. | .claim .. | .acknowledge .. | .expire .. => .isTrue trivial

theorem carriesLimit_after {key : String} {limit : Int} {db : QueueDb} {c : Call}
    (h : CarriesLimit key limit db.lifecycles) (hrecord : c.op.RecordsLimit key limit) :
    CarriesLimit key limit (after db c).lifecycles := by
  intro id row' hrow' hkey
  have hwrite := rowWrite db c id
  rw [hrow'] at hwrite
  generalize hbefore : db.lifecycles.get? id = before at hwrite
  cases hwrite with
  | same => exact h id row' hbefore hkey
  | insert e job hop =>
      rw [hop] at hrecord
      exact hrecord hkey
  | claimed row => exact h id row hbefore hkey
  | renewed row _ _ _ hk hl =>
      rw [hl]
      exact h id row hbefore (hk.symm.trans hkey)
  | released row _ _ hk hl =>
      rw [hl]
      exact h id row hbefore (hk.symm.trans hkey)
  | dispatched row provider => exact h id row hbefore hkey

/-! ## Holders a call adds -/

/-- The attempt `k` of `id` still holds its slot of `key`, or a slot is left for it. -/
def keepsSlot (key : String) (limit : Int) (t : Lifecycles) (now : Instant) (id : Uuid)
    (k : Int) : Bool :=
  (t.get? id).all fun row =>
    !(decide (row.concurrencyKey = some key) && decide (row.attempt = k) &&
        decide (row.status = .running)) ||
      runningLeaseIsLive row.leaseUntil now || decide (inFlight t key now id < limit.toNat)

/-- A call that writes a new lease to a running attempt of `key` finds its lease live,
or fewer attempts than the limit beside it. -/
def renewsWithin (key : String) (limit : Int) (db : QueueDb) (c : Call) : Bool :=
  match c.op with
  | .renew id k => keepsSlot key limit db.lifecycles c.time id k
  | .finish id k .running _ => keepsSlot key limit db.lifecycles c.time id k
  | _ => true

/-- The row `id` gains a slot by the call. -/
def Gains (key : String) (db : QueueDb) (c : Call) (id : Uuid) : Prop :=
  (∃ row', (after db c).lifecycles.get? id = some row' ∧ holdsSlot key c.time row' = true) ∧
    ¬ ∃ row, db.lifecycles.get? id = some row ∧ holdsSlot key c.time row = true

/-- A row gains a slot only when one is left. -/
theorem inFlight_lt_of_gains {key : String} {limit : Int} {db : QueueDb} {c : Call} {id : Uuid}
    (h : CarriesLimit key limit db.lifecycles) (hrenew : renewsWithin key limit db c = true)
    (hgains : Gains key db c id) :
    c.op.lifecycle = some id ∧ inFlight db.lifecycles key c.time id < limit.toNat := by
  obtain ⟨⟨row', hrow', hold'⟩, hnot⟩ := hgains
  have hwrite := rowWrite db c id
  rw [hrow'] at hwrite
  generalize hbefore : db.lifecycles.get? id = before at hwrite
  rw [holdsSlot_iff] at hold'
  obtain ⟨hkey, hrun, hlive⟩ := hold'
  cases hwrite with
  | same => exact absurd ⟨row', hbefore, holdsSlot_iff.mpr ⟨hkey, hrun, hlive⟩⟩ hnot
  | insert e job hop => cases hrun
  -- admission counted the holders of the key and found one missing
  | claimed row hop hsat =>
      have hrowkey : row.concurrencyKey = some key := hkey
      have hlimit := h id row hbefore hrowkey
      refine ⟨by rw [hop]; rfl, ?_⟩
      simpa [saturated, hrowkey, hlimit] using hsat
  | renewed row _ hop hrunning hk hl =>
      have hrowkey : row.concurrencyKey = some key := hk.symm.trans hkey
      have hlapsed : runningLeaseIsLive row.leaseUntil c.time = false := by
        by_contra hlive'
        exact hnot ⟨row, hbefore, holdsSlot_iff.mpr ⟨hrowkey, hrunning, by simpa using hlive'⟩⟩
      have hkeeps : keepsSlot key limit db.lifecycles c.time id row.attempt = true := by
        rcases hop with hop | ⟨error, hop⟩
        · simpa [renewsWithin, hop] using hrenew
        · simpa [renewsWithin, hop] using hrenew
      refine ⟨?_, ?_⟩
      · rcases hop with hop | ⟨error, hop⟩
        · rw [hop]; rfl
        · rw [hop]; rfl
      · simpa [keepsSlot, hbefore, hrowkey, hrunning, hlapsed] using hkeeps
  | released row _ hidle => exact absurd hrun hidle
  | dispatched row provider =>
      exact absurd ⟨row, hbefore, holdsSlot_iff.mpr ⟨hkey, hrun, hlive⟩⟩ hnot

/-- A call that adds no holder leaves at most the slots that were in use. -/
theorem slotsInUse_after_of_not_gains {key : String} {db : QueueDb} {c : Call}
    (h : ∀ id, ¬ Gains key db c id) :
    slotsInUse (after db c).lifecycles key c.time ≤ slotsInUse db.lifecycles key c.time := by
  apply Table.count_le_count
  intro id row' hrow' hold'
  by_contra hnot
  exact h id ⟨⟨row', hrow', hold'⟩, hnot⟩

/-- The holders beside the row a call is directed at were holders before it. -/
theorem slotsInUse_after_le (key : String) (db : QueueDb) (c : Call) (id : Uuid)
    (htarget : ∀ l, Gains key db c l → l = id) :
    slotsInUse (after db c).lifecycles key c.time ≤ inFlight db.lifecycles key c.time id + 1 := by
  have hne := Table.count_le_count_ne (after db c).lifecycles
    (fun _ row => holdsSlot key c.time row) id
  refine le_trans hne (Nat.add_le_add_right (Table.count_le_count fun l row' hrow' hsel => ?_) 1)
  obtain ⟨hold', hl⟩ : holdsSlot key c.time row' = true ∧ ¬ l = id := by simpa using hsel
  by_contra hnot
  refine hl (htarget l ⟨⟨row', hrow', hold'⟩, ?_⟩)
  rintro ⟨row, hrow, hold⟩
  exact hnot ⟨row, hrow, by simpa [holdsSlot, hl] using hold⟩

/-! ## The bound -/

/-- At time `now` at most `limit` slots of `key` are in use, and every row of it carries
that limit. -/
structure WithinLimit (key : String) (limit : Int) (db : QueueDb) (now : Instant) : Prop where
  carries : CarriesLimit key limit db.lifecycles
  slots : slotsInUse db.lifecycles key now ≤ limit.toNat

theorem WithinLimit.mono {key : String} {limit : Int} {db : QueueDb} {now later : Instant}
    (h : WithinLimit key limit db now) (hle : now ≤ later) : WithinLimit key limit db later :=
  ⟨h.carries, le_trans (slotsInUse_le_of_le _ _ hle) h.slots⟩

/-- **One call.** -/
theorem WithinLimit.after {key : String} {limit : Int} {db : QueueDb} {now : Instant} {c : Call}
    (h : WithinLimit key limit db now) (hle : now ≤ c.time)
    (hrecord : c.op.RecordsLimit key limit) (hrenew : renewsWithin key limit db c = true) :
    WithinLimit key limit (Queue.after db c) c.time := by
  refine ⟨carriesLimit_after h.carries hrecord, ?_⟩
  by_cases hgains : ∃ id, Gains key db c id
  · obtain ⟨id, hid⟩ := hgains
    obtain ⟨htarget, hroom⟩ := inFlight_lt_of_gains h.carries hrenew hid
    -- a call is directed at one row, so no second row gains a slot
    have honly : ∀ l, Gains key db c l → l = id := by
      intro l hl
      have := (inFlight_lt_of_gains h.carries hrenew hl).1
      exact Option.some.inj (this.symm.trans htarget)
    have hcount := slotsInUse_after_le key db c id honly
    omega
  · have hnone : ∀ id, ¬ Gains key db c id := fun id hid => hgains ⟨id, hid⟩
    exact le_trans (slotsInUse_after_of_not_gains hnone) (h.mono hle).slots

theorem carriesLimit_run {key : String} {limit : Int} {db : QueueDb} {calls : List Call}
    (h : CarriesLimit key limit db.lifecycles)
    (hrecord : ∀ c ∈ calls, c.op.RecordsLimit key limit) :
    CarriesLimit key limit (run after db calls).lifecycles := by
  induction calls generalizing db with
  | nil => exact h
  | cons c calls ih =>
      apply ih (carriesLimit_after h (hrecord c List.mem_cons_self))
      intro c' hc'
      exact hrecord c' (List.mem_cons_of_mem _ hc')

/-- **Every run.** The bound moves along with the time of the last call. -/
theorem capacity_run {key : String} {limit : Int} {db : QueueDb} {now later : Instant}
    {calls : List Call} (h : WithinLimit key limit db now)
    (htimes : (now :: calls.map Call.time ++ [later]).Pairwise (· ≤ ·))
    (hrecord : ∀ c ∈ calls, c.op.RecordsLimit key limit)
    (hmeet : StepsMeet after (fun db c => renewsWithin key limit db c = true) db calls) :
    WithinLimit key limit (run after db calls) later := by
  induction calls generalizing db now with
  | nil =>
      have hle : now ≤ later := by simpa using htimes
      exact h.mono hle
  | cons c calls ih =>
      obtain ⟨hfirst, hrest⟩ := List.pairwise_cons.mp htimes
      have hnow : now ≤ c.time := hfirst c.time (by simp)
      refine ih (h.after hnow (hrecord c List.mem_cons_self) hmeet.1) hrest ?_ hmeet.2
      intro c' hc'
      exact hrecord c' (List.mem_cons_of_mem _ hc')

/-- An admission under `key` leaves at most `limit` slots in use, whatever happened
before it. -/
theorem slotsInUse_admitted {key : String} {limit : Int} {db db' : QueueDb} {id : Uuid}
    {row : Lifecycle} {now : Instant} {a : Admission} {k : Int}
    (h : CarriesLimit key limit db.lifecycles) (hrow : db.lifecycles.get? id = some row)
    (hkey : row.concurrencyKey = some key)
    (hexec : exec db ⟨now, .start id⟩ = .ok (db', .admission a)) (ha : a.granted = some k) :
    slotsInUse db'.lifecycles key now ≤ limit.toNat := by
  obtain ⟨⟨a₁, t⟩, hd, hr⟩ := Except.map_eq_ok hexec
  obtain ⟨rfl, rfl⟩ : { db with lifecycles := t } = db' ∧ a₁ = a := by simpa using hr
  have hroom : inFlight db.lifecycles key now id < limit.toNat := by
    rcases startAt_eq_ok hd with ⟨row', hrow', -, -, hsat, -⟩ | ⟨hnone, -⟩
    · obtain rfl : row = row' := Option.some.inj (hrow.symm.trans hrow')
      simpa [saturated, hkey, h id row hrow hkey] using hsat
    · rw [ha] at hnone
      cases hnone
  have honly : ∀ l, Gains key db ⟨now, .start id⟩ l → l = id := by
    intro l hl
    have htarget := (inFlight_lt_of_gains h rfl hl).1
    exact (Option.some.inj htarget).symm
  have hcount := slotsInUse_after_le key db ⟨now, .start id⟩ id honly
  rw [after_of_ok hexec] at hcount
  exact le_trans hcount hroom

/-- **Concurrency limit.** Over every run of the queue at nondecreasing times, for a key
whose rows all carry `limit` (a negative one counts as zero):

* an admission under the key leaves at most `limit` slots in use;
* if each call that renews a running attempt of the key finds its lease live or a slot
  left, then at every time at most `limit` slots are in use. -/
theorem concurrency_limit (key : String) (limit : Int) (db : QueueDb) (now : Instant)
    (h : WithinLimit key limit db now) (calls : List Call) (later : Instant)
    (htimes : (now :: calls.map Call.time ++ [later]).Pairwise (· ≤ ·))
    (hrecord : ∀ c ∈ calls, c.op.RecordsLimit key limit) :
    (∀ id row a k db', (run after db calls).lifecycles.get? id = some row →
      row.concurrencyKey = some key →
      exec (run after db calls) ⟨later, .start id⟩ = .ok (db', .admission a) →
      a.granted = some k → slotsInUse db'.lifecycles key later ≤ limit.toNat) ∧
    (StepsMeet after (fun db c => renewsWithin key limit db c = true) db calls →
      slotsInUse (run after db calls).lifecycles key later ≤ limit.toNat) := by
  refine ⟨?_, ?_⟩
  · intro id row a k db' hrow hkey hexec ha
    exact slotsInUse_admitted (carriesLimit_run h.carries hrecord) hrow hkey hexec ha
  · intro hmeet
    exact (capacity_run h htimes hrecord hmeet).slots

/-! ## A lapsed lease that is renewed -/

/-- Two jobs of one slot. The lease of the first lapses, the second takes the slot, and
then the first worker's heartbeat renews its lease. -/
def renewedAfterLapse : List Call :=
  [ ⟨0, .record (oneSlot 0) oneSlotJob⟩,
    ⟨0, .record (oneSlot 1) oneSlotJob⟩,
    ⟨0, .start 0⟩,
    ⟨301000000, .start 1⟩,
    ⟨302000000, .renew 0 1⟩ ]

theorem withinLimit_empty (key : String) (limit : Int) (now : Instant) :
    WithinLimit key limit QueueDb.empty now := by
  refine ⟨?_, Nat.zero_le _⟩
  intro id row hrow
  cases hrow

/-- Both attempts then run under a live lease, where one is allowed. -/
theorem not_limited_renewedAfterLapse :
    Nondecreasing renewedAfterLapse ∧
      (∀ c ∈ renewedAfterLapse, c.op.RecordsLimit "shared" 1) ∧
      CarriesLimit "shared" 1 (run after QueueDb.empty renewedAfterLapse).lifecycles ∧
      slotsInUse (run after QueueDb.empty renewedAfterLapse).lifecycles "shared" 302000000 = 2 := by
  have hrecord : ∀ c ∈ renewedAfterLapse, c.op.RecordsLimit "shared" 1 := by decide
  refine ⟨by decide, hrecord, ?_, by decide⟩
  exact carriesLimit_run (withinLimit_empty "shared" 1 0).carries hrecord

/-- Control: renewed before it lapses, the lease keeps the second job out. -/
theorem concurrency_limit_control :
    slotsInUse (run after QueueDb.empty
      [ ⟨0, .record (oneSlot 0) oneSlotJob⟩,
        ⟨0, .record (oneSlot 1) oneSlotJob⟩,
        ⟨0, .start 0⟩,
        ⟨299000000, .renew 0 1⟩,
        ⟨301000000, .start 1⟩ ]).lifecycles "shared" 302000000 ≤ 1 :=
  (concurrency_limit "shared" 1 QueueDb.empty 0 (withinLimit_empty "shared" 1 0) _ 302000000
    (by decide) (by decide)).2 (by decide)

end Yorishiro.Queue
