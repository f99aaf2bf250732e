import Yorishiro.Base.Uuid
import Yorishiro.Lib.Table

/-!
# The queue lifecycle table

The statements of `queue_job_lifecycles` as functions on its table. A row
records where one queued job stands, which attempt of it is running and until
when that attempt holds its lease. `startAt` is the admission of one delivery;
`renewAt`, `defer`, `deferAt` and `finish` are the calls of a worker that holds
an admission. Each is a single transaction of the source, so each is one
function here: it returns the table it commits, or an error and no table.

The lemmas at the end read a successful statement back: which row it found, and
that it replaced that row and no other (`Table.Replaces`). `startAt_eq_ok` does so for
admission, the only statement of this table that writes `attempt`.
-/

set_option autoImplicit false

namespace Yorishiro.Queue

open Yorishiro.Lib

/-- A database instant, in microseconds. -/
abbrev Instant := Int

/-- `LEASE_DURATION_MINUTES` as a duration. -/
def leaseDuration : Int := 5 * 60 * 1000000

/-- Largest value of the `attempt` column. -/
def i32Max : Int := 2147483647

/-- Where a queued job stands. -/
inductive LifecycleStatus where
  | queued
  | running
  | retrying
  | completed
  | failed
  | cancelled
  | unavailable
deriving DecidableEq, Repr

/-- Which compute may take a job. -/
inductive WorkerClass where
  | tenantPrivate
  | official
  | shared
deriving DecidableEq, Repr

/-- A row of `queue_job_lifecycles` (its primary key is the table's key). -/
structure Lifecycle where
  providerJobId : Option String
  jobName : String
  workerClass : WorkerClass
  workspaceId : Option Uuid
  plan : Option String
  status : LifecycleStatus
  enqueueAt : Instant
  claimAt : Option Instant
  admittedAt : Option Instant
  leaseUntil : Option Instant
  startAt : Option Instant
  retryAt : Option Instant
  completedAt : Option Instant
  failedAt : Option Instant
  cancelledAt : Option Instant
  attempt : Int
  concurrencyKey : Option String
  concurrencyLimit : Option Int
  error : Option String
deriving DecidableEq, Repr

/-- The statuses of the partial index `queue_startup_reindex_active_workspace_idx`. -/
def LifecycleStatus.active : LifecycleStatus → Bool
  | .queued | .running | .retrying => true
  | _ => false

/-- Two rows that may not stand side by side: the same provider job, or two
active startup reindexes of one workspace. -/
def Lifecycle.clash (a b : Lifecycle) : Bool :=
  (a.providerJobId.isSome && a.providerJobId == b.providerJobId) ||
  (a.jobName == "startup_reindex" && b.jobName == "startup_reindex" && a.workspaceId.isSome &&
    a.workspaceId == b.workspaceId && a.status.active && b.status.active)

/-- The table `queue_job_lifecycles`. -/
abbrev Lifecycles := Table Uuid Lifecycle Lifecycle.clash

/-- What a caller gives to `record_enqueue`. -/
structure Enqueue where
  id : Uuid
  jobName : String
  workerClass : WorkerClass
  workspaceId : Option Uuid
  plan : Option String
  concurrencyKey : Option String
  concurrencyLimit : Option Int
deriving DecidableEq, Repr

/-- The outcome of one delivery's admission. -/
inductive Admission where
  | started (attempt : Int)
  | recovered (attempt : Int)
  | duplicate (attempt : Int)
  | saturated (attempt : Option Int)
  | terminal
deriving DecidableEq, Repr

/-- The attempt number an admission hands to a worker, when it admits at all. -/
def Admission.granted : Admission → Option Int
  | .started k | .recovered k => some k
  | _ => none

/-! ## Statements -/

/-- The row `record_enqueue` inserts. -/
def Enqueue.row (e : Enqueue) (now : Instant) : Lifecycle where
  -- a new job waits unattempted: every instant but its enqueue time is NULL
  providerJobId := none
  jobName := e.jobName
  workerClass := e.workerClass
  workspaceId := e.workspaceId
  plan := e.plan
  status := .queued
  enqueueAt := now
  claimAt := none
  admittedAt := none
  leaseUntil := none
  startAt := none
  retryAt := none
  completedAt := none
  failedAt := none
  cancelledAt := none
  attempt := 0
  concurrencyKey := e.concurrencyKey
  concurrencyLimit := e.concurrencyLimit
  error := none

/-- `record_enqueue`. -/
def recordEnqueue (t : Lifecycles) (e : Enqueue) (now : Instant) : Except DbErr Lifecycles :=
  t.insert e.id (e.row now)

/-- Turns "no row matched" into the `RecordNotFound` of the lease calls. -/
def requireLease (r : Lifecycles × Nat) : Except DbErr Lifecycles :=
  if r.2 = 0 then .error (.recordNotFound "active queue lease") else .ok r.1

/-- `mark_dispatched`. -/
def markDispatched (t : Lifecycles) (id : Uuid) (providerJobId : String) :
    Except DbErr Lifecycles := do
  let (t', n) ← t.updateRow id (fun _ => true)
    fun row => { row with providerJobId := some providerJobId }
  if n = 1 then .ok t' else .error (.recordNotFound "queue lifecycle")

/-- The filter of `defer`: the running attempt `k`, or a row still waiting. -/
def deferFilter (attempt : Option Int) (row : Lifecycle) : Bool :=
  match attempt with
  | some k => decide (row.attempt = k) && decide (row.status = .running)
  | none => decide (row.status = .queued) || decide (row.status = .retrying)

/-- `defer`. -/
def defer (t : Lifecycles) (id : Uuid) (attempt : Option Int) (error : String) (now : Instant) :
    Except DbErr Lifecycles := do
  let r ← t.updateRow id (deferFilter attempt) fun row =>
    { row with
      status := .retrying
      retryAt := some now
      providerJobId := none
      leaseUntil := none
      error := some error }
  requireLease r

/-- `defer_at`: only an attempt whose lease has lapsed. -/
def deferAt (t : Lifecycles) (id : Uuid) (attempt : Int) (error : String) (now : Instant) :
    Except DbErr Lifecycles := do
  let r ← t.updateRow id
    (fun row => decide (row.attempt = attempt) && decide (row.status = .running) &&
      row.leaseUntil.any fun lease => decide (lease ≤ now))
    fun row =>
      { row with
        status := .retrying
        retryAt := some now
        leaseUntil := none
        error := some error }
  requireLease r

/-- `renew_at`: reports whether the lease was extended. -/
def renewAt (t : Lifecycles) (id : Uuid) (attempt : Int) (now : Instant) :
    Except DbErr (Lifecycles × Bool) := do
  let (t', n) ← t.updateRow id
    (fun row => decide (row.attempt = attempt) && decide (row.status = .running))
    fun row => { row with leaseUntil := some (now + leaseDuration) }
  .ok (t', decide (n = 1))

/-- The filter of `finish`: with an attempt, only that attempt while it runs. -/
def finishFilter (attempt : Option Int) (row : Lifecycle) : Bool :=
  match attempt with
  | some k => decide (row.attempt = k) && decide (row.status = .running)
  | none => true

/-- The columns `finish` writes for each status. -/
def finishRow (status : LifecycleStatus) (error : Option String) (now : Instant)
    (row : Lifecycle) : Lifecycle :=
  -- `unavailable` has no column of its own for the time it was set
  let row := { row with status := status, leaseUntil := none, error := error }
  match status with
  | .completed => { row with completedAt := some now }
  | .failed => { row with failedAt := some now }
  | .retrying => { row with retryAt := some now }
  | .cancelled => { row with cancelledAt := some now }
  | _ => row

/-- `finish`. -/
def finish (t : Lifecycles) (id : Uuid) (attempt : Option Int) (status : LifecycleStatus)
    (error : Option String) (now : Instant) : Except DbErr Lifecycles := do
  let r ← t.updateRow id (finishFilter attempt) (finishRow status error now)
  requireLease r

/-- `running_lease_is_live`. -/
def runningLeaseIsLive (leaseUntil : Option Instant) (now : Instant) : Bool :=
  -- a running row without a lease counts as live, so it is never recovered
  leaseUntil.all fun lease => decide (lease > now)

/-- `in_flight`: attempts running under `key` with a live lease, other than `except`. -/
def inFlight (t : Lifecycles) (key : String) (now : Instant) (except : Uuid) : Nat :=
  t.count fun l row =>
    -- an attempt whose lease has lapsed no longer holds a slot
    decide (row.concurrencyKey = some key) && decide (row.status = .running) &&
      runningLeaseIsLive row.leaseUntil now && !decide (l = except)

/-- The statuses `claim` may take a row from. -/
def claimable (recovered : Bool) (row : Lifecycle) : Bool :=
  if recovered then decide (row.status = .running)
  else decide (row.status = .queued) || decide (row.status = .failed) ||
    decide (row.status = .retrying)

/-- The row `claim` writes: running under a new attempt and a full lease. -/
def claimRow (now : Instant) (row : Lifecycle) : Lifecycle :=
  { row with
    status := .running
    claimAt := some now
    startAt := some now
    admittedAt := some now
    failedAt := none
    retryAt := none
    leaseUntil := some (now + leaseDuration)
    attempt := row.attempt + 1 }

/-- `claim`: the increment is checked against the column's range. This is PostgreSQL's check; SQLite
has none, and would store the number that a job's attempt of 2^31 has. -/
def claim (t : Lifecycles) (id : Uuid) (recovered : Bool) (now : Instant) :
    Except DbErr (Lifecycles × Nat) :=
  if (t.get? id).any fun row => claimable recovered row && decide (i32Max < row.attempt + 1) then
    .error .outOfRange
  else t.updateRow id (claimable recovered) (claimRow now)

/-- Whether the capacity of the row's concurrency key is used up. -/
def saturated (t : Lifecycles) (id : Uuid) (row : Lifecycle) (now : Instant) : Bool :=
  match row.concurrencyKey, row.concurrencyLimit with
  | some key, some limit => decide (limit.toNat ≤ inFlight t key now id)
  | _, _ => false

/-- The end of `admit`: capacity first, then the claim. -/
def admitClaim (t : Lifecycles) (id : Uuid) (row : Lifecycle) (recovered : Bool) (now : Instant) :
    Except DbErr (Admission × Lifecycles) :=
  if saturated t id row now then
    .ok (.saturated (if recovered then some row.attempt else none), t)
  else do
    let (t', n) ← claim t id recovered now
    if n = 1 then
      .ok (if recovered then .recovered (row.attempt + 1) else .started (row.attempt + 1), t')
    else .ok (.duplicate row.attempt, t')

/-- `admit`: decides under the row lock whether one delivery may run now. -/
def admitDelivery (t : Lifecycles) (id : Uuid) (now : Instant) : Except DbErr (Admission × Lifecycles) :=
  match t.get? id with
  | none => .error (.recordNotFound "queue lifecycle")
  | some row =>
      match row.status with
      | .completed | .cancelled => .ok (.terminal, t)
      | .running =>
          if runningLeaseIsLive row.leaseUntil now then .ok (.duplicate row.attempt, t)
          else admitClaim t id row true now
      | _ => admitClaim t id row false now

/-- `start_at`: only an admission commits; every other outcome rolls back. -/
def startAt (t : Lifecycles) (id : Uuid) (now : Instant) : Except DbErr (Admission × Lifecycles) := do
  let (admission, t') ← admitDelivery t id now
  match admission with
  | .started _ | .recovered _ => .ok (admission, t')
  | _ => .ok (admission, t)

/-! ## What each statement does to the rows -/

section Effects

variable {t t' : Lifecycles} {id : Uuid}

/-- A lease call that succeeds found its row and rewrote it. -/
theorem leaseUpdate_eq_ok {p : Lifecycle → Bool} {f : Lifecycle → Lifecycle}
    (h : (t.updateRow id p f >>= fun r => requireLease r) = .ok t') :
    ∃ row, t.get? id = some row ∧ p row = true ∧ Table.Replaces t t' id (f row) := by
  obtain ⟨⟨t₁, n⟩, hu, hr⟩ := Except.bind_eq_ok.mp h
  -- no row affected is the error case, so exactly one row was rewritten
  rcases Table.updateRow_eq_ok hu with ⟨row, hrow, hp, hn, hrep⟩ | ⟨-, hn, -⟩
  · subst hn
    cases hr
    exact ⟨row, hrow, hp, hrep⟩
  · subst hn
    simp [requireLease] at hr

/-- The row `defer` writes. -/
theorem defer_eq_ok {attempt : Option Int} {error : String} {now : Instant}
    (h : defer t id attempt error now = .ok t') :
    ∃ row, t.get? id = some row ∧ deferFilter attempt row = true ∧
      Table.Replaces t t' id { row with
        status := .retrying, retryAt := some now, providerJobId := none, leaseUntil := none,
        error := some error } :=
  leaseUpdate_eq_ok h

/-- The row `deferAt` writes. -/
theorem deferAt_eq_ok {k : Int} {error : String} {now : Instant}
    (h : deferAt t id k error now = .ok t') :
    ∃ row, t.get? id = some row ∧ row.attempt = k ∧ row.status = .running ∧
      (∃ lease, row.leaseUntil = some lease ∧ lease ≤ now) ∧
      Table.Replaces t t' id { row with
        status := .retrying, retryAt := some now, leaseUntil := none, error := some error } := by
  obtain ⟨row, hrow, hp, hrep⟩ := leaseUpdate_eq_ok h
  simp only [Bool.and_eq_true, decide_eq_true_eq] at hp
  obtain ⟨⟨hk, hs⟩, hl⟩ := hp
  cases hlease : row.leaseUntil with
  | none => simp [hlease] at hl
  | some lease =>
      have hle : lease ≤ now := by simpa [hlease] using hl
      exact ⟨row, hrow, hk, hs, ⟨lease, hlease, hle⟩, hrep⟩

theorem finish_eq_ok {attempt : Option Int} {status : LifecycleStatus} {error : Option String}
    {now : Instant} (h : finish t id attempt status error now = .ok t') :
    ∃ row, t.get? id = some row ∧ finishFilter attempt row = true ∧
      Table.Replaces t t' id (finishRow status error now row) :=
  leaseUpdate_eq_ok h

theorem renewAt_eq_ok {k : Int} {now : Instant} {b : Bool}
    (h : renewAt t id k now = .ok (t', b)) :
    (b = true ∧ ∃ row, t.get? id = some row ∧ row.attempt = k ∧ row.status = .running ∧
      Table.Replaces t t' id { row with leaseUntil := some (now + leaseDuration) }) ∨
    (b = false ∧ t' = t) := by
  obtain ⟨⟨t₁, n⟩, hu, hr⟩ := Except.bind_eq_ok.mp h
  rcases Table.updateRow_eq_ok hu with ⟨row, hrow, hp, hn, hrep⟩ | ⟨-, hn, ht⟩
  · subst hn
    cases hr
    simp only [Bool.and_eq_true, decide_eq_true_eq] at hp
    exact Or.inl ⟨rfl, row, hrow, hp.1, hp.2, hrep⟩
  · subst hn
    cases hr
    exact Or.inr ⟨rfl, ht⟩

theorem markDispatched_eq_ok {provider : String} (h : markDispatched t id provider = .ok t') :
    ∃ row, t.get? id = some row ∧
      Table.Replaces t t' id { row with providerJobId := some provider } := by
  obtain ⟨⟨t₁, n⟩, hu, hr⟩ := Except.bind_eq_ok.mp h
  rcases Table.updateRow_eq_ok hu with ⟨row, hrow, -, hn, hrep⟩ | ⟨-, hn, -⟩
  · subst hn
    cases hr
    exact ⟨row, hrow, hrep⟩
  · subst hn
    simp at hr

@[simp] theorem finishRow_attempt (status : LifecycleStatus) (error : Option String) (now : Instant)
    (row : Lifecycle) : (finishRow status error now row).attempt = row.attempt := by
  cases status <;> rfl

@[simp] theorem finishRow_status (status : LifecycleStatus) (error : Option String) (now : Instant)
    (row : Lifecycle) : (finishRow status error now row).status = status := by
  cases status <;> rfl

end Effects

/-! ## Admission -/

section Admission

variable {t t' : Lifecycles} {id : Uuid} {now : Instant}

/-- The states of a row in which a delivery may be admitted: waiting, or running
on a lease that has lapsed. -/
def Admissible (row : Lifecycle) (now : Instant) : Prop :=
  row.status = .queued ∨ row.status = .failed ∨ row.status = .retrying ∨
    (row.status = .running ∧ runningLeaseIsLive row.leaseUntil now = false)

theorem claim_eq_ok {recovered : Bool} {n : Nat} (h : claim t id recovered now = .ok (t', n)) :
    (∃ row, t.get? id = some row ∧ claimable recovered row = true ∧ n = 1 ∧
        row.attempt < i32Max ∧ Table.Replaces t t' id (claimRow now row)) ∨
      (n = 0 ∧ t' = t) := by
  unfold claim at h
  split_ifs at h with hover
  rcases Table.updateRow_eq_ok h with ⟨row, hrow, hp, hn, hrep⟩ | ⟨-, hn, ht⟩
  · refine Or.inl ⟨row, hrow, hp, hn, ?_, hrep⟩
    -- the guard before the update is what keeps the increment in range
    have hbound : ¬ i32Max < row.attempt + 1 := by
      intro hlt
      apply hover
      rw [hrow, Option.any_some, hp, Bool.true_and]
      exact decide_eq_true hlt
    omega
  · exact Or.inr ⟨hn, ht⟩

theorem admitClaim_eq_ok {row : Lifecycle} {recovered : Bool} {a : Admission}
    (hrow : t.get? id = some row) (h : admitClaim t id row recovered now = .ok (a, t')) :
    (a.granted = some (row.attempt + 1) ∧ claimable recovered row = true ∧
        saturated t id row now = false ∧ row.attempt < i32Max ∧
        Table.Replaces t t' id (claimRow now row)) ∨
      (a.granted = none ∧ t' = t) := by
  unfold admitClaim at h
  by_cases hsat : saturated t id row now = true
  · rw [if_pos hsat] at h
    cases h
    exact Or.inr ⟨rfl, rfl⟩
  · rw [if_neg hsat] at h
    obtain ⟨⟨t₁, n⟩, hc, hr⟩ := Except.bind_eq_ok.mp h
    rcases claim_eq_ok hc with ⟨row', hrow', hp, hn, hlt, hrep⟩ | ⟨hn, ht⟩
    -- the row read by `admit` is the row the claim updates: both hold its lock
    · obtain rfl : row = row' := Option.some.inj (hrow.symm.trans hrow')
      subst hn
      cases hr
      refine Or.inl ⟨?_, hp, by simpa using hsat, hlt, hrep⟩
      cases recovered <;> rfl
    · subst hn
      cases hr
      exact Or.inr ⟨rfl, ht⟩

theorem admissible_of_claimable {row : Lifecycle} (h : claimable false row = true) :
    Admissible row now := by
  simp only [claimable, Bool.false_eq_true, if_false, Bool.or_eq_true, decide_eq_true_eq] at h
  rcases h with (h | h) | h
  · exact Or.inl h
  · exact Or.inr (Or.inl h)
  · exact Or.inr (Or.inr (Or.inl h))

/-- What `admitDelivery` decides, before the transaction commits or rolls back. -/
theorem admitDelivery_eq_ok {a : Admission} (h : admitDelivery t id now = .ok (a, t')) :
    (∃ row, t.get? id = some row ∧ a.granted = some (row.attempt + 1) ∧ Admissible row now ∧
        saturated t id row now = false ∧ Table.Replaces t t' id (claimRow now row)) ∨
      (a.granted = none ∧ t' = t) := by
  unfold admitDelivery at h
  cases hrow : t.get? id with
  | none => simp [hrow] at h
  | some row =>
      simp only [hrow] at h
      -- both ways into the claim end alike, once the row is known to be admissible
      have hclaim : ∀ recovered, admitClaim t id row recovered now = .ok (a, t') →
          (claimable recovered row = true → Admissible row now) →
          (∃ r, some row = some r ∧ a.granted = some (r.attempt + 1) ∧ Admissible r now ∧
            saturated t id r now = false ∧ Table.Replaces t t' id (claimRow now r)) ∨
          (a.granted = none ∧ t' = t) := by
        intro recovered hc hadm
        rcases admitClaim_eq_ok hrow hc with ⟨hg, hp, hsat, -, hrep⟩ | hnone
        · exact Or.inl ⟨row, rfl, hg, hadm hp, hsat, hrep⟩
        · exact Or.inr hnone
      cases hst : row.status with
      | running =>
          simp only [hst] at h
          split_ifs at h with hlive
          -- a live lease makes this delivery a duplicate, a lapsed one is recovered
          · cases h
            exact Or.inr ⟨rfl, rfl⟩
          · apply hclaim true h
            intro _
            exact Or.inr (Or.inr (Or.inr ⟨hst, by simpa using hlive⟩))
      | completed =>
          simp only [hst] at h
          cases h
          exact Or.inr ⟨rfl, rfl⟩
      | cancelled =>
          simp only [hst] at h
          cases h
          exact Or.inr ⟨rfl, rfl⟩
      -- `unavailable` goes to the claim like the rest; the claim's filter refuses it there
      | queued => simp only [hst] at h; exact hclaim false h admissible_of_claimable
      | retrying => simp only [hst] at h; exact hclaim false h admissible_of_claimable
      | failed => simp only [hst] at h; exact hclaim false h admissible_of_claimable
      | unavailable => simp only [hst] at h; exact hclaim false h admissible_of_claimable

/-- **Admission.** A delivery that is admitted found the row waiting or on a lapsed
lease, below capacity, and leaves it running under the next attempt number; every
other outcome leaves the table as it was. -/
theorem startAt_eq_ok {a : Admission} (h : startAt t id now = .ok (a, t')) :
    (∃ row, t.get? id = some row ∧ a.granted = some (row.attempt + 1) ∧ Admissible row now ∧
        saturated t id row now = false ∧ Table.Replaces t t' id (claimRow now row)) ∨
      (a.granted = none ∧ t' = t) := by
  obtain ⟨⟨a₁, t₁⟩, hadmit, hr⟩ := Except.bind_eq_ok.mp h
  have hdecided := admitDelivery_eq_ok hadmit
  -- the two outcomes that grant a number commit, the other three roll back
  cases a₁ with
  | started k => cases hr; exact hdecided
  | recovered k => cases hr; exact hdecided
  | duplicate k => cases hr; exact Or.inr ⟨rfl, rfl⟩
  | saturated k => cases hr; exact Or.inr ⟨rfl, rfl⟩
  | terminal => cases hr; exact Or.inr ⟨rfl, rfl⟩

end Admission

end Yorishiro.Queue
