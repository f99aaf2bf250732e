import Yorishiro.Lib.Json
import Yorishiro.Lib.Timestamp
import Yorishiro.Queue.Lifecycle

/-!
# The dispatch outbox

The statements of `queue_job_dispatch_outbox`. A row holds the payload of a job
until a relay has published it; a relay takes a row with `claimDispatch`, hands
the payload to the queue provider, and records the provider's acceptance with
`acknowledgeDispatch`. `recordLifecyclePayload` puts a job back in the queue: it
rewrites the lifecycle row and the outbox row together, in its caller's
transaction.

`QueueDb` is the pair of tables these functions share. Each function returns the
database its transaction commits; an error commits nothing.

The lease and the deadline of a row are compared with `CURRENT_TIMESTAMP`. PostgreSQL
compares instants. SQLite compares texts, and there lease and deadline are written in
UTC while `CURRENT_TIMESTAMP` shows the configured time zone. So the time `now` of a
statement is the reading of that clock (`CurrentTimestamp.reading`), and a column that
is set from it holds a reading: `dispatchClaimable_reading` and
`acknowledgeable_reading` say that the filters then compare as the database does.
-/

set_option autoImplicit false

namespace Yorishiro.Queue

open Yorishiro.Lib

/-! ## The clock of the database -/

/-- `CURRENT_TIMESTAMP`: an instant on PostgreSQL; on SQLite a text in whole seconds,
in the configured zone, which is `offset` minutes ahead of UTC. -/
inductive CurrentTimestamp where
  | instant (now : Instant)
  | text (seconds offset : Int)
deriving DecidableEq, Repr

namespace CurrentTimestamp

/-- The time that it is. -/
def time : CurrentTimestamp → Instant
  | .instant now => now
  | .text seconds _ => seconds * 1000000

/-- How far the clock shown is ahead of UTC. -/
def offset : CurrentTimestamp → Int
  | .instant _ => 0
  | .text _ offset => offset

/-- What a column in UTC is compared with. -/
def reading (now : CurrentTimestamp) : Instant := (Timestamp.mk now.time now.offset).reading

/-- `CURRENT_TIMESTAMP < u`, for a column `u` that is written in UTC. -/
def before : CurrentTimestamp → Instant → Bool
  | .instant now, u => decide (now < u)
  | .text seconds offset, u =>
      decide ((Timestamp.mk (seconds * 1000000) offset).textKey < (Timestamp.utc u).textKey)

/-- A zone behind UTC shows less than the time, so a lease lasts longer there than it was given
for; a zone ahead of it ends leases early. -/
theorem time_le_reading {now : CurrentTimestamp} : now.time ≤ now.reading ↔ 0 ≤ now.offset :=
  Timestamp.instant_le_reading

theorem reading_le_time {now : CurrentTimestamp} : now.reading ≤ now.time ↔ now.offset ≤ 0 :=
  Timestamp.reading_le_instant

theorem before_iff {now : CurrentTimestamp} {u : Instant} :
    now.before u = true ↔ now.reading < u := by
  cases now with
  | instant now => simp [before, reading, Timestamp.reading, time, offset]
  | text seconds offset =>
      rw [before, decide_eq_true_iff, Timestamp.lt_utc_iff]
      rfl

/-- The comparison is that of the times exactly when the clock shows UTC. -/
theorem before_iff_time {now : CurrentTimestamp} :
    (∀ u, now.before u = true ↔ now.time < u) ↔ now.offset = 0 := by
  constructor
  · intro h
    -- a column at the reading itself, and one at the time, are each compared rightly
    have hreading : now.reading ≤ now.time := not_lt.mp fun hlt =>
      (before_iff.mp ((h now.reading).mpr hlt)).false
    have htime : now.time ≤ now.reading := not_lt.mp fun hlt =>
      ((h now.time).mp (before_iff.mpr hlt)).false
    exact le_antisymm (reading_le_time.mp hreading) (time_le_reading.mp htime)
  · intro h u
    have hequal : now.reading = now.time :=
      le_antisymm (reading_le_time.mpr h.le) (time_le_reading.mpr h.ge)
    rw [before_iff, hequal]

end CurrentTimestamp

/-! ## Rows -/

/-- A row of `queue_job_dispatch_outbox` (its primary key is the table's key). -/
structure Dispatch where
  lifecycleId : Option Uuid
  payload : Json
  workerName : String
  queueName : Option String
  tags : Option Json
  lastAttemptAt : Option Instant
  deadlineAt : Option Instant
  publishedAt : Option Instant
  claimToken : Option String
  claimUntil : Option Instant
  priority : Option Int
  workspaceId : Option Uuid
deriving DecidableEq

/-- The table `queue_job_dispatch_outbox`; it has no unique index besides its key. -/
abbrev Outbox := Table Uuid Dispatch fun _ _ => false

/-- The two tables of the queue. -/
structure QueueDb where
  lifecycles : Lifecycles
  outbox : Outbox
deriving DecidableEq

/-- The database with no job in it. -/
def QueueDb.empty : QueueDb := ⟨Table.empty, Table.empty⟩

/-- What a caller gives to be published: payload, worker and routing. -/
structure Job where
  payload : Json
  workerName : String
  queueName : Option String
  tags : Option (List String)
deriving DecidableEq

/-- `QUERY_EMBEDDING_PRIORITY`. -/
def queryEmbeddingPriority : Int := 1000

/-- `payload_workspace_id`. -/
def payloadWorkspaceId (payload : Json) : Option Uuid :=
  ((payload.get? "workspace_id").bind Json.asStr).bind Uuid.parseStr

/-- `tags_json`. -/
def tagsJson (tags : Option (List String)) : Option Json :=
  tags.map fun ts => .array (ts.map .string)

/-- The payload with its `lifecycle_id` member set. -/
def withLifecycleId (payload : Json) (id : Uuid) : Json :=
  Json.insert "lifecycle_id" (.string id.toString) payload

/-- The outbox row of a new job. -/
def Job.newDispatch (job : Job) (lifecycleId : Option Uuid) (deadlineAt : Option Instant)
    (priority : Option Int) : Dispatch where
  lifecycleId := lifecycleId
  payload := job.payload
  workerName := job.workerName
  queueName := job.queueName
  tags := tagsJson job.tags
  lastAttemptAt := none
  deadlineAt := deadlineAt
  publishedAt := none
  claimToken := none
  claimUntil := none
  priority := priority
  workspaceId := payloadWorkspaceId job.payload

/-! ## Statements -/

/-- `record_in_transaction`: a lifecycle row and its outbox row under one id. -/
def recordInTransaction (db : QueueDb) (e : Enqueue) (job : Job) (now : Instant) :
    Except DbErr QueueDb := do
  let lifecycles ← recordEnqueue db.lifecycles e now
  let job := { job with payload := withLifecycleId job.payload e.id }
  let outbox ← db.outbox.insert e.id (job.newDispatch (some e.id) none none)
  .ok ⟨lifecycles, outbox⟩

/-- `record_query_in_transaction`: a dispatch with a deadline and no lifecycle row. -/
def recordQueryInTransaction (db : QueueDb) (id : Uuid) (deadlineAt : Instant) (job : Job) :
    Except DbErr QueueDb := do
  let outbox ← db.outbox.insert id
    (job.newDispatch none (some deadlineAt) (some queryEmbeddingPriority))
  .ok { db with outbox := outbox }

/-- The outbox row a requeue leaves: the new job, unpublished and unclaimed. -/
def requeueDispatch (job : Job) (row : Dispatch) : Dispatch :=
  { row with
    workspaceId := payloadWorkspaceId job.payload
    payload := job.payload
    workerName := job.workerName
    queueName := job.queueName
    tags := tagsJson job.tags
    priority := none
    lastAttemptAt := none
    publishedAt := none
    claimToken := none
    claimUntil := none }

/-- The lifecycle statuses a requeue may take a row from. -/
def requeueable (row : Lifecycle) : Bool :=
  decide (row.status = .retrying) || decide (row.status = .queued)

/-- Number of outbox rows of a lifecycle. -/
def dispatches (db : QueueDb) (lifecycleId : Uuid) : Nat :=
  db.outbox.count fun _ row => decide (row.lifecycleId = some lifecycleId)

/-- `record_lifecycle_payload`: the lifecycle is queued again with its attempt
counter at zero, and every outbox row of it carries the new job. -/
def recordLifecyclePayload (db : QueueDb) (lifecycleId : Uuid) (job : Job) :
    Except DbErr QueueDb := do
  -- the attempt number goes back to zero here, while its former holder may still carry it
  let job := { job with payload := withLifecycleId job.payload lifecycleId }
  let (lifecycles, n) ← db.lifecycles.updateRow lifecycleId requeueable
    fun row => { row with status := .queued, attempt := 0 }
  if n ≠ 1 then .error (.recordNotFound "retryable queue lifecycle")
  else do
    let (outbox, m) ← db.outbox.updateWhere
      (fun _ row => decide (row.lifecycleId = some lifecycleId)) (requeueDispatch job)
    if m = 0 then .error (.recordNotFound "lifecycle dispatch outbox row")
    else .ok ⟨lifecycles, outbox⟩

/-- The filter of `claim_dispatch`: unpublished, and not under a live claim. -/
def dispatchClaimable (now : Instant) (row : Dispatch) : Bool :=
  row.publishedAt.isNone && row.claimUntil.all fun until_ => decide (until_ ≤ now)

/-- `claim_dispatch`: the lease runs from the relay's clock `relayNow`, the filter
is evaluated at `now`, the reading of the database's clock. -/
def claimDispatch (db : QueueDb) (id token : Uuid) (leaseSeconds : Int) (relayNow now : Instant) :
    Except DbErr (QueueDb × Bool) := do
  let (outbox, n) ← db.outbox.updateRow id (dispatchClaimable now) fun row =>
    { row with
      lastAttemptAt := some now
      claimToken := some token.toString
      claimUntil := some (relayNow + leaseSeconds * 1000000) }
  .ok ({ db with outbox := outbox }, decide (n = 1))

/-- The filter of `acknowledge_dispatch`: the live claim `token` of an unpublished row. -/
def acknowledgeable (token : Uuid) (now : Instant) (row : Dispatch) : Bool :=
  decide (row.claimToken = some token.toString) &&
    (row.claimUntil.any fun until_ => decide (until_ > now)) && row.publishedAt.isNone

/-- The row `acknowledge_dispatch` writes. -/
def publishedRow (now : Instant) (row : Dispatch) : Dispatch :=
  { row with publishedAt := some now, claimToken := none, claimUntil := none }

/-- The lifecycle row `acknowledge_dispatch` locks, when there is one. -/
def lockedLifecycle (db : QueueDb) (id : Uuid) : Option Uuid :=
  ((db.outbox.get? id).bind Dispatch.lifecycleId).filter fun l => (db.lifecycles.get? l).isSome

/-- `acknowledge_dispatch`: marks the row published and its lifecycle dispatched
together, or leaves both as they are. -/
def acknowledgeDispatch (db : QueueDb) (id token : Uuid) (providerJobId : String) (now : Instant) :
    Except DbErr (QueueDb × Bool) := do
  let (outbox, n) ← db.outbox.updateRow id (acknowledgeable token now) (publishedRow now)
  if n ≠ 1 then .ok (db, false)
  else
    match lockedLifecycle db id with
    -- a query dispatch has no lifecycle, and one that was deleted is not an error either
    | none => .ok ({ db with outbox := outbox }, true)
    | some l => do
        let lifecycles ← markDispatched db.lifecycles l providerJobId
        .ok (⟨lifecycles, outbox⟩, true)

/-- `expire`: drops the dispatch. -/
def expire (db : QueueDb) (id : Uuid) : QueueDb :=
  { db with outbox := db.outbox.delete id }

/-! ## What each statement does to the rows -/

section Effects

variable {db db' : QueueDb} {id : Uuid}

theorem recordInTransaction_eq_ok {e : Enqueue} {job : Job} {now : Instant}
    (h : recordInTransaction db e job now = .ok db') :
    db.lifecycles.get? e.id = none ∧ db.outbox.get? e.id = none ∧
      Table.Replaces db.lifecycles db'.lifecycles e.id (e.row now) ∧
      Table.Replaces db.outbox db'.outbox e.id
        (Job.newDispatch { job with payload := withLifecycleId job.payload e.id }
          (some e.id) none none) := by
  obtain ⟨ls, hl, h⟩ := Except.bind_eq_ok.mp h
  obtain ⟨os, ho, h⟩ := Except.bind_eq_ok.mp h
  cases h
  exact ⟨(Table.insert_eq_ok hl).1, (Table.insert_eq_ok ho).1,
    Table.get?_insert hl, Table.get?_insert ho⟩

theorem recordQueryInTransaction_eq_ok {deadlineAt : Instant} {job : Job}
    (h : recordQueryInTransaction db id deadlineAt job = .ok db') :
    db.outbox.get? id = none ∧ db'.lifecycles = db.lifecycles ∧
      Table.Replaces db.outbox db'.outbox id
        (job.newDispatch none (some deadlineAt) (some queryEmbeddingPriority)) := by
  obtain ⟨os, ho, h⟩ := Except.bind_eq_ok.mp h
  cases h
  exact ⟨(Table.insert_eq_ok ho).1, rfl, Table.get?_insert ho⟩

/-- **Requeue.** A requeue that takes effect found the lifecycle waiting, with an
outbox row; it leaves it queued at attempt zero, and every outbox row of it
unpublished and unclaimed. -/
theorem recordLifecyclePayload_eq_ok {job : Job}
    (h : recordLifecyclePayload db id job = .ok db') :
    ∃ row, db.lifecycles.get? id = some row ∧ requeueable row = true ∧
      0 < dispatches db id ∧
      Table.Replaces db.lifecycles db'.lifecycles id { row with status := .queued, attempt := 0 } ∧
      ∀ l, db'.outbox.get? l = (db.outbox.get? l).map fun d =>
        if d.lifecycleId = some id then
          requeueDispatch { job with payload := withLifecycleId job.payload id } d
        else d := by
  obtain ⟨⟨ls, n⟩, hl, h⟩ := Except.bind_eq_ok.mp h
  rcases Table.updateRow_eq_ok hl with ⟨row, hrow, hp, hn, hrep⟩ | ⟨-, hn, -⟩
  · subst hn
    obtain ⟨⟨os, m⟩, ho, h⟩ := Except.bind_eq_ok.mp h
    -- the second statement of the transaction fails when the lifecycle has no outbox row
    by_cases hm : m = 0
    · simp [hm] at h
    · simp only [hm, if_false, Except.ok.injEq] at h
      subst h
      have hcount : 0 < dispatches db id := by
        rw [dispatches, ← (Table.updateWhere_eq_ok ho).2]
        exact Nat.pos_of_ne_zero hm
      refine ⟨row, hrow, hp, hcount, hrep, fun l => ?_⟩
      simpa using Table.get?_updateWhere ho l
  · subst hn
    cases h

theorem claimDispatch_eq_ok {token : Uuid} {lease : Int} {relayNow now : Instant} {b : Bool}
    (h : claimDispatch db id token lease relayNow now = .ok (db', b)) :
    db'.lifecycles = db.lifecycles ∧
      ((b = true ∧ ∃ row, db.outbox.get? id = some row ∧ dispatchClaimable now row = true ∧
        Table.Replaces db.outbox db'.outbox id { row with
          lastAttemptAt := some now
          claimToken := some token.toString
          claimUntil := some (relayNow + lease * 1000000) }) ∨
      (b = false ∧ db'.outbox = db.outbox)) := by
  obtain ⟨⟨os, n⟩, ho, h⟩ := Except.bind_eq_ok.mp h
  rcases Table.updateRow_eq_ok ho with ⟨row, hrow, hp, hn, hrep⟩ | ⟨-, hn, ht⟩
  · subst hn
    cases h
    exact ⟨rfl, Or.inl ⟨rfl, row, hrow, hp, hrep⟩⟩
  · subst hn
    cases h
    exact ⟨rfl, Or.inr ⟨rfl, ht⟩⟩

/-- **Acknowledgement.** One that succeeds found the row unpublished under its own
live claim and publishes it; its effect on lifecycles is at most the provider's job
id on one row. Any other leaves the database as it is. -/
theorem acknowledgeDispatch_eq_ok {token : Uuid} {provider : String} {now : Instant} {b : Bool}
    (h : acknowledgeDispatch db id token provider now = .ok (db', b)) :
    (b = true ∧ ∃ row, db.outbox.get? id = some row ∧ acknowledgeable token now row = true ∧
        Table.Replaces db.outbox db'.outbox id (publishedRow now row) ∧
        (db'.lifecycles = db.lifecycles ∨ ∃ l r, db.lifecycles.get? l = some r ∧
          Table.Replaces db.lifecycles db'.lifecycles l
            { r with providerJobId := some provider })) ∨
      (b = false ∧ db' = db) := by
  obtain ⟨⟨os, n⟩, ho, h⟩ := Except.bind_eq_ok.mp h
  rcases Table.updateRow_eq_ok ho with ⟨row, hrow, hp, hn, hrep⟩ | ⟨-, hn, -⟩
  · subst hn
    -- the row is published either way; only the provider's job id depends on the lifecycle
    cases hl : lockedLifecycle db id with
    | none =>
        simp only [hl] at h
        cases h
        exact Or.inl ⟨rfl, row, hrow, hp, hrep, Or.inl rfl⟩
    | some l =>
        simp only [hl] at h
        obtain ⟨ls, hm, h⟩ := Except.bind_eq_ok.mp h
        cases h
        exact Or.inl ⟨rfl, row, hrow, hp, hrep, Or.inr ⟨l, markDispatched_eq_ok hm⟩⟩
  · subst hn
    cases h
    exact Or.inr ⟨rfl, rfl⟩

/-- The filter of a claim, as the database compares. -/
theorem dispatchClaimable_reading {now : CurrentTimestamp} {row : Dispatch} :
    dispatchClaimable now.reading row =
      (row.publishedAt.isNone && row.claimUntil.all fun until_ => !now.before until_) := by
  have hlease : (fun u => decide (u ≤ now.reading)) = fun u => !now.before u := funext fun u => by
    rw [Bool.eq_iff_iff, decide_eq_true_iff, Bool.not_eq_true', Bool.eq_false_iff, Ne,
      CurrentTimestamp.before_iff, not_lt]
  rw [dispatchClaimable, hlease]

/-- The filter of an acknowledgement, as the database compares. -/
theorem acknowledgeable_reading {token : Uuid} {now : CurrentTimestamp} {row : Dispatch} :
    acknowledgeable token now.reading row =
      (decide (row.claimToken = some token.toString) && row.claimUntil.any now.before &&
        row.publishedAt.isNone) := by
  have hlease : (fun u => decide (u > now.reading)) = now.before := funext fun u => by
    rw [Bool.eq_iff_iff, CurrentTimestamp.before_iff, decide_eq_true_iff, gt_iff_lt]
  rw [acknowledgeable, hlease]

theorem acknowledgeable_iff {token : Uuid} {now : Instant} {row : Dispatch} :
    acknowledgeable token now row = true ↔
      row.claimToken = some token.toString ∧ (∃ u, row.claimUntil = some u ∧ now < u) ∧
        row.publishedAt = none := by
  cases hu : row.claimUntil with
  | none => simp [acknowledgeable, hu]
  | some u => simp [acknowledgeable, hu, and_assoc]

end Effects

end Yorishiro.Queue
