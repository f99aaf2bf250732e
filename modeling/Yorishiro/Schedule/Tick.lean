import Yorishiro.Lib.Transition
import Yorishiro.Queue.Delivery
import Yorishiro.Queue.Dispatch
import Yorishiro.Schedule.Interval

/-!
# Ticks of the reindex scheduler

A tick reads the schedules of the tenants and walks those that are due: it puts off the schedule
and lists a reindex job for every workspace of the tenant. It then records the jobs, in the same
transaction, and commits. Any failure on the way rolls everything back. `TickGiven` says what the
calls of a tick return, each of which may fail; a commit that fails may have taken effect.

`Ticked` is what a tick that commits does. Between the ticks of a run schedules are stored and
removed, and tenants, workspaces and the queue change in any way (`SchedulerEvent`).
-/

set_option autoImplicit false

namespace Yorishiro.Schedule

open Yorishiro.Lib Yorishiro.Queue

/-! ## What is stored -/

/-- A row of `tenant_reindex_schedules` (its primary key, the tenant, is the table's key). -/
structure ReindexSchedule where
  interval : String
  timezone : Option String
  scheduledFor : Option Instant
  updatedAt : Instant
deriving DecidableEq

/-- The schedules, the tenants with their `disabled_at`, the workspaces with their tenant, and
the queue. -/
structure SchedulerDb where
  schedules : OrderedMap Uuid ReindexSchedule
  tenants : OrderedMap Uuid (Option Instant)
  workspaces : OrderedMap Uuid Uuid
  queue : QueueDb

/-- What a duration and an instant hold at most. -/
structure ChronoLimits where
  maxSeconds : Nat
  maxInstant : Instant

/-- How strings and errors are shown in messages. -/
structure Texts where
  debug : String → String
  dbErr : DbErr → String

/-! ## What is given -/

/-- What the calls of one dispatch return. -/
structure DispatchGiven where
  lifecycleId : Uuid
  target : Except String JobTarget
  policy : Except String ConcurrencyPolicy
  now : Instant
  record : Except String Unit

/-- How the commit ends. -/
inductive CommitOutcome where
  | committed
  | failed (err : String) (applied : Bool)

/-- The time of a tick, and what its calls return. -/
structure TickGiven where
  tick : Instant
  ownership : Except String Bool
  begin : Except String Unit
  readSchedules : Except String Unit
  readTenant : Uuid → Except String Unit
  readWorkspaces : Uuid → Except String Unit
  workerClass : Uuid → Except String WorkerClass
  updateSchedule : Uuid → Except String Unit
  dispatch : Uuid → DispatchGiven
  commit : CommitOutcome
  release : Except String Unit

/-! ## The walk over the schedules -/

/-- `MIN_INTERVAL_SECONDS`. -/
def minIntervalSeconds : Nat := 5 * 60

def isDue (scheduledFor tick : Instant) : Bool := decide (scheduledFor ≤ tick)

/-- `checked_add_signed`, in microseconds. -/
def checkedAddSigned (limits : ChronoLimits) (tick : Instant) (seconds : Nat) : Option Instant :=
  if tick + seconds * 1000000 ≤ limits.maxInstant then some (tick + seconds * 1000000) else none

/-- One interval after the tick, for an interval that a schedule may have. -/
def nextRun (limits : ChronoLimits) (interval : String) (tick : Instant) : Option Instant :=
  ((parseInterval limits.maxSeconds interval).filter fun every =>
    decide (minIntervalSeconds ≤ every)).bind fun every => checkedAddSigned limits tick every

/-- `ReindexArgs`. -/
structure ReindexArgs where
  lifecycleId : Option Uuid
  workspaceId : Uuid
  workerClass : WorkerClass
  startup : Bool
deriving DecidableEq

/-- Why the walk gave up. -/
inductive WalkFailure where
  | statement (err : String)
  | invalidInterval (tenantId : Uuid) (interval : String)
  | workerClass (workspaceId : Uuid) (err : String)

/-- The statements fail with their own error. -/
def statement (x : Except String Unit) : Except WalkFailure Unit := x.mapError .statement

namespace SchedulerDb

/-- The tenant is there, and not disabled. -/
def active (db : SchedulerDb) (tenantId : Uuid) : Bool :=
  decide (db.tenants.get? tenantId = some none)

/-- The workspaces of a tenant. -/
def workspacesOf (db : SchedulerDb) (tenantId : Uuid) : List Uuid :=
  db.workspaces.selected fun _ owner => decide (owner = tenantId)

/-- The update of a schedule. -/
def putOff (db : SchedulerDb) (tenantId : Uuid) (next tick : Instant) :
    Except WalkFailure SchedulerDb :=
  match db.schedules.get? tenantId with
  | none => .error (.statement "None of the records are updated")
  | some row =>
      .ok { db with
        schedules := db.schedules.insert tenantId
          { row with scheduledFor := some next, updatedAt := tick } }

end SchedulerDb

/-- The arguments of the jobs for the workspaces of a tenant. -/
def reindexArgs (given : TickGiven) : List Uuid → Except WalkFailure (List ReindexArgs)
  | [] => .ok []
  | workspaceId :: rest => do
      let workerClass ← (given.workerClass workspaceId).mapError (.workerClass workspaceId)
      let args ← reindexArgs given rest
      .ok ({
        lifecycleId := none
        workspaceId := workspaceId
        workerClass := workerClass
        startup := false } :: args)

/-- The body of the loop over the schedules. -/
def visit (limits : ChronoLimits) (given : TickGiven) (tenantId : Uuid) (schedule : ReindexSchedule)
    (txn : SchedulerDb) (dispatches : List ReindexArgs) :
    Except WalkFailure (SchedulerDb × List ReindexArgs) :=
  match schedule.scheduledFor with
  | none => .ok (txn, dispatches)
  | some scheduledFor =>
      if !isDue scheduledFor given.tick then .ok (txn, dispatches)
      else do
        statement (given.readTenant tenantId)
        if !txn.active tenantId then .ok (txn, dispatches)
        else
          match nextRun limits schedule.interval given.tick with
          | none => .error (.invalidInterval tenantId schedule.interval)
          | some next => do
              statement (given.readWorkspaces tenantId)
              let args ← reindexArgs given (txn.workspacesOf tenantId)
              statement (given.updateSchedule tenantId)
              let txn ← txn.putOff tenantId next given.tick
              .ok (txn, dispatches ++ args)

/-- The loop over the schedules. -/
def walk (limits : ChronoLimits) (given : TickGiven) :
    List (Uuid × ReindexSchedule) → SchedulerDb → List ReindexArgs →
      Except WalkFailure (SchedulerDb × List ReindexArgs)
  | [], txn, dispatches => .ok (txn, dispatches)
  | (tenantId, schedule) :: rest, txn, dispatches => do
      let (txn, dispatches) ← visit limits given tenantId schedule txn dispatches
      walk limits given rest txn dispatches

/-- The schedules, in order of their tenants, and the loop over them. -/
def walkSchedules (limits : ChronoLimits) (given : TickGiven) (txn : SchedulerDb) :
    Except WalkFailure (SchedulerDb × List ReindexArgs) := do
  statement given.readSchedules
  walk limits given txn.schedules.entries txn []

/-! ## Dispatches -/

/-- What identifies a reindex job to the dispatcher. -/
def ReindexArgs.spec (args : ReindexArgs) : JobSpec where
  jobName := if args.startup then "startup_reindex" else "reindex"
  workspaceId := args.workspaceId
  workerClass := args.workerClass
  dispatchPayload :=
    [("lifecycle_id", (args.lifecycleId.map fun id => Json.string id.toString).getD .null),
      ("startup", .bool args.startup),
      ("worker_class", .string args.workerClass.asDbStr),
      ("workspace_id", .string args.workspaceId.toString)]
  workerName := "ReindexWorker"
  useQueueConcurrency := true

/-- `dispatch_reindex` within the transaction of a tick: what it returns, and the queue as the
transaction then sees it. -/
def dispatchReindex (texts : Texts) (given : DispatchGiven) (queue : QueueDb) (args : ReindexArgs) :
    Except String Uuid × QueueDb :=
  let recording := dispatchJob args.spec given.lifecycleId given.target given.policy
  match recording with
  | .refused _ diagnostic =>
      -- the record of the refusal is left out when it fails, and rolled back with the rest
      (.error diagnostic, (recording.record queue given.now).toOption.getD queue)
  | _ =>
      match given.record, recording.record queue given.now with
      | .error err, _ => (.error err, queue)
      | .ok (), .error err => (.error (texts.dbErr err), queue)
      | .ok (), .ok queue => (.ok given.lifecycleId, queue)

/-- `dispatch_reindex_batch`: the errors, and the queue after the batch. -/
def dispatchReindexBatch (texts : Texts) (given : TickGiven) :
    QueueDb → List ReindexArgs → List String × QueueDb
  | queue, [] => ([], queue)
  | queue, args :: rest =>
      let (result, queue) := dispatchReindex texts (given.dispatch args.workspaceId) queue args
      let (errors, queue) := dispatchReindexBatch texts given queue rest
      match result with
      | .ok _ => (errors, queue)
      | .error err => (("workspace " ++ args.workspaceId.toString ++ ": " ++ err) :: errors, queue)

/-! ## The tick -/

/-- The message of a failed tick or release, when there is a failure. -/
def schedulerFailureMessage (dispatchErrors : List String) (releaseError : Option String) :
    Option String :=
  if dispatchErrors.isEmpty then
    releaseError.map fun err => "reindex scheduler ownership release failed: " ++ err
  else
    let message := "reindex scheduler dispatch failed for " ++ toString dispatchErrors.length ++
      " workspace(s); schedule advancement rolled back: " ++ "; ".intercalate dispatchErrors
    some (match releaseError with
      | none => message
      | some err => message ++ "; scheduler ownership release also failed: " ++ err)

/-- The error of a result. -/
def errorOf (x : Except String Unit) : Option String :=
  match x with
  | .ok () => none
  | .error err => some err

/-- A result as the messages show it. -/
def debugResult (texts : Texts) (x : Except String Unit) : String :=
  match x with
  | .ok () => "Ok(())"
  | .error err => "Err(" ++ texts.debug err ++ ")"

/-- The message of a tick whose walk gave up. -/
def WalkFailure.message (texts : Texts) (release : Except String Unit) : WalkFailure → String
  | statement err => err
  | invalidInterval tenantId interval =>
      "invalid stored reindex interval for tenant " ++ tenantId.toString ++ ": " ++
        texts.debug interval ++ "; ownership release: " ++ debugResult texts release
  | workerClass workspaceId err =>
      "reindex scheduler: workspace " ++ workspaceId.toString ++ " target resolution failed: " ++
        err ++ "; ownership release: " ++ debugResult texts release

/-- `tick`: what it returns, and what is committed. -/
def tick (limits : ChronoLimits) (texts : Texts) (given : TickGiven) (db : SchedulerDb) :
    Except String Unit × SchedulerDb :=
  match given.ownership, given.begin with
  | .error err, _ => (.error ("scheduler ownership acquisition: " ++ err), db)
  | .ok false, _ => (.ok (), db)
  | .ok true, .error err => (.error ("scheduler ownership transaction: " ++ err), db)
  | .ok true, .ok () =>
      match walkSchedules limits given db with
      | .error failure => (.error (failure.message texts given.release), db)
      | .ok (txn, dispatches) =>
          let (errors, queue) := dispatchReindexBatch texts given txn.queue dispatches
          if !errors.isEmpty then
            (.error ((schedulerFailureMessage errors (errorOf given.release)).getD
              "reindex scheduler durable dispatch failed"), db)
          else
            let txn := { txn with queue := queue }
            match given.commit with
            | .failed err applied =>
                (.error ("scheduler ownership commit: " ++ err), if applied then txn else db)
            | .committed =>
                match schedulerFailureMessage errors (errorOf given.release) with
                | some message => (.error message, txn)
                | none => (.ok (), txn)

/-! ## What a tick that commits does -/

/-- The schedule of an active tenant has come to its time. -/
structure Due (db : SchedulerDb) (t : Instant) (tenantId : Uuid) (schedule : ReindexSchedule) :
    Prop where
  stored : db.schedules.get? tenantId = some schedule
  arrived : ∃ scheduledFor, schedule.scheduledFor = some scheduledFor ∧ scheduledFor ≤ t
  active : db.tenants.get? tenantId = some none

/-- The workspace belongs to a tenant whose schedule is due. -/
def DueWorkspace (db : SchedulerDb) (t : Instant) (workspaceId : Uuid) : Prop :=
  ∃ tenantId schedule, db.workspaces.get? workspaceId = some tenantId ∧ Due db t tenantId schedule

/-- The dispatch `id` is new, and for the workspace. -/
def Dispatches (queue queue' : QueueDb) (workspaceId id : Uuid) : Prop :=
  queue.outbox.get? id = none ∧
    ∃ d, queue'.outbox.get? id = some d ∧ d.workspaceId = some workspaceId

/-- The job `id` is queued and to be published: a reindex of the workspace. -/
structure ReindexQueued (queue : QueueDb) (workspaceId id : Uuid) : Prop where
  dispatch : ∃ d, queue.outbox.get? id = some d ∧ d.lifecycleId = some id ∧
    d.workspaceId = some workspaceId ∧ d.workerName = "ReindexWorker" ∧ d.publishedAt = none
  lifecycle : ∃ row, queue.lifecycles.get? id = some row ∧ row.jobName = "reindex" ∧
    row.workspaceId = some workspaceId ∧ row.status = .queued

/-- **A tick that commits**: every due schedule is put off to one interval after the tick, with
one reindex for each workspace of its tenant, and nothing else changes. -/
structure Ticked (limits : ChronoLimits) (t : Instant) (db db' : SchedulerDb) : Prop where
  advanced : ∀ tenantId schedule, Due db t tenantId schedule →
    ∃ every : Nat, parseInterval limits.maxSeconds schedule.interval = some every ∧
      t < t + every * 1000000 ∧
      db'.schedules.get? tenantId =
        some { schedule with scheduledFor := some (t + every * 1000000), updatedAt := t }
  untouched : ∀ tenantId, (∀ schedule, ¬ Due db t tenantId schedule) →
    db'.schedules.get? tenantId = db.schedules.get? tenantId
  directory : db'.tenants = db.tenants ∧ db'.workspaces = db.workspaces
  dispatched : ∀ workspaceId, DueWorkspace db t workspaceId →
    ∃! id, Dispatches db.queue db'.queue workspaceId id
  queued : ∀ workspaceId id, Dispatches db.queue db'.queue workspaceId id →
    DueWorkspace db t workspaceId ∧ ReindexQueued db'.queue workspaceId id
  others : ∀ id, (∀ workspaceId, ¬ Dispatches db.queue db'.queue workspaceId id) →
    db'.queue.outbox.get? id = db.queue.outbox.get? id ∧
      db'.queue.lifecycles.get? id = db.queue.lifecycles.get? id

/-! ## The walk -/

theorem nextRun_eq_some {limits : ChronoLimits} {interval : String} {t next : Instant}
    (h : nextRun limits interval t = some next) :
    ∃ every : Nat, parseInterval limits.maxSeconds interval = some every ∧
      t < t + every * 1000000 ∧ next = t + every * 1000000 := by
  obtain ⟨every, hfilter, hadd⟩ := Option.bind_eq_some_iff.mp h
  obtain ⟨hparse, hmin⟩ := Option.filter_eq_some_iff.mp hfilter
  have hpos : 5 * 60 ≤ every := of_decide_eq_true hmin
  unfold checkedAddSigned at hadd
  split_ifs at hadd
  cases hadd
  have hlater : (0 : Int) < every * 1000000 := by omega
  exact ⟨every, hparse, lt_add_of_pos_right t hlater, rfl⟩

/-- The entry of a schedule is due, for an active tenant. -/
def dueEntry (t : Instant) (tenants : OrderedMap Uuid (Option Instant))
    (e : Uuid × ReindexSchedule) : Bool :=
  (e.2.scheduledFor.any fun scheduledFor => isDue scheduledFor t) &&
    decide (tenants.get? e.1 = some none)

theorem due_iff {db : SchedulerDb} {t : Instant} {tenantId : Uuid} {schedule : ReindexSchedule} :
    Due db t tenantId schedule ↔
      (tenantId, schedule) ∈ db.schedules.entries ∧
        dueEntry t db.tenants (tenantId, schedule) = true := by
  rw [OrderedMap.mem_entries_iff]
  unfold dueEntry isDue
  simp only [Bool.and_eq_true, Option.any_eq_true, decide_eq_true_eq]
  exact ⟨fun h => ⟨h.stored, h.arrived, h.active⟩, fun h => ⟨h.1, h.2.1, h.2.2⟩⟩

theorem reindexArgs_eq_ok {given : TickGiven} {ids : List Uuid} {args : List ReindexArgs}
    (h : reindexArgs given ids = .ok args) :
    args.map ReindexArgs.workspaceId = ids ∧ ∀ a ∈ args, a.startup = false := by
  induction ids generalizing args with
  | nil =>
      cases h
      exact ⟨rfl, fun a ha => by cases ha⟩
  | cons id ids ih =>
      obtain ⟨workerClass, -, h⟩ := Except.bind_eq_ok.mp h
      obtain ⟨rest, hrest, h⟩ := Except.bind_eq_ok.mp h
      cases h
      obtain ⟨hids, hstartup⟩ := ih hrest
      refine ⟨congrArg (List.cons id) hids, fun a ha => ?_⟩
      rcases List.mem_cons.mp ha with rfl | ha
      · rfl
      · exact hstartup a ha

/-- **Inversion of a visit.** A schedule that is due is put off and its jobs are listed; any
other is passed over. -/
theorem visit_eq_ok {limits : ChronoLimits} {given : TickGiven} {tenantId : Uuid}
    {schedule : ReindexSchedule} {txn txn' : SchedulerDb} {ds ds' : List ReindexArgs}
    (h : visit limits given tenantId schedule txn ds = .ok (txn', ds')) :
    (dueEntry given.tick txn.tenants (tenantId, schedule) = false ∧ txn' = txn ∧ ds' = ds) ∨
      dueEntry given.tick txn.tenants (tenantId, schedule) = true ∧
        ∃ next row args, nextRun limits schedule.interval given.tick = some next ∧
          reindexArgs given (txn.workspacesOf tenantId) = .ok args ∧
          txn.schedules.get? tenantId = some row ∧
          txn' = { txn with
            schedules := txn.schedules.insert tenantId
              { row with scheduledFor := some next, updatedAt := given.tick } } ∧
          ds' = ds ++ args := by
  unfold visit at h
  unfold dueEntry
  split at h
  case h_1 hnone =>
    cases h
    exact Or.inl ⟨by simp [hnone], rfl, rfl⟩
  case h_2 scheduledFor hsome =>
    simp only [hsome, Option.any_some]
    by_cases hdue : isDue scheduledFor given.tick = true
    · simp only [hdue, Bool.not_true, Bool.false_eq_true, if_false] at h
      obtain ⟨-, -, h⟩ := Except.bind_eq_ok.mp h
      by_cases hactive : txn.active tenantId = true
      · simp only [hactive, Bool.not_true, Bool.false_eq_true, if_false] at h
        refine Or.inr ⟨by rw [hdue, Bool.true_and]; exact hactive, ?_⟩
        split at h
        · cases h
        · rename_i next hnext
          obtain ⟨-, -, h⟩ := Except.bind_eq_ok.mp h
          obtain ⟨args, hargs, h⟩ := Except.bind_eq_ok.mp h
          obtain ⟨-, -, h⟩ := Except.bind_eq_ok.mp h
          obtain ⟨txn₁, hput, h⟩ := Except.bind_eq_ok.mp h
          cases h
          unfold SchedulerDb.putOff at hput
          split at hput
          · cases hput
          · rename_i row hrow
            cases hput
            exact ⟨next, row, args, hnext, hargs, hrow, rfl, rfl⟩
      · have hinactive : txn.active tenantId = false := by simpa using hactive
        simp only [hinactive, Bool.not_false, if_true] at h
        cases h
        exact Or.inl ⟨by rw [hdue, Bool.true_and]; exact hinactive, rfl, rfl⟩
    · have hlater : isDue scheduledFor given.tick = false := by simpa using hdue
      simp only [hlater, Bool.not_false, if_true] at h
      cases h
      exact Or.inl ⟨by rw [hlater, Bool.false_and], rfl, rfl⟩

/-- What the walk over the entries `es` does to the transaction `txn`. -/
structure Walked (limits : ChronoLimits) (t : Instant) (es : List (Uuid × ReindexSchedule))
    (txn txn' : SchedulerDb) : Prop where
  advanced : ∀ e ∈ es, dueEntry t txn.tenants e = true →
    ∃ next, nextRun limits e.2.interval t = some next ∧
      txn'.schedules.get? e.1 = some { e.2 with scheduledFor := some next, updatedAt := t }
  untouched : ∀ tenantId, (∀ e ∈ es, dueEntry t txn.tenants e = true → e.1 ≠ tenantId) →
    txn'.schedules.get? tenantId = txn.schedules.get? tenantId
  tenants : txn'.tenants = txn.tenants
  workspaces : txn'.workspaces = txn.workspaces
  queue : txn'.queue = txn.queue

/-- The workspaces of the tenants whose schedules are due. -/
def dueWorkspaces (t : Instant) (es : List (Uuid × ReindexSchedule)) (db : SchedulerDb) :
    List Uuid :=
  (es.filter (dueEntry t db.tenants)).flatMap fun e => db.workspacesOf e.1

/-- **Run lemma of the walk.** -/
theorem walk_eq_ok {limits : ChronoLimits} {given : TickGiven} {es : List (Uuid × ReindexSchedule)}
    {txn txn' : SchedulerDb} {ds ds' : List ReindexArgs} (hnodup : (es.map Prod.fst).Nodup)
    (hstored : ∀ e ∈ es, txn.schedules.get? e.1 = some e.2)
    (h : walk limits given es txn ds = .ok (txn', ds')) :
    Walked limits given.tick es txn txn' ∧
      ∃ args, ds' = ds ++ args ∧
        args.map ReindexArgs.workspaceId = dueWorkspaces given.tick es txn ∧
        ∀ a ∈ args, a.startup = false := by
  induction es generalizing txn ds with
  | nil =>
      cases h
      refine ⟨⟨fun e he => ?_, fun _ _ => rfl, rfl, rfl, rfl⟩, [], (List.append_nil _).symm, rfl,
        fun a ha => ?_⟩
      · cases he
      · cases ha
  | cons e es ih =>
      obtain ⟨tenantId, schedule⟩ := e
      obtain ⟨⟨txn₁, ds₁⟩, hvisit, hwalk⟩ := Except.bind_eq_ok.mp h
      rw [List.map_cons, List.nodup_cons] at hnodup
      have hother : ∀ e ∈ es, e.1 ≠ tenantId := fun e he heq =>
        hnodup.1 (List.mem_map.mpr ⟨e, he, heq⟩)
      rcases visit_eq_ok hvisit with ⟨hskip, rfl, rfl⟩ |
        ⟨hdue, next, row, args, hnext, hargs, hrow, rfl, rfl⟩
      · obtain ⟨hwalked, args, hds, hids, hstartup⟩ := ih hnodup.2
          (fun e he => hstored e (List.mem_cons_of_mem _ he)) hwalk
        refine ⟨{ hwalked with
          advanced := fun e he hd => ?_
          untouched := fun k hk => hwalked.untouched k fun e he =>
            hk e (List.mem_cons_of_mem _ he) }, args, hds, ?_, hstartup⟩
        · rcases List.mem_cons.mp he with rfl | he
          · rw [hskip] at hd
            cases hd
          · exact hwalked.advanced e he hd
        · rw [hids]
          unfold dueWorkspaces
          rw [List.filter_cons_of_neg (by rw [hskip]; exact Bool.false_ne_true)]
      · obtain ⟨hwalked, rest, hds, hids, hstartup⟩ := ih hnodup.2 (fun e he => by
          rw [OrderedMap.get?_insert, if_neg (hother e he)]
          exact hstored e (List.mem_cons_of_mem _ he)) hwalk
        obtain rfl : row = schedule :=
          Option.some.inj (hrow.symm.trans (hstored (tenantId, schedule) List.mem_cons_self))
        obtain ⟨hargsIds, hargsStartup⟩ := reindexArgs_eq_ok hargs
        refine ⟨{ hwalked with
          advanced := fun e he hd => ?_
          untouched := fun k hk => ?_ }, args ++ rest, by rw [hds, List.append_assoc], ?_,
          fun a ha => (List.mem_append.mp ha).elim (hargsStartup a) (hstartup a)⟩
        · rcases List.mem_cons.mp he with rfl | he
          · refine ⟨next, hnext, ?_⟩
            rw [hwalked.untouched tenantId fun e he _ => hother e he]
            exact OrderedMap.get?_insert_self _ _ _
          · exact hwalked.advanced e he hd
        · rw [hwalked.untouched k fun e he => hk e (List.mem_cons_of_mem _ he)]
          exact (OrderedMap.get?_insert _ _ _ _).trans
            (if_neg (hk (tenantId, row) List.mem_cons_self hdue).symm)
        · rw [List.map_append, hargsIds, hids]
          unfold dueWorkspaces
          rw [List.filter_cons_of_pos hdue, List.flatMap_cons]
          rfl

/-! ## The batch -/

/-- The queue has new jobs, each for a workspace, under the ids of `rows`. -/
structure Adds (queue queue' : QueueDb) (rows : List (Uuid × Uuid)) : Prop where
  fresh : ∀ r ∈ rows, queue.outbox.get? r.2 = none
  queued : ∀ r ∈ rows, ReindexQueued queue' r.1 r.2
  others : ∀ id, id ∉ rows.map Prod.snd → queue'.outbox.get? id = queue.outbox.get? id ∧
    queue'.lifecycles.get? id = queue.lifecycles.get? id

theorem adds_nil (queue : QueueDb) : Adds queue queue [] where
  fresh := fun r hr => by cases hr
  queued := fun r hr => by cases hr
  others := fun _ _ => ⟨rfl, rfl⟩

theorem ReindexQueued.of_same {queue queue' : QueueDb} {workspaceId id : Uuid}
    (h : ReindexQueued queue workspaceId id)
    (hsame : queue'.outbox.get? id = queue.outbox.get? id ∧
      queue'.lifecycles.get? id = queue.lifecycles.get? id) :
    ReindexQueued queue' workspaceId id := by
  obtain ⟨hdispatch, hlifecycle⟩ := h
  rw [← hsame.1] at hdispatch
  rw [← hsame.2] at hlifecycle
  exact ⟨hdispatch, hlifecycle⟩

/-- One job more, before the others. -/
theorem Adds.cons {queue queue₁ queue' : QueueDb} {r : Uuid × Uuid} {rows : List (Uuid × Uuid)}
    (hr : Adds queue queue₁ [r]) (hrows : Adds queue₁ queue' rows) :
    Adds queue queue' (r :: rows) := by
  have hne : ∀ r' ∈ rows, r'.2 ≠ r.2 := fun r' hr' heq => by
    obtain ⟨d, hd, -⟩ := (hr.queued r List.mem_cons_self).dispatch
    have hnone := hrows.fresh r' hr'
    rw [heq, hd] at hnone
    cases hnone
  refine ⟨fun r' hr' => ?_, fun r' hr' => ?_, fun id hid => ?_⟩
  · rcases List.mem_cons.mp hr' with rfl | hr'
    · exact hr.fresh r' List.mem_cons_self
    · have hother : r'.2 ∉ [r].map Prod.snd := fun hmem =>
        hne r' hr' (List.mem_singleton.mp hmem)
      rw [← (hr.others r'.2 hother).1]
      exact hrows.fresh r' hr'
  · rcases List.mem_cons.mp hr' with rfl | hr'
    · refine (hr.queued r' List.mem_cons_self).of_same (hrows.others r'.2 fun hmem => ?_)
      obtain ⟨r₂, hr₂, heq⟩ := List.mem_map.mp hmem
      exact hne r₂ hr₂ heq
    · exact hrows.queued r' hr'
  · rw [List.map_cons, List.mem_cons, not_or] at hid
    have hfirst := hr.others id fun hmem => hid.1 (List.mem_singleton.mp hmem)
    have hrest := hrows.others id hid.2
    exact ⟨hrest.1.trans hfirst.1, hrest.2.trans hfirst.2⟩

/-- **One dispatch** that returns an id has recorded a job under it. -/
theorem dispatchReindex_eq_ok {texts : Texts} {given : DispatchGiven} {queue queue' : QueueDb}
    {args : ReindexArgs} {id : Uuid} (hstartup : args.startup = false)
    (h : dispatchReindex texts given queue args = (.ok id, queue')) :
    Adds queue queue' [(args.workspaceId, id)] := by
  rcases dispatchJob_cases args.spec given.lifecycleId given.target given.policy with
    ⟨diagnostic, hrefused⟩ | ⟨e, job, hjob, hid, hname, hworkspace, hpayload, hworker⟩
  · simp [dispatchReindex, hrefused, refuse] at h
  · simp only [dispatchReindex, hjob] at h
    split at h
    · cases h
    · cases h
    · rename_i queue₁ hrecord
      cases h
      obtain ⟨hfresh', hfresh, hlifecycles, houtbox⟩ := recordInTransaction_eq_ok hrecord
      rw [hid] at hfresh hlifecycles houtbox
      refine ⟨fun r hr => ?_, fun r hr => ?_, fun l hl => ?_⟩
      · rw [List.mem_singleton.mp hr]
        exact hfresh
      · rw [List.mem_singleton.mp hr]
        refine ⟨⟨_, houtbox.get?_self, rfl, ?_, hworker, rfl⟩,
          ⟨_, hlifecycles.get?_self, ?_, hworkspace, rfl⟩⟩
        · change payloadWorkspaceId (withLifecycleId job.payload given.lifecycleId) = _
          rw [payloadWorkspaceId_withLifecycleId, hpayload, JobSpec.payloadWorkspaceId_payload]
          rfl
        · change e.jobName = "reindex"
          rw [hname]
          exact if_neg (by rw [hstartup]; exact Bool.false_ne_true)
      · have hne : l ≠ given.lifecycleId := fun heq => hl (List.mem_singleton.mpr heq)
        exact ⟨houtbox.get?_ne hne, hlifecycles.get?_ne hne⟩

/-- **Run lemma of the batch.** Without errors there is one new job for each of the arguments. -/
theorem dispatchReindexBatch_eq_nil {texts : Texts} {given : TickGiven} {queue queue' : QueueDb}
    {args : List ReindexArgs} (hstartup : ∀ a ∈ args, a.startup = false)
    (h : dispatchReindexBatch texts given queue args = ([], queue')) :
    ∃ rows, Adds queue queue' rows ∧ rows.map Prod.fst = args.map ReindexArgs.workspaceId := by
  induction args generalizing queue with
  | nil =>
      cases h
      exact ⟨[], adds_nil _, rfl⟩
  | cons a args ih =>
      unfold dispatchReindexBatch at h
      cases hfirst : dispatchReindex texts (given.dispatch a.workspaceId) queue a with
      | mk result queue₁ =>
          cases hrest : dispatchReindexBatch texts given queue₁ args with
          | mk errors queue₂ =>
              simp only [hfirst, hrest] at h
              cases result with
              | error err => cases h
              | ok id =>
                  cases h
                  obtain ⟨rows, hadds, hids⟩ :=
                    ih (fun b hb => hstartup b (List.mem_cons_of_mem a hb)) hrest
                  have hone := dispatchReindex_eq_ok (hstartup a List.mem_cons_self) hfirst
                  exact ⟨(a.workspaceId, id) :: rows, hone.cons hadds,
                    congrArg (List.cons a.workspaceId) hids⟩

/-! ## One tick -/

theorem mem_workspacesOf {db : SchedulerDb} {tenantId workspaceId : Uuid} :
    workspaceId ∈ db.workspacesOf tenantId ↔ db.workspaces.get? workspaceId = some tenantId := by
  unfold SchedulerDb.workspacesOf
  rw [OrderedMap.mem_selected]
  simp

theorem mem_dueWorkspaces {t : Instant} {db : SchedulerDb} {workspaceId : Uuid} :
    workspaceId ∈ dueWorkspaces t db.schedules.entries db ↔ DueWorkspace db t workspaceId := by
  unfold dueWorkspaces DueWorkspace
  simp only [List.mem_flatMap, List.mem_filter, mem_workspacesOf, due_iff]
  constructor
  · rintro ⟨⟨tenantId, schedule⟩, hdue, hworkspace⟩
    exact ⟨tenantId, schedule, hworkspace, hdue⟩
  · rintro ⟨tenantId, schedule, hworkspace, hdue⟩
    exact ⟨(tenantId, schedule), hdue, hworkspace⟩

/-- No workspace is listed twice: it has one tenant, and a tenant one schedule. -/
theorem nodup_dueWorkspaces (t : Instant) (db : SchedulerDb) :
    (dueWorkspaces t db.schedules.entries db).Nodup := by
  unfold dueWorkspaces
  refine List.nodup_flatMap.mpr ⟨fun e _ => db.workspaces.nodup_selected _, ?_⟩
  have hkeys : db.schedules.entries.Pairwise fun e e' => e.1 ≠ e'.1 :=
    List.pairwise_map.mp db.schedules.nodup_keys
  refine (hkeys.filter _).imp fun {e e'} hne workspaceId hw hw' => hne ?_
  have howner := mem_workspacesOf.mp hw
  rw [mem_workspacesOf.mp hw'] at howner
  exact (Option.some.inj howner).symm

/-- The walk over the stored schedules and a batch without errors do what a committed tick does. -/
theorem ticked_of_walked {limits : ChronoLimits} {t : Instant} {db txn : SchedulerDb}
    {queue' : QueueDb} {rows : List (Uuid × Uuid)}
    (hwalked : Walked limits t db.schedules.entries db txn) (hadds : Adds db.queue queue' rows)
    (hids : rows.map Prod.fst = dueWorkspaces t db.schedules.entries db) :
    Ticked limits t db { txn with queue := queue' } := by
  -- a new dispatch is one of those that were recorded
  have hrow : ∀ workspaceId id, Dispatches db.queue queue' workspaceId id →
      (workspaceId, id) ∈ rows := by
    rintro workspaceId id ⟨hnone, d, hd, hdw⟩
    by_cases hmem : id ∈ rows.map Prod.snd
    · obtain ⟨⟨w, id'⟩, hr, rfl⟩ := List.mem_map.mp hmem
      obtain ⟨d', hd', -, hdw', -⟩ := (hadds.queued _ hr).dispatch
      obtain rfl : d' = d := Option.some.inj (hd'.symm.trans hd)
      obtain rfl : w = workspaceId := Option.some.inj (hdw'.symm.trans hdw)
      exact hr
    · rw [(hadds.others id hmem).1, hnone] at hd
      cases hd
  have hnodup : (rows.map Prod.fst).Nodup := hids ▸ nodup_dueWorkspaces t db
  exact
    { advanced := fun tenantId schedule hdue => by
        obtain ⟨hmem, hentry⟩ := due_iff.mp hdue
        obtain ⟨next, hnext, hget⟩ := hwalked.advanced (tenantId, schedule) hmem hentry
        obtain ⟨every, hparse, hlater, rfl⟩ := nextRun_eq_some hnext
        exact ⟨every, hparse, hlater, hget⟩
      untouched := fun tenantId hnot => hwalked.untouched tenantId fun e he hentry heq =>
        hnot e.2 (due_iff.mpr ⟨heq ▸ he, heq ▸ hentry⟩)
      directory := ⟨hwalked.tenants, hwalked.workspaces⟩
      dispatched := fun workspaceId hdue => by
        have hmem : workspaceId ∈ rows.map Prod.fst := hids ▸ mem_dueWorkspaces.mpr hdue
        obtain ⟨⟨w, id⟩, hr, rfl⟩ := List.mem_map.mp hmem
        obtain ⟨d, hd, -, hdw, -⟩ := (hadds.queued _ hr).dispatch
        refine ⟨id, ⟨hadds.fresh _ hr, d, hd, hdw⟩, fun id' hid' => ?_⟩
        have heq := List.inj_on_of_nodup_map hnodup (hrow w id' hid') hr rfl
        exact congrArg Prod.snd heq
      queued := fun workspaceId id hid => by
        have hr := hrow workspaceId id hid
        refine ⟨mem_dueWorkspaces.mp (hids ▸ List.mem_map_of_mem hr), hadds.queued _ hr⟩
      others := fun id hnot => hadds.others id fun hmem => by
        obtain ⟨⟨w, id'⟩, hr, rfl⟩ := List.mem_map.mp hmem
        obtain ⟨d, hd, -, hdw, -⟩ := (hadds.queued _ hr).dispatch
        exact hnot w ⟨hadds.fresh _ hr, d, hd, hdw⟩ }

/-- **All or nothing**, with what a tick returns: one that returns no error has committed, or
another owner was at it. -/
theorem tick_cases (limits : ChronoLimits) (texts : Texts) (given : TickGiven)
    (db : SchedulerDb) :
    ((tick limits texts given db).2 = db ∧
        ((tick limits texts given db).1 = .ok () → given.ownership = .ok false)) ∨
      Ticked limits given.tick db (tick limits texts given db).2 := by
  unfold tick
  split
  case h_1 err _ hownership => exact Or.inl ⟨rfl, fun h => by cases h⟩
  case h_2 hownership => exact Or.inl ⟨rfl, fun _ => hownership⟩
  case h_3 err hownership hbegin => exact Or.inl ⟨rfl, fun h => by cases h⟩
  case h_4 hownership hbegin =>
    split
    case h_1 failure hwalk => exact Or.inl ⟨rfl, fun h => by cases h⟩
    case h_2 txn dispatches hwalk =>
      obtain ⟨-, -, hwalk⟩ := Except.bind_eq_ok.mp hwalk
      obtain ⟨hwalked, args, hds, hids, hstartup⟩ := walk_eq_ok db.schedules.nodup_keys
        (fun e he => (OrderedMap.mem_entries_iff db.schedules e.1 e.2).mp he) hwalk
      rw [List.nil_append] at hds
      subst hds
      cases hbatch : dispatchReindexBatch texts given txn.queue dispatches with
      | mk errors queue =>
          cases errors with
          | cons err errors => exact Or.inl ⟨rfl, fun h => by cases h⟩
          | nil =>
              rw [hwalked.queue] at hbatch
              obtain ⟨rows, hadds, hrows⟩ := dispatchReindexBatch_eq_nil hstartup hbatch
              have hticked := ticked_of_walked hwalked hadds (hrows.trans hids)
              simp only [List.isEmpty_nil, Bool.not_true, Bool.false_eq_true, if_false]
              split
              case h_1 err applied hcommit =>
                cases applied with
                | false => exact Or.inl ⟨rfl, fun h => by cases h⟩
                | true => exact Or.inr hticked
              case h_2 hcommit =>
                split
                · exact Or.inr hticked
                · exact Or.inr hticked

/-! ## Runs -/

/-- A tick, or what happens between the ticks: a schedule is stored or removed, or tenants,
workspaces and the queue change. -/
inductive SchedulerEvent where
  | tick (given : TickGiven)
  | set (tenantId : Uuid) (schedule : ReindexSchedule)
  | clear (tenantId : Uuid)
  | change (tenants : OrderedMap Uuid (Option Instant)) (workspaces : OrderedMap Uuid Uuid)
      (queue : QueueDb)

/-- The event stores a schedule of the tenant anew. -/
def SchedulerEvent.sets (tenantId : Uuid) : SchedulerEvent → Prop
  | set l _ => l = tenantId
  | _ => False

/-- One step of a run. -/
def SchedulerDb.step (limits : ChronoLimits) (texts : Texts) (db : SchedulerDb) :
    SchedulerEvent → SchedulerDb
  | .tick given => (tick limits texts given db).2
  | .set tenantId schedule => { db with schedules := db.schedules.insert tenantId schedule }
  | .clear tenantId => { db with schedules := db.schedules.erase tenantId }
  | .change tenants workspaces queue =>
      { db with tenants := tenants, workspaces := workspaces, queue := queue }

/-- The schedule of the tenant is for the time `due`. -/
def ScheduledFor (db : SchedulerDb) (tenantId : Uuid) (due : Instant) : Prop :=
  ∃ schedule, db.schedules.get? tenantId = some schedule ∧ schedule.scheduledFor = some due

/-- A workspace of the tenant has a new dispatch, for the time `due` of its schedule. -/
def DispatchesFor (db db' : SchedulerDb) (tenantId : Uuid) (due : Instant) : Prop :=
  ScheduledFor db tenantId due ∧
    ∃ workspaceId id, db.workspaces.get? workspaceId = some tenantId ∧
      Dispatches db.queue db'.queue workspaceId id

/-- The schedule of the tenant, if there is one, is for a time after `due`. -/
def Past (tenantId : Uuid) (due : Instant) (db : SchedulerDb) : Prop :=
  ∀ next, ScheduledFor db tenantId next → due < next

section Runs

variable {limits : ChronoLimits} {texts : Texts}

/-- A schedule for an arrived time is put off beyond it, and none is moved otherwise. -/
theorem Ticked.scheduledFor {t : Instant} {db db' : SchedulerDb} (h : Ticked limits t db db')
    {tenantId : Uuid} {next : Instant} (hnext : ScheduledFor db' tenantId next) :
    ScheduledFor db tenantId next ∨
      t < next ∧ ∃ schedule, Due db t tenantId schedule := by
  by_cases hdue : ∃ schedule, Due db t tenantId schedule
  · obtain ⟨schedule, hdue⟩ := hdue
    obtain ⟨every, -, hlater, hget⟩ := h.advanced tenantId schedule hdue
    obtain ⟨schedule', hget', hfor⟩ := hnext
    rw [hget] at hget'
    cases hget'
    cases hfor
    exact Or.inr ⟨hlater, schedule, hdue⟩
  · obtain ⟨schedule, hget, hfor⟩ := hnext
    rw [h.untouched tenantId fun schedule hd => hdue ⟨schedule, hd⟩] at hget
    exact Or.inl ⟨schedule, hget, hfor⟩

/-- A tick that dispatches for a time leaves it behind. -/
theorem DispatchesFor.past {given : TickGiven} {db : SchedulerDb} {tenantId : Uuid}
    {due : Instant} (h : DispatchesFor db (tick limits texts given db).2 tenantId due) :
    Past tenantId due (tick limits texts given db).2 := by
  obtain ⟨⟨schedule, hget, hfor⟩, workspaceId, id, hworkspace, hdispatches⟩ := h
  rcases tick_cases limits texts given db with ⟨hsame, -⟩ | hticked
  · obtain ⟨hnone, d, hd, -⟩ := hdispatches
    rw [hsame, hnone] at hd
    cases hd
  · obtain ⟨⟨tenantId', schedule', hworkspace', hdue⟩, -⟩ :=
      hticked.queued workspaceId id hdispatches
    obtain rfl : tenantId' = tenantId := Option.some.inj (hworkspace'.symm.trans hworkspace)
    obtain rfl : schedule' = schedule := Option.some.inj (hdue.stored.symm.trans hget)
    obtain ⟨due', hdue', harrived⟩ := hdue.arrived
    obtain rfl : due' = due := Option.some.inj (hdue'.symm.trans hfor)
    intro next hnext
    obtain ⟨every, -, hlater, hadvanced⟩ := hticked.advanced tenantId' schedule' hdue
    obtain ⟨schedule₂, hget₂, hfor₂⟩ := hnext
    rw [hadvanced] at hget₂
    cases hget₂
    cases hfor₂
    exact lt_of_le_of_lt harrived hlater

/-- **Step lemma.** A time that is past stays past until the schedule is stored anew. -/
theorem past_step {tenantId : Uuid} {due : Instant} {db : SchedulerDb} {e : SchedulerEvent}
    (he : ¬ e.sets tenantId) (h : Past tenantId due db) :
    Past tenantId due (db.step limits texts e) := by
  intro next hnext
  cases e with
  | tick given =>
      rcases tick_cases limits texts given db with ⟨hsame, -⟩ | hticked
      · refine h next ?_
        change ScheduledFor (tick limits texts given db).2 tenantId next at hnext
        rwa [hsame] at hnext
      · rcases hticked.scheduledFor hnext with hold | ⟨hlater, schedule, hdue⟩
        · exact h next hold
        · obtain ⟨due', hdue', harrived⟩ := hdue.arrived
          have hpast := h due' ⟨schedule, hdue.stored, hdue'⟩
          exact (lt_of_lt_of_le hpast harrived).trans hlater
  | set l schedule =>
      obtain ⟨schedule', hget, hfor⟩ := hnext
      refine h next ⟨schedule', ?_, hfor⟩
      rwa [SchedulerDb.step, OrderedMap.get?_insert, if_neg fun heq => he heq.symm] at hget
  | clear l =>
      obtain ⟨schedule', hget, hfor⟩ := hnext
      exact h next ⟨schedule', (OrderedMap.get?_erase_eq_some hget).2, hfor⟩
  | change tenants workspaces queue => exact h next hnext

/-- **Run lemma.** -/
theorem past_run {tenantId : Uuid} {due : Instant} {db : SchedulerDb} {es : List SchedulerEvent}
    (hes : ∀ e ∈ es, ¬ e.sets tenantId) (h : Past tenantId due db) :
    Past tenantId due (Transition.run (SchedulerDb.step limits texts) db es) :=
  Transition.run_invariant (Past tenantId due) (fun _ _ hpast he => past_step he hpast) h
    (Transition.StepsMeet.of_mem hes db)

end Runs

/-! ## Main results -/

/-- **The scheduler is all or nothing.** Whatever is stored and whatever its calls return, a tick
changes nothing or does what `Ticked` says. So in every run a tick that moves a schedule has
dispatched a reindex for each workspace of its tenant, once, and a schedule that is not stored
anew is dispatched for ever later times. -/
theorem scheduler_all_or_nothing (limits : ChronoLimits) (texts : Texts) :
    (∀ given db, (tick limits texts given db).2 = db ∨
      Ticked limits given.tick db (tick limits texts given db).2) ∧
    ∀ (db₀ : SchedulerDb) (es : List SchedulerEvent) (given : TickGiven) (tenantId : Uuid)
      (due : Instant),
      let db := Transition.run (SchedulerDb.step limits texts) db₀ es
      let db' := db.step limits texts (.tick given)
      (ScheduledFor db tenantId due → ¬ ScheduledFor db' tenantId due →
        ∀ workspaceId, db.workspaces.get? workspaceId = some tenantId →
          ∃! id, Dispatches db.queue db'.queue workspaceId id) ∧
      ∀ (es' : List SchedulerEvent) (given' : TickGiven) (due' : Instant),
        (∀ e ∈ es', ¬ e.sets tenantId) →
        let later := Transition.run (SchedulerDb.step limits texts) db' es'
        DispatchesFor db db' tenantId due →
          DispatchesFor later (later.step limits texts (.tick given')) tenantId due' →
            due < due' := by
  refine ⟨fun given db => (tick_cases limits texts given db).imp_left And.left, ?_⟩
  intro db₀ es given tenantId due db db'
  refine ⟨fun hfor hmoved workspaceId hworkspace => ?_, ?_⟩
  · rcases tick_cases limits texts given db with ⟨hsame, -⟩ | hticked
    · have hkept : ScheduledFor db' tenantId due := by
        change ScheduledFor (tick limits texts given db).2 tenantId due
        rwa [hsame]
      exact absurd hkept hmoved
    · obtain ⟨schedule, hget, hdue⟩ := hfor
      by_cases hany : ∃ schedule, Due db given.tick tenantId schedule
      · obtain ⟨schedule', hdue'⟩ := hany
        exact hticked.dispatched workspaceId ⟨tenantId, schedule', hworkspace, hdue'⟩
      · refine absurd ⟨schedule, ?_, hdue⟩ hmoved
        rw [← hget]
        exact hticked.untouched tenantId fun schedule' hdue' => hany ⟨schedule', hdue'⟩
  · intro es' given' due' hes' later hfirst hagain
    have hpast : Past tenantId due db' := hfirst.past
    exact past_run hes' hpast due' hagain.1

/-! ## When a tick commits -/

/-- Every call of the tick succeeds, and the jobs get ids of their own. -/
structure Succeeds (given : TickGiven) : Prop where
  ownership : given.ownership = .ok true
  begin : given.begin = .ok ()
  readSchedules : given.readSchedules = .ok ()
  readTenant : ∀ tenantId, given.readTenant tenantId = .ok ()
  readWorkspaces : ∀ tenantId, given.readWorkspaces tenantId = .ok ()
  workerClass : ∀ workspaceId, ∃ c, given.workerClass workspaceId = .ok c
  updateSchedule : ∀ tenantId, given.updateSchedule tenantId = .ok ()
  target : ∀ workspaceId, ∃ target, (given.dispatch workspaceId).target = .ok target
  policy : ∀ workspaceId, ∃ policy, (given.dispatch workspaceId).policy = .ok policy
  record : ∀ workspaceId, (given.dispatch workspaceId).record = .ok ()
  lifecycleId : Function.Injective fun workspaceId => (given.dispatch workspaceId).lifecycleId
  commit : given.commit = .committed
  release : given.release = .ok ()

section Success

variable {limits : ChronoLimits} {texts : Texts} {given : TickGiven}

theorem reindexArgs_total (h : Succeeds given) (ids : List Uuid) :
    ∃ args, reindexArgs given ids = .ok args := by
  induction ids with
  | nil => exact ⟨[], rfl⟩
  | cons id ids ih =>
      obtain ⟨args, hargs⟩ := ih
      obtain ⟨c, hc⟩ := h.workerClass id
      rw [reindexArgs, hc, hargs]
      exact ⟨_, rfl⟩

theorem visit_total (h : Succeeds given) {txn : SchedulerDb} {tenantId : Uuid}
    {schedule : ReindexSchedule} (ds : List ReindexArgs)
    (hstored : txn.schedules.get? tenantId = some schedule)
    (hnext : dueEntry given.tick txn.tenants (tenantId, schedule) = true →
      (nextRun limits schedule.interval given.tick).isSome) :
    ∃ r, visit limits given tenantId schedule txn ds = .ok r := by
  unfold visit
  unfold dueEntry at hnext
  split
  case h_1 => exact ⟨_, rfl⟩
  case h_2 scheduledFor hsome =>
    simp only [hsome, Option.any_some, Bool.and_eq_true] at hnext
    by_cases hdue : isDue scheduledFor given.tick = true
    · rw [h.readTenant]
      by_cases hactive : txn.active tenantId = true
      · obtain ⟨next, hsome'⟩ := Option.isSome_iff_exists.mp (hnext ⟨hdue, hactive⟩)
        obtain ⟨args, hargs⟩ := reindexArgs_total h (txn.workspacesOf tenantId)
        obtain ⟨txn', hput⟩ : ∃ txn', txn.putOff tenantId next given.tick = .ok txn' := by
          unfold SchedulerDb.putOff
          rw [hstored]
          exact ⟨_, rfl⟩
        rw [h.readWorkspaces, h.updateSchedule, hargs, hsome', hdue, hactive]
        simp only [hput]
        exact ⟨_, rfl⟩
      · have hinactive : txn.active tenantId = false := by simpa using hactive
        rw [hdue, hinactive]
        exact ⟨_, rfl⟩
    · have hlater : isDue scheduledFor given.tick = false := by simpa using hdue
      rw [hlater]
      exact ⟨_, rfl⟩

theorem walk_total (h : Succeeds given) {es : List (Uuid × ReindexSchedule)} {txn : SchedulerDb}
    (ds : List ReindexArgs) (hnodup : (es.map Prod.fst).Nodup)
    (hstored : ∀ e ∈ es, txn.schedules.get? e.1 = some e.2)
    (hnext : ∀ e ∈ es, dueEntry given.tick txn.tenants e = true →
      (nextRun limits e.2.interval given.tick).isSome) :
    ∃ r, walk limits given es txn ds = .ok r := by
  induction es generalizing txn ds with
  | nil => exact ⟨_, rfl⟩
  | cons e es ih =>
      obtain ⟨tenantId, schedule⟩ := e
      rw [List.map_cons, List.nodup_cons] at hnodup
      obtain ⟨⟨txn₁, ds₁⟩, hvisit⟩ := visit_total h ds
        (hstored (tenantId, schedule) List.mem_cons_self)
        (hnext (tenantId, schedule) List.mem_cons_self)
      -- the other schedules and the tenants are as before
      have hkept : txn₁.tenants = txn.tenants ∧
          ∀ e ∈ es, txn₁.schedules.get? e.1 = txn.schedules.get? e.1 := by
        rcases visit_eq_ok hvisit with ⟨-, rfl, -⟩ | ⟨-, next, row, args, -, -, -, rfl, -⟩
        · exact ⟨rfl, fun _ _ => rfl⟩
        · refine ⟨rfl, fun e he => ?_⟩
          rw [OrderedMap.get?_insert, if_neg]
          exact fun heq => hnodup.1 (List.mem_map.mpr ⟨e, he, heq⟩)
      obtain ⟨r, hr⟩ := ih ds₁ hnodup.2
        (fun e he => (hkept.2 e he).trans (hstored e (List.mem_cons_of_mem _ he)))
        (fun e he hdue => hnext e (List.mem_cons_of_mem _ he) (hkept.1 ▸ hdue))
      refine ⟨r, ?_⟩
      rw [walk, hvisit]
      exact hr

/-- A reindex under a free id is recorded: it clashes with no other job. -/
theorem dispatchReindex_total (texts : Texts) (h : Succeeds given) (queue : QueueDb)
    {a : ReindexArgs} (hstartup : a.startup = false)
    (hfree : queue.lifecycles.get? (given.dispatch a.workspaceId).lifecycleId = none ∧
      queue.outbox.get? (given.dispatch a.workspaceId).lifecycleId = none) :
    ∃ queue', dispatchReindex texts (given.dispatch a.workspaceId) queue a =
      (.ok (given.dispatch a.workspaceId).lifecycleId, queue') := by
  obtain ⟨target, htarget⟩ := h.target a.workspaceId
  obtain ⟨policy, hpolicy⟩ := h.policy a.workspaceId
  rcases dispatchJob_cases a.spec (given.dispatch a.workspaceId).lifecycleId
    (given.dispatch a.workspaceId).target (given.dispatch a.workspaceId).policy with
    ⟨diagnostic, hrefused⟩ | ⟨e, job, hjob, hid, hname, -⟩
  · rw [htarget, hpolicy] at hrefused
    cases hrefused
  · have hname' : e.jobName = "reindex" := by
      rw [hname]
      exact if_neg (by rw [hstartup]; exact Bool.false_ne_true)
    rw [← hid] at hfree
    obtain ⟨lifecycles, hlifecycles⟩ := Table.insert_total Lifecycle.clash_symm
      (x := e.row (given.dispatch a.workspaceId).now) hfree.1 fun l y _ => by
        simp [Lifecycle.clash, Enqueue.row, hname']
    obtain ⟨outbox, houtbox⟩ := Table.insert_total (fun _ _ => rfl)
      (x := Job.newDispatch { job with payload := withLifecycleId job.payload e.id } (some e.id)
        none none) hfree.2 fun _ _ _ => rfl
    refine ⟨⟨lifecycles, outbox⟩, ?_⟩
    have hrecord : (Recording.job e job).record queue (given.dispatch a.workspaceId).now =
        .ok ⟨lifecycles, outbox⟩ := by
      change recordInTransaction queue e job (given.dispatch a.workspaceId).now = _
      rw [recordInTransaction, recordEnqueue, hlifecycles]
      exact congrArg (fun x => x.map fun o => (⟨lifecycles, o⟩ : QueueDb)) houtbox
    simp only [dispatchReindex, hjob, h.record, hrecord]

theorem dispatchReindexBatch_total (texts : Texts) (h : Succeeds given) {queue : QueueDb}
    {args : List ReindexArgs} (hstartup : ∀ a ∈ args, a.startup = false)
    (hnodup : (args.map ReindexArgs.workspaceId).Nodup)
    (hfree : ∀ a ∈ args,
      queue.lifecycles.get? (given.dispatch a.workspaceId).lifecycleId = none ∧
        queue.outbox.get? (given.dispatch a.workspaceId).lifecycleId = none) :
    ∃ queue', dispatchReindexBatch texts given queue args = ([], queue') := by
  induction args generalizing queue with
  | nil => exact ⟨queue, rfl⟩
  | cons a args ih =>
      rw [List.map_cons, List.nodup_cons] at hnodup
      have hfirst := hstartup a List.mem_cons_self
      obtain ⟨queue₁, hdispatch⟩ := dispatchReindex_total texts h queue hfirst
        (hfree a List.mem_cons_self)
      have hadds := dispatchReindex_eq_ok hfirst hdispatch
      have hfree₁ : ∀ b ∈ args,
          queue₁.lifecycles.get? (given.dispatch b.workspaceId).lifecycleId = none ∧
            queue₁.outbox.get? (given.dispatch b.workspaceId).lifecycleId = none := by
        intro b hb
        have hother : (given.dispatch b.workspaceId).lifecycleId ∉
            [(a.workspaceId, (given.dispatch a.workspaceId).lifecycleId)].map Prod.snd := by
          intro hmem
          have heq := h.lifecycleId (List.mem_singleton.mp hmem)
          exact hnodup.1 (List.mem_map.mpr ⟨b, hb, heq⟩)
        obtain ⟨houtbox, hlifecycles⟩ := hadds.others _ hother
        rw [houtbox, hlifecycles]
        exact hfree b (List.mem_cons_of_mem a hb)
      obtain ⟨queue', hrest⟩ :=
        ih (fun b hb => hstartup b (List.mem_cons_of_mem a hb)) hnodup.2 hfree₁
      refine ⟨queue', ?_⟩
      simp only [dispatchReindexBatch, hdispatch, hrest]

/-- **A tick commits** when its calls succeed, the due schedules have intervals that a schedule
may have, and the ids of the new jobs are free. -/
theorem tick_commits (h : Succeeds given) {db : SchedulerDb}
    (hnext : ∀ tenantId schedule, Due db given.tick tenantId schedule →
      (nextRun limits schedule.interval given.tick).isSome)
    (hfree : ∀ workspaceId,
      db.queue.lifecycles.get? (given.dispatch workspaceId).lifecycleId = none ∧
        db.queue.outbox.get? (given.dispatch workspaceId).lifecycleId = none) :
    (tick limits texts given db).1 = .ok () ∧
      Ticked limits given.tick db (tick limits texts given db).2 := by
  have hstored : ∀ e ∈ db.schedules.entries, db.schedules.get? e.1 = some e.2 := fun e he =>
    (OrderedMap.mem_entries_iff db.schedules e.1 e.2).mp he
  obtain ⟨⟨txn, args⟩, hwalk⟩ := walk_total h [] db.schedules.nodup_keys hstored
    fun e he hdue => hnext e.1 e.2 (due_iff.mpr ⟨he, hdue⟩)
  obtain ⟨hwalked, args', hds, hids, hstartup⟩ := walk_eq_ok db.schedules.nodup_keys hstored hwalk
  rw [List.nil_append] at hds
  subst hds
  have hargs : (args.map ReindexArgs.workspaceId).Nodup := hids ▸ nodup_dueWorkspaces given.tick db
  obtain ⟨queue', hbatch⟩ := dispatchReindexBatch_total texts h hstartup hargs
    fun a _ => hfree a.workspaceId
  rw [← hwalked.queue] at hbatch
  have hschedules : walkSchedules limits given db = .ok (txn, args) := by
    rw [walkSchedules, h.readSchedules]
    exact hwalk
  have hok : (tick limits texts given db).1 = .ok () := by
    simp [tick, h.ownership, h.begin, hschedules, hbatch, h.commit, h.release,
      schedulerFailureMessage, errorOf]
  refine ⟨hok, ?_⟩
  rcases tick_cases limits texts given db with ⟨-, helsewhere⟩ | hticked
  · have hfalse := helsewhere hok
    rw [h.ownership] at hfalse
    cases hfalse
  · exact hticked

end Success

/-- A tick whose calls all succeed. -/
def smoothTick (t : Instant) : TickGiven where
  tick := t
  ownership := .ok true
  begin := .ok ()
  readSchedules := .ok ()
  readTenant := fun _ => .ok ()
  readWorkspaces := fun _ => .ok ()
  workerClass := fun _ => .ok .shared
  updateSchedule := fun _ => .ok ()
  dispatch := fun workspaceId =>
    { lifecycleId := workspaceId
      target := .ok ⟨"worker-target:shared", "shared:shared"⟩
      policy := .ok ⟨"pro", some 4⟩
      now := t
      record := .ok () }
  commit := .committed
  release := .ok ()

/-- A tenant with two workspaces, whose schedule is due at 0. -/
def twoWorkspaces : SchedulerDb where
  schedules := OrderedMap.ofList [(1, ⟨"PT5M", none, some 0, 0⟩)]
  tenants := OrderedMap.ofList [(1, none)]
  workspaces := OrderedMap.ofList [(2, 1), (3, 1)]
  queue := QueueDb.empty

-- one job for each workspace, and the next tick finds nothing due
example :
    let db' := (tick ⟨2 ^ 53, 2 ^ 62⟩ ⟨id, fun _ => ""⟩ (smoothTick 10) twoWorkspaces).2
    db'.queue.outbox.count (fun _ _ => true) = 2 ∧ ScheduledFor db' 1 300000010 ∧
      (tick ⟨2 ^ 53, 2 ^ 62⟩ ⟨id, fun _ => ""⟩ (smoothTick 20) db').2.queue = db'.queue :=
  ⟨by decide, ⟨⟨"PT5M", none, some 300000010, 10⟩, by decide, rfl⟩,
    by decide⟩

end Yorishiro.Schedule
