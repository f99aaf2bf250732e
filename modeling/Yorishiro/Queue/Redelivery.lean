import Yorishiro.Entity.Workspace
import Yorishiro.Lib.Once
import Yorishiro.Tenancy.Operations

/-!
# Redelivered jobs

The queue may deliver a bulk job again: after a crash, after a retry, or while another worker is
still at it. Undoing a job, importing a file, filling defaults and confirming proposals each run
in one transaction that takes the job's lock, looks for the job's completion record in the audit
log, and otherwise checks the actor, does the work and records it.

`redelivery_once` says what that comes to, on both databases: however many deliveries of a job
there are and however they interleave, are lost or fail, its work is committed at most once, the
result that is served is that of the one delivery that did it, and a delivery that ends without
an error leaves the job completed.
-/

set_option autoImplicit false

namespace Yorishiro.Queue.Redelivery

open Yorishiro.Lib Yorishiro.Lib.Fence
open Yorishiro.Entity (UndoReport FillDefaultsReport ConfirmReport ImportProgress)
open Yorishiro.Tenancy (ApiKeyScope AuthContext Tx)

/-! ## The audit log -/

/-- The closed set of operations the audit log records. -/
inductive AuditAction where
  | undoMigrationJob
  | setMaintenance
  | reindexEmbeddings
  | fillDefaults
  | backgroundJobCompleted
deriving DecidableEq, Repr

/-- `as_db_str`. -/
def AuditAction.asDbStr : AuditAction → String
  | .undoMigrationJob => "undo_migration_job"
  | .setMaintenance => "set_maintenance"
  | .reindexEmbeddings => "reindex_embeddings"
  | .fillDefaults => "fill_defaults"
  | .backgroundJobCompleted => "background_job_completed"

/-- The acting key. -/
structure AuditActor where
  workspaceId : Uuid
  tenantId : Uuid
  apiKeyId : Uuid
  userId : Option Uuid
deriving DecidableEq, Repr

/-- A row of `api_key_audit_log`. -/
structure AuditRow where
  workspaceId : Uuid
  tenantId : Uuid
  apiKeyId : Option Uuid
  userId : Option Uuid
  action : String
  detail : Json
deriving DecidableEq

/-- The row that records an operation. -/
def AuditRow.of (actor : AuditActor) (action : AuditAction) (detail : Json) : AuditRow where
  workspaceId := actor.workspaceId
  tenantId := actor.tenantId
  apiKeyId := some actor.apiKeyId
  userId := actor.userId
  action := action.asDbStr
  detail := detail

/-- The row is the one `job_result` looks for. -/
def AuditRow.isResult (workspaceId jobId : Uuid) (action : AuditAction) (row : AuditRow) : Bool :=
  decide (row.workspaceId = workspaceId) && decide (row.action = action.asDbStr) &&
    decide (row.detail.get? "job_id" = some (.string jobId.toString))

/-- `job_result`. -/
def jobResult (rows : List AuditRow) (workspaceId jobId : Uuid) (action : AuditAction) :
    Option Json :=
  (rows.find? (AuditRow.isResult workspaceId jobId action)).map (·.detail)

/-- `job_completed`. -/
def jobCompleted (rows : List AuditRow) (workspaceId jobId : Uuid) (action : AuditAction) : Bool :=
  (jobResult rows workspaceId jobId action).isSome

/-! ## Transactions -/

/-- The audit log, the tables of tenancy, and the rest of the database. -/
structure BulkDb (V : Type) where
  audit : List AuditRow
  tenancy : Tenancy.Db
  rest : V

section Workers

variable {V : Type}

/-- A transaction of a worker. -/
abbrev BulkTx (V α : Type) := Script String (BulkDb V) YorishiroError α

/-- A transaction on the tables of tenancy. -/
def onTenancy {α : Type} (p : Tx α) : BulkTx V α :=
  p.zoom BulkDb.tenancy fun tenancy db => { db with tenancy := tenancy }

/-- A transaction on the rest of the database. -/
def onRest {α : Type} (p : Script String V YorishiroError α) : BulkTx V α :=
  p.zoom BulkDb.rest fun rest db => { db with rest := rest }

/-- `record`. -/
def record (actor : AuditActor) (action : AuditAction) (detail : Json) : BulkTx V Unit :=
  .update fun db => .ok ((), { db with audit := db.audit ++ [.of actor action detail] })

/-- `require_job_actor`. -/
def requireJobActor (actor : AuditActor) (required : ApiKeyScope) : Tx Unit := do
  Tenancy.lockMembership actor.tenantId
  let tenant ← Tenancy.getWorkspaceTenant actor.workspaceId
  Script.failIf (tenant ≠ actor.tenantId) .unauthenticated
  let current ← Tenancy.currentContext
    { apiKeyId := actor.apiKeyId
      workspaceId := actor.workspaceId
      tenantId := actor.tenantId
      scope := required
      userId := actor.userId
      audit := false }
  Script.ofExcept (Tenancy.requireScope current required)

/-! ## The workers -/

/-- What a bulk job does. -/
inductive BulkWork where
  | undo (snapshotJobId : Uuid)
  | importJsonl (jsonl : String)
  | fillDefaults (schemaName : String)
  | confirmProposals (inferenceJobId : Uuid)
deriving DecidableEq

/-- The arguments of a bulk job. -/
structure BulkArgs where
  actor : AuditActor
  work : BulkWork
deriving DecidableEq

/-- What the workers call, on the rest of the database. -/
structure BulkCalls (V : Type) where
  undoJob (workspaceId snapshotJobId : Uuid) : Script String V YorishiroError UndoReport
  quotas (tenantId : Uuid) : Script String V YorishiroError (Option Int)
  importWithQuota (tenantId workspaceId : Uuid) (importedBy : Option Uuid) (jsonl : String)
    (entityQuota : Option Int) : Script String V YorishiroError ImportProgress
  enqueueAfterWrite (workspaceId entityId : Uuid) : Script String V YorishiroError Unit
  fillDefaults (workspaceId : Uuid) (schemaName : String) (jobId : Uuid) (updatedBy : Option Uuid) :
    Script String V YorishiroError FillDefaultsReport
  confirm (workspaceId inferenceJobId : Uuid) (updatedBy : Option Uuid) :
    Script String V YorishiroError ConfirmReport

/-- The lock that concurrent deliveries of a job serialize on. -/
def jobLock (kind : String) (id : Uuid) : String := kind ++ ":" ++ id.toString

/-- The part of a delivery that does the work: checks the actor, does the work and records its
detail. -/
def attempt (action : AuditAction) (required : ApiKeyScope) (actor : AuditActor)
    (work : Script String V YorishiroError Json) : BulkTx V Json := do
  onTenancy (requireJobActor actor required)
  let detail ← onRest work
  record actor action detail
  pure detail

/-- What the four workers share: a delivery ends when the job is recorded as completed, and does
the work otherwise. -/
def completeOnce (kind : String) (action : AuditAction) (required : ApiKeyScope)
    (actor : AuditActor) (id : Uuid) (work : Script String V YorishiroError Json) :
    BulkTx V (Option Json) := do
  Script.acquire (jobLock kind id)
  let completed ← Script.read fun db => jobCompleted db.audit actor.workspaceId id action
  if completed then pure none
  else do
    let detail ← attempt action required actor work
    pure (some detail)

/-- A number in a detail. -/
def count (n : Nat) : Json := .number (.int n)

variable (calls : BulkCalls V)

/-- What `restore` does, and the detail it records. -/
def undoWork (actor : AuditActor) (snapshotJobId id : Uuid) :
    Script String V YorishiroError Json := do
  let report ← calls.undoJob actor.workspaceId snapshotJobId
  pure (.object
    [ ("job_id", .string id.toString),
      ("missing", count report.missing),
      ("restored", count report.restored),
      ("snapshot_job_id", .string snapshotJobId.toString) ])

/-- `restore`. -/
def restore (lifecycleId : Option Uuid) (actor : AuditActor) (snapshotJobId : Uuid) :
    BulkTx V (Option Json) := do
  let id ← Script.orFail (.internal (.custom "undo lifecycle missing")) lifecycleId
  completeOnce "undo" .undoMigrationJob .migration actor id
    (undoWork calls actor snapshotJobId id)

/-- Enqueues the embedding of each imported entity. -/
def enqueueAll (workspaceId : Uuid) : List Uuid → Script String V YorishiroError Unit
  | [] => pure ()
  | entity :: entities => do
      calls.enqueueAfterWrite workspaceId entity
      enqueueAll workspaceId entities

/-- What `import` does, and the detail it records. -/
def importWork (actor : AuditActor) (jsonl : String) (id : Uuid) :
    Script String V YorishiroError Json := do
  let quota ← calls.quotas actor.tenantId
  let result ← calls.importWithQuota actor.tenantId actor.workspaceId actor.userId jsonl quota
  enqueueAll calls actor.workspaceId result.entityIds
  pure (.object
    [ ("entities", count result.entities),
      ("job_id", .string id.toString),
      ("relations", count result.relations),
      ("schemas", count result.schemas) ])

/-- `import`. -/
def importJob (lifecycleId : Option Uuid) (actor : AuditActor) (jsonl : String) :
    BulkTx V (Option Json) := do
  let id ← Script.orFail (.internal (.custom "import lifecycle missing")) lifecycleId
  completeOnce "import" .backgroundJobCompleted .schema actor id
    (importWork calls actor jsonl id)

/-- What `fill` does, and the detail it records. -/
def fillWork (actor : AuditActor) (schemaName : String) (id : Uuid) :
    Script String V YorishiroError Json := do
  let report ← calls.fillDefaults actor.workspaceId schemaName id actor.userId
  pure (.object
    [ ("entities_updated", count report.entitiesUpdated),
      ("fields_filled", count report.fieldsFilled),
      ("job_id", .string id.toString),
      ("schema_name", .string schemaName) ])

/-- `fill`. -/
def fill (lifecycleId : Option Uuid) (actor : AuditActor) (schemaName : String) :
    BulkTx V (Option Json) := do
  let id ← Script.orFail (.internal (.custom "fill-defaults lifecycle missing")) lifecycleId
  completeOnce "fill-defaults" .fillDefaults .migration actor id
    (fillWork calls actor schemaName id)

/-- What `confirm` does, and the detail it records. -/
def confirmWork (actor : AuditActor) (inferenceJobId id : Uuid) :
    Script String V YorishiroError Json := do
  let report ← calls.confirm actor.workspaceId inferenceJobId actor.userId
  pure (.object
    [ ("confirmed", count report.confirmed),
      ("inference_job_id", .string inferenceJobId.toString),
      ("invalid", count report.invalid),
      ("job_id", .string id.toString),
      ("stale", count report.stale) ])

/-- `confirm`. -/
def confirm (lifecycleId : Option Uuid) (actor : AuditActor) (inferenceJobId : Uuid) :
    BulkTx V (Option Json) := do
  let id ← Script.orFail (.internal (.custom "confirmation lifecycle missing")) lifecycleId
  completeOnce "confirm-proposals" .backgroundJobCompleted .schema actor id
    (confirmWork calls actor inferenceJobId id)

/-- `perform`, for a delivery of the job `lifecycleId` with the arguments the queue keeps. -/
def perform (lifecycleId : Option Uuid) (args : BulkArgs) : BulkTx V (Option Json) :=
  match args.work with
  | .undo snapshotJobId => restore calls lifecycleId args.actor snapshotJobId
  | .importJsonl jsonl => importJob calls lifecycleId args.actor jsonl
  | .fillDefaults schemaName => fill calls lifecycleId args.actor schemaName
  | .confirmProposals inferenceJobId => confirm calls lifecycleId args.actor inferenceJobId

/-! ## Deliveries -/

/-- The name of a kind of work in its lock. -/
def BulkWork.kind : BulkWork → String
  | .undo _ => "undo"
  | .importJsonl _ => "import"
  | .fillDefaults _ => "fill-defaults"
  | .confirmProposals _ => "confirm-proposals"

/-- The operation a kind of work is recorded as. -/
def BulkWork.action : BulkWork → AuditAction
  | .undo _ => .undoMigrationJob
  | .importJsonl _ => .backgroundJobCompleted
  | .fillDefaults _ => .fillDefaults
  | .confirmProposals _ => .backgroundJobCompleted

/-- The results recorded for a job. -/
def resultsOf (jobs : Uuid → BulkArgs) (db : BulkDb V) (id : Uuid) : List Json :=
  (db.audit.filter
    (AuditRow.isResult (jobs id).actor.workspaceId id (jobs id).work.action)).map (·.detail)

/-- The result that is served for a job. -/
def resultOf (jobs : Uuid → BulkArgs) (db : BulkDb V) (id : Uuid) : Option Json :=
  jobResult db.audit (jobs id).actor.workspaceId id (jobs id).work.action

/-- The completion records are the marks of the jobs. -/
def completions (jobs : Uuid → BulkArgs) : Marks Uuid String (BulkDb V) Json where
  name := fun id => jobLock (jobs id).work.kind id
  found := resultsOf jobs

/-- What others do to the database while the workspaces of the jobs are there. -/
inductive Other (V : Type) where
  | rest (f : V → V)
  | tenancy (f : Tenancy.Db → Tenancy.Db)
  /-- An operation that is not a bulk job is recorded. -/
  | recorded (actor : AuditActor) (detail : Json) (reindexed : Bool)
  /-- A user is deleted, and the rows that name it name nobody. -/
  | userDeleted (user : Uuid)

/-- The database after the others. -/
def otherwise : Other V → BulkDb V → BulkDb V
  | .rest f, db => { db with rest := f db.rest }
  | .tenancy f, db => { db with tenancy := f db.tenancy }
  | .recorded actor detail reindexed, db =>
      { db with
        audit := db.audit ++
          [.of actor (if reindexed then .reindexEmbeddings else .setMaintenance) detail] }
  | .userDeleted user, db =>
      { db with
        audit := db.audit.map fun row =>
          { row with userId := row.userId.filter fun id => decide (id ≠ user) } }

/-- The transaction of a delivery of the job `id`, with the arguments that the queue keeps. -/
def delivery (jobs : Uuid → BulkArgs) (id : Uuid) : BulkTx V (Option Json) :=
  perform calls (some id) (jobs id)

theorem resultOf_eq_head? (jobs : Uuid → BulkArgs) (db : BulkDb V) (id : Uuid) :
    resultOf jobs db id = (resultsOf jobs db id).head? := by
  unfold resultOf jobResult resultsOf
  rw [List.head?_map, List.head?_filter]

/-! ## A delivery does the work or finds the record -/

/-- The scope a kind of work requires. -/
def BulkWork.required : BulkWork → ApiKeyScope
  | .undo _ => .migration
  | .importJsonl _ => .schema
  | .fillDefaults _ => .migration
  | .confirmProposals _ => .schema

/-- What a job does, and the detail it records. -/
def detailOf (args : BulkArgs) (id : Uuid) : Script String V YorishiroError Json :=
  match args.work with
  | .undo snapshotJobId => undoWork calls args.actor snapshotJobId id
  | .importJsonl jsonl => importWork calls args.actor jsonl id
  | .fillDefaults schemaName => fillWork calls args.actor schemaName id
  | .confirmProposals inferenceJobId => confirmWork calls args.actor inferenceJobId id

/-- A delivery that does the work. -/
def attemptOf (jobs : Uuid → BulkArgs) (id : Uuid) : BulkTx V Json :=
  attempt (jobs id).work.action (jobs id).work.required (jobs id).actor
    (detailOf calls (jobs id) id)

theorem perform_eq (args : BulkArgs) (id : Uuid) :
    perform calls (some id) args =
      completeOnce args.work.kind args.work.action args.work.required args.actor id
        (detailOf calls args id) := by
  obtain ⟨actor, work⟩ := args
  cases work with
  | undo snapshotJobId => rfl
  | importJsonl jsonl => rfl
  | fillDefaults schemaName => rfl
  | confirmProposals inferenceJobId => rfl

theorem jobCompleted_eq (jobs : Uuid → BulkArgs) (db : BulkDb V) (id : Uuid) :
    jobCompleted db.audit (jobs id).actor.workspaceId id (jobs id).work.action =
      !(resultsOf jobs db id).isEmpty := by
  have hhead := resultOf_eq_head? jobs db id
  unfold resultOf at hhead
  unfold jobCompleted
  rw [hhead]
  cases resultsOf jobs db id with
  | nil => rfl
  | cons detail details => rfl

theorem delivery_eq_once (jobs : Uuid → BulkArgs) (id : Uuid) :
    delivery calls jobs id = (completions jobs).once id (attemptOf calls jobs id) := by
  unfold delivery
  rw [perform_eq]
  unfold completeOnce Marks.once
  simp only [jobCompleted_eq]
  rfl

/-- What the last script returns, whatever comes before it. -/
theorem returns_bind {α β : Type} {P : β → Prop} (p : Script String V YorishiroError α)
    {f : α → Script String V YorishiroError β} (hf : ∀ a, (f a).Effects fun _ r _ => P r) :
    (p >>= f).Effects fun _ r _ => P r :=
  (Script.effects_true p).bind hf fun _ _ _ _ _ _ h => h

theorem returns_pure {β : Type} {P : β → Prop} {r : β} (h : P r) :
    (pure r : Script String V YorishiroError β).Effects fun _ r _ => P r := fun _ => h

/-- Every kind of work records the id of its job. -/
theorem effects_detailOf (args : BulkArgs) (id : Uuid) :
    (detailOf calls args id).Effects fun _ detail _ =>
      detail.get? "job_id" = some (.string id.toString) := by
  obtain ⟨actor, work⟩ := args
  cases work with
  | undo snapshotJobId => exact returns_bind _ fun _ => returns_pure rfl
  | importJsonl jsonl =>
      exact returns_bind _ fun _ => returns_bind _ fun _ => returns_bind _ fun _ =>
        returns_pure rfl
  | fillDefaults schemaName => exact returns_bind _ fun _ => returns_pure rfl
  | confirmProposals inferenceJobId => exact returns_bind _ fun _ => returns_pure rfl

theorem quiet_requireJobActor (actor : AuditActor) (required : ApiKeyScope) :
    Script.Quiet (requireJobActor actor required) :=
  Script.Within.bind (Tenancy.quiet_lockMembership _) fun _ =>
    Script.Within.bind (Tenancy.quiet_getWorkspaceTenant _) fun _ =>
      Script.Within.bind (Script.within_failIf _ _) fun _ =>
        Script.Within.bind (Tenancy.quiet_currentContext _) fun _ => Script.within_ofExcept _

theorem isResult_of (jobs : Uuid → BulkArgs) {id : Uuid} {detail : Json}
    (hdetail : detail.get? "job_id" = some (.string id.toString)) (other : Uuid)
    (row : AuditRow) (hrow : row = .of (jobs id).actor (jobs id).work.action detail) :
    row.isResult (jobs other).actor.workspaceId other (jobs other).work.action =
      decide (id = other) := by
  subst hrow
  by_cases h : id = other
  · subst h
    simp [AuditRow.isResult, AuditRow.of, hdetail]
  · have hne : id.toString ≠ other.toString := fun heq => h (Uuid.toString_injective heq)
    simp [AuditRow.isResult, AuditRow.of, hdetail, h, hne]

theorem effects_record (actor : AuditActor) (action : AuditAction) (detail : Json) :
    (record actor action detail : BulkTx V Unit).Effects fun d u d' =>
      u = () ∧ d'.audit = d.audit ++ [.of actor action detail] := by
  refine Script.effects_update fun d u d' h => ?_
  cases h
  exact ⟨rfl, rfl⟩

theorem effects_onRest {α : Type} {P : α → Prop} {p : Script String V YorishiroError α}
    (hp : p.Effects fun _ r _ => P r) :
    (onRest p).Effects fun d r d' => P r ∧ d'.audit = d.audit := by
  have hzoom := Script.Effects.zoom (BulkDb.rest : BulkDb V → V)
    (fun rest db => { db with rest := rest }) (fun _ => rfl) (fun _ _ => rfl) (fun _ _ _ => rfl) hp
  refine hzoom.mono fun d r d' hr => ?_
  obtain ⟨rest, hr, rfl⟩ := hr
  exact ⟨hr, rfl⟩

/-- A delivery that does the work records the result of its job, and of no other. -/
theorem effects_attemptOf (jobs : Uuid → BulkArgs) (id : Uuid) :
    (attemptOf calls jobs id).Effects fun d detail d' =>
      (completions jobs).Adds id detail d d' := by
  have hquiet : Script.Quiet (onTenancy (requireJobActor (jobs id).actor (jobs id).work.required) :
      BulkTx V Unit) := (quiet_requireJobActor _ _).zoom _ _
  refine hquiet.effects_bind fun _ => ?_
  refine (effects_onRest (effects_detailOf calls (jobs id) id)).bind
    (fun detail => (effects_record _ _ detail).seq fun _ => Script.effects_pure detail) ?_
  rintro d detail d₁ r d₂ ⟨hdetail, haudit⟩ ⟨_, d₃, ⟨-, hrow⟩, rfl, rfl⟩ other
  change resultsOf jobs d₂ other = resultsOf jobs d other ++ _
  unfold resultsOf
  rw [hrow, haudit, List.filter_append, List.map_append, List.filter_singleton,
    isResult_of jobs hdetail other _ rfl]
  by_cases h : id = other
  · simp [h, AuditRow.of]
  · simp [h]

theorem asDbStr_injective : Function.Injective AuditAction.asDbStr := by
  intro a b h
  cases a <;> cases b <;> first | rfl | exact absurd h (by decide)

/-- The operations that are not bulk jobs are recorded as something else. -/
theorem action_ne (work : BulkWork) (reindexed : Bool) :
    (if reindexed then AuditAction.reindexEmbeddings else .setMaintenance) ≠ work.action := by
  cases reindexed <;> cases work <;> exact fun h => (nomatch h)

theorem isResult_other (jobs : Uuid → BulkArgs) (id : Uuid) (actor : AuditActor) (detail : Json)
    (reindexed : Bool) :
    (AuditRow.of actor (if reindexed then .reindexEmbeddings else .setMaintenance) detail).isResult
      (jobs id).actor.workspaceId id (jobs id).work.action = false := by
  have haction := asDbStr_injective.ne (action_ne (jobs id).work reindexed)
  simp [AuditRow.isResult, AuditRow.of, haction]

/-- What others do leaves the results of the jobs. -/
theorem keeps_otherwise (jobs : Uuid → BulkArgs) (e : Other V) (d : BulkDb V) :
    (completions jobs).Keeps d (otherwise e d) := by
  intro id
  cases e with
  | rest f => rfl
  | tenancy f => rfl
  | recorded actor detail reindexed =>
      change resultsOf jobs _ id = resultsOf jobs d id
      unfold resultsOf otherwise
      rw [List.filter_append, List.filter_singleton, isResult_other, List.map_append]
      exact List.append_nil _
  | userDeleted user =>
      change resultsOf jobs _ id = resultsOf jobs d id
      unfold resultsOf otherwise
      rw [List.filter_map, List.map_map]
      rfl

/-! ## However often a job is delivered -/

/-- What has become of the jobs since the database was `db₀`: a job's work has been committed at
most once, the result served for it is that of the delivery that did the work, or the one there
was, a delivery that has ended left the job completed, and one that did no work changed
nothing. -/
structure DoneOnce (jobs : Uuid → BulkArgs) (db₀ : BulkDb V)
    (w : State Uuid (BulkDb V) (Option Json)) : Prop where
  atMostOnce : ∀ id, (resultOf jobs db₀ id).toList.length +
    (w.log.filter fun e => decide (e.job = id) && e.result.isSome).length ≤ 1
  result : ∀ id, resultOf jobs w.db id = (resultOf jobs db₀ id).or
    (w.log.findSome? fun e => if e.job = id then e.result else none)
  completed : ∀ e ∈ w.log, (resultOf jobs w.db e.job).isSome = true
  idle : ∀ e ∈ w.log, e.result = none → e.after = e.before

theorem length_performed {σ : Type} (log : List (Entry Uuid σ (Option Json))) (id : Uuid) :
    (Marks.performed log id).length =
      (log.filter fun e => decide (e.job = id) && e.result.isSome).length := by
  unfold Marks.performed
  rw [List.length_filterMap_eq_countP, List.countP_eq_length_filter]
  congr 2
  funext e
  by_cases h : e.job = id
  · simp [h]
  · simp [h]

theorem doneOnce_of_onceOnly {jobs : Uuid → BulkArgs} {db₀ : BulkDb V}
    {w : State Uuid (BulkDb V) (Option Json)} (h : (completions jobs).OnceOnly db₀ w) :
    DoneOnce jobs db₀ w where
  atMostOnce := fun id => by
    have hmarks : resultsOf jobs w.db id = resultsOf jobs db₀ id ++ Marks.performed w.log id :=
      h.marks id
    have hlen : (resultsOf jobs w.db id).length ≤ 1 := h.atMostOnce id
    rw [hmarks, List.length_append] at hlen
    have hhead : (resultOf jobs db₀ id).toList.length ≤ (resultsOf jobs db₀ id).length := by
      rw [resultOf_eq_head?]
      cases resultsOf jobs db₀ id with
      | nil => exact le_refl 0
      | cons detail details => exact Nat.succ_le_succ (Nat.zero_le _)
    rw [← length_performed]
    omega
  result := fun id => by
    have hmarks : resultsOf jobs w.db id = resultsOf jobs db₀ id ++ Marks.performed w.log id :=
      h.marks id
    rw [resultOf_eq_head?, resultOf_eq_head?, hmarks, List.head?_append, Marks.performed,
      List.head?_filterMap]
  completed := fun e he => by
    have hsettled : resultsOf jobs w.db e.job ≠ [] := h.settled e he
    rw [resultOf_eq_head?, List.isSome_head?]
    simpa using hsettled
  idle := h.idle

variable (jobs : Uuid → BulkArgs)

/-- **However often a job is delivered, it is done once.** Whatever the workers do to the rest of
the database, and however their deliveries interleave, are lost or fail: on PostgreSQL, where
deliveries of a job wait for each other's lock, and on SQLite, where a single transaction writes at
a time; on both, other transactions commit meanwhile. The log has the deliveries that have
committed: on SQLite those that have changed something, as one that finds the record does not. -/
theorem redelivery_once (db₀ : BulkDb V) (h₀ : ∀ id, (resultsOf jobs db₀ id).length ≤ 1)
    (postgres sqlite : List (Event Uuid (Other V))) :
    DoneOnce jobs db₀ (Transition.run (Server.step (delivery calls jobs) otherwise)
        (Server.init db₀) postgres).state ∧
      DoneOnce jobs db₀ (Transition.run (SingleWriter.Server.step (delivery calls jobs) otherwise)
        (SingleWriter.Server.init db₀) sqlite).state :=
  ⟨doneOnce_of_onceOnly (Marks.onceOnly_run (delivery_eq_once calls jobs)
      (effects_attemptOf calls jobs) (keeps_otherwise jobs) h₀ postgres),
    doneOnce_of_onceOnly (Marks.onceOnly_single (delivery_eq_once calls jobs)
      (effects_attemptOf calls jobs) (keeps_otherwise jobs) h₀ sqlite)⟩

end Workers

/-! ## Two deliveries of one job -/

/-- A service key with migration scope, in the one workspace of a tenant. -/
def serviceTenant : Tenancy.Db :=
  let db := (Tenancy.Setup.workspace 20 ⟨1, "main"⟩).apply
    ((Tenancy.Setup.tenant 1 "acme").apply (.empty 0))
  { db with
    keys := ⟨OrderedMap.empty.insert 30
      { tenantId := 1, workspaceId := some 20, userId := none, keyHash := [], keyPrefix := "ys",
        name := "service", scope := .migration, audit := false, expiresAt := none,
        revokedAt := none, replacedById := none, createdAt := 0 },
      List.pairwise_singleton _ _⟩ }

/-- Workers that undo a job by listing it, and refuse everything else. -/
def listing : BulkCalls (List Uuid) where
  undoJob := fun _ id => do
    .update fun undone => .ok ((), id :: undone)
    pure { jobId := id, restored := 1, missing := 0 }
  quotas := fun _ => pure none
  importWithQuota := fun _ _ _ _ _ => .fail .unauthenticated
  enqueueAfterWrite := fun _ _ => .fail .unauthenticated
  fillDefaults := fun _ _ _ _ => .fail .unauthenticated
  confirm := fun _ _ _ => .fail .unauthenticated

/-- Every job undoes the job 7. -/
def undoSeven (_ : Uuid) : BulkArgs := ⟨⟨20, 1, 30, none⟩, .undo 7⟩

/-- Two deliveries of the job 5, the second of which begins while the first is at work. -/
def twice {η : Type} : List (Event Uuid η) :=
  [.start 0 5, .start 1 5] ++ Event.steps 0 3 ++ Event.steps 1 2 ++ Event.steps 0 12 ++
    Event.steps 1 12

/-- Both deliveries end, and one has done the work. -/
theorem delivered_twice :
    DoneOnce undoSeven ⟨[], serviceTenant, []⟩
        (Transition.run (Server.step (delivery listing undoSeven) otherwise)
          (Server.init ⟨[], serviceTenant, []⟩) twice).state ∧
      DoneOnce undoSeven ⟨[], serviceTenant, []⟩
        (Transition.run (SingleWriter.Server.step (delivery listing undoSeven) otherwise)
          (SingleWriter.Server.init ⟨[], serviceTenant, []⟩) twice).state :=
  redelivery_once listing undoSeven ⟨[], serviceTenant, []⟩ (fun _ => Nat.zero_le 1) twice twice

set_option maxRecDepth 2048 in
example :
    ((Transition.run (Server.step (delivery listing undoSeven) otherwise)
      (Server.init ⟨[], serviceTenant, []⟩) twice).state.log.map fun e =>
        (e.job, e.result.isSome)) = [(5, true), (5, false)] := by decide

end Yorishiro.Queue.Redelivery
