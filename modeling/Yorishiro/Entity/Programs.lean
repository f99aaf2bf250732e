import Mathlib.Data.List.Sort
import Yorishiro.Entity.Fill
import Yorishiro.Entity.Validation
import Yorishiro.Inference.Jobs
import Yorishiro.Lib.ReadCommitted
import Yorishiro.Schema.Store

/-!
# Transactions on entities

The functions that write stored entities, statement by statement as the database
sees them: `update`, `delete`, `fill_defaults`, `undo_job` and the confirmation of
inferred proposals. The rows are those of `entity_entities` in one workspace, and
`Tables` holds what else these functions read and write.

Every write of a row stamps it: the clock gives `updated_at`, and the update trigger
of the table gives `embedding_sync_token`.
-/

set_option autoImplicit false

namespace Yorishiro.Entity

open Yorishiro.Lib Yorishiro.Lib.JsonSchema Yorishiro.Metaschema Yorishiro.Schema
open Yorishiro.Queue (Instant)
open Yorishiro.Inference (InferenceJobs)

/-! ## Rows and tables -/

/-- A row of `entity_entities` (its primary key is the table's key). -/
structure EntityRow where
  schemaId : Uuid
  schemaVersion : Int
  entityType : String
  data : Json
  updatedAt : Instant
  createdBy : Option Uuid
  updatedBy : Option Uuid
  embeddingSyncToken : String
deriving DecidableEq

/-- What the clock and the update trigger give to a write. -/
structure Stamp where
  now : Instant
  token : String
deriving DecidableEq, Repr

/-- A row of `entity_snapshots`. -/
structure EntitySnapshot where
  jobId : Uuid
  entityId : Uuid
  schemaId : Uuid
  schemaVersion : Int
  data : Json
deriving DecidableEq

/-- `ProposalStatus`. -/
inductive ProposalStatus where
  | pending
  | confirmed
  | rejected
  | discarded
  | stale
  | invalid
deriving DecidableEq, Repr

/-- A row of `inference_proposals`. -/
structure ProposalRecord where
  jobId : Uuid
  entityId : Uuid
  schemaId : Uuid
  schemaVersion : Int
  sourceField : String
  proposed : Json
  status : ProposalStatus
deriving DecidableEq

/-- What the entity functions use beside the entities; snapshots are in the order in
which they were taken. -/
structure Tables where
  workspace : Workspace
  schemas : Schemas
  snapshots : List EntitySnapshot
  proposals : OrderedMap Uuid ProposalRecord
  jobs : InferenceJobs

/-- The surroundings of a call: the workspace, the JSON Schema library, and how times and
bounds are printed. -/
structure Context where
  workspaceId : Uuid
  validator : Validator
  showInstant : Instant → String
  showBound : ℚ → String

/-- A transaction on the entities. -/
abbrev EntityProg (ρ : Type) := Prog Uuid EntityRow Tables Stamp YorishiroError ρ

/-- The database: the entities and the other tables. -/
abbrev EntityStore := Store Uuid EntityRow Tables

/-- A row with new data, stamped. -/
def EntityRow.withData (row : EntityRow) (data : Json) (updatedBy : Option Uuid) (stamp : Stamp) :
    EntityRow :=
  { row with
    data := data
    updatedBy := updatedBy
    updatedAt := stamp.now
    embeddingSyncToken := stamp.token }

/-- A row moved to another schema version, stamped. -/
def EntityRow.restamped (row : EntityRow) (data : Json) (schemaId : Uuid) (schemaVersion : Int)
    (stamp : Stamp) : EntityRow :=
  { row with
    data := data
    schemaId := schemaId
    schemaVersion := schemaVersion
    updatedAt := stamp.now
    embeddingSyncToken := stamp.token }

/-- A row that `update_if_unchanged` has moved to the version of a confirmed proposal. -/
def EntityRow.confirmed (row : EntityRow) (data : Json) (target : Uuid × SchemaRecord)
    (updatedBy : Option Uuid) (stamp : Stamp) : EntityRow :=
  { row.restamped data target.1 target.2.version stamp with updatedBy := updatedBy }

def entityNotFound (id : Uuid) : YorishiroError :=
  .notFound ("entity '" ++ id.toString ++ "' was not found")

/-- `SELECT` of one entity by id. -/
def findById (id : Uuid) : EntityProg (List (Uuid × EntityRow)) :=
  Prog.rows fun _ k _ => decide (k = id)

/-! ## Update and delete -/

/-- `UpdateEntityInput`. -/
structure UpdateEntityInput where
  id : Uuid
  data : Json
  updatedBy : Option Uuid
  expectedUpdatedAt : Option Instant
deriving DecidableEq

/-- The checks of `update` on the new data, against the version the row was read with. -/
def checkData (cx : Context) (schemas : Schemas) (existing : EntityRow) (data : Json) :
    Except YorishiroError Unit := do
  let schema ← getById schemas existing.schemaId
  let entityTypeDef ← resolveEntityType schema.definition existing.entityType
  validateData cx.validator entityTypeDef data

def staleRead (cx : Context) (id : Uuid) (existing : EntityRow) : YorishiroError :=
  .conflict ("entity '" ++ id.toString ++ "' changed while it was being edited (it is now " ++
    cx.showInstant existing.updatedAt ++ "); re-read it and retry")

def staleWrite (id : Uuid) : YorishiroError :=
  .conflict ("entity '" ++ id.toString ++
    "' changed while it was being edited; re-read it and retry")

/-- `DbErr::RecordNotUpdated` as an internal error. -/
def recordNotUpdated : YorishiroError := .internal (.custom "None of the records are updated")

/-- `update`. -/
def update (cx : Context) (input : UpdateEntityInput) : EntityProg EntityRow := do
  let found ← findById input.id
  match found with
  | [] => .abort (entityNotFound input.id)
  | (_, existing) :: _ =>
      -- an edit based on an older read is refused before anything is validated
      if input.expectedUpdatedAt.any fun expected => decide (existing.updatedAt ≠ expected) then
        .abort (staleRead cx input.id existing)
      else do
        let tables ← Prog.read
        Prog.ofExcept (checkData cx tables.schemas existing input.data)
        -- with an expected time, the write also compares the token that was read
        let written ← Prog.update input.id
          (fun row => input.expectedUpdatedAt.isNone ||
            decide (row.embeddingSyncToken = existing.embeddingSyncToken))
          (fun stamp row => some (row.withData input.data input.updatedBy stamp))
        match written with
        | some (some row) => pure row
        | _ => .abort (if input.expectedUpdatedAt.isSome then staleWrite input.id
            else recordNotUpdated)

/-- `delete`. -/
def delete (id : Uuid) : EntityProg Unit := do
  -- `None` as the new row removes it
  let deleted ← Prog.update id (fun _ => true) fun _ _ => none
  match deleted with
  | some _ => pure ()
  | none => .abort (entityNotFound id)

/-! ## Snapshots -/

/-- `insert_snapshot`: copies the entity's row as the statement sees it. -/
def insertSnapshot (entityId jobId : Uuid) (look : Uuid → Option EntityRow) (tables : Tables) :
    Tables × Nat :=
  match look entityId with
  | none => (tables, 0)
  | some row =>
      ({ tables with
          snapshots := tables.snapshots ++
            [{ jobId := jobId
               entityId := entityId
               schemaId := row.schemaId
               schemaVersion := row.schemaVersion
               data := row.data }] }, 1)

/-- `snapshot`. -/
def snapshot (entityId jobId : Uuid) : EntityProg Unit := do
  let rowsAffected ← Prog.change (insertSnapshot entityId jobId)
  if rowsAffected = 0 then .abort (entityNotFound entityId) else pure ()

/-- `delete_snapshot`. -/
def deleteSnapshot (entityId jobId : Uuid) (_ : Uuid → Option EntityRow) (tables : Tables) :
    Tables × Nat :=
  ({ tables with
      snapshots := tables.snapshots.filter fun snap =>
        !(decide (snap.entityId = entityId) && decide (snap.jobId = jobId)) },
    tables.snapshots.countP fun snap =>
      decide (snap.entityId = entityId) && decide (snap.jobId = jobId))

/-- `UndoReport`. -/
structure UndoReport where
  jobId : Uuid
  restored : Nat
  missing : Nat
deriving DecidableEq, Repr

/-- Puts one entity back to what a snapshot holds. -/
def restore (report : UndoReport) (snap : EntitySnapshot) : EntityProg UndoReport := do
  -- the write has no guard: an edit made after the job is overwritten
  let written ← Prog.update snap.entityId (fun _ => true)
    fun stamp row => some (row.restamped snap.data snap.schemaId snap.schemaVersion stamp)
  match written with
  | some _ => pure { report with restored := report.restored + 1 }
  | none => pure { report with missing := report.missing + 1 }

/-- `undo_job`. -/
def undoJob (jobId : Uuid) : EntityProg UndoReport := do
  let tables ← Prog.read
  let snapshots := tables.snapshots.filter fun snap => decide (snap.jobId = jobId)
  match snapshots with
  | [] => .abort (.notFound ("no snapshots for job '" ++ jobId.toString ++ "'"))
  | snapshots => snapshots.foldlM restore { jobId := jobId, restored := 0, missing := 0 }

/-! ## Filling defaults -/

/-- The arguments of `fill_defaults`. -/
structure FillDefaultsArgs where
  schemaName : String
  jobId : Uuid
  updatedBy : Option Uuid
deriving DecidableEq, Repr

/-- `FillDefaultsReport`. -/
structure FillDefaultsReport where
  schemaName : String
  jobId : Uuid
  entitiesUpdated : Nat
  fieldsFilled : Nat
deriving DecidableEq, Repr

/-- One entity of the batch, with the record that the first statement read. -/
def fillEntity (args : FillDefaultsArgs) (active : SchemaRecord) (report : FillDefaultsReport)
    (record : Uuid × EntityRow) : EntityProg FillDefaultsReport :=
  match active.definition.entityTypes.get? record.2.entityType with
  | none => pure report
  | some activeEntity => do
      -- the snapshot copies the row as it is now, not the record read at the start
      let taken ← Prog.change (insertSnapshot record.1 args.jobId)
      if taken = 0 then pure report
      else
        let filled := fillFieldsInValue activeEntity.trees record.2.data
        if filled.2 = 0 then pure report
        else do
          -- what is written comes from the record, and the filter names the row only
          let written ← Prog.update record.1 (fun _ => true)
            fun stamp row => some (row.withData filled.1 args.updatedBy stamp)
          match written with
          | some _ => pure { report with
              entitiesUpdated := report.entitiesUpdated + 1
              fieldsFilled := report.fieldsFilled + filled.2 }
          | none => pure report

/-- The entities on another version of the named schema than the active one. -/
def isBehind (args : FillDefaultsArgs) (activeId : Uuid) (tables : Tables) (_ : Uuid)
    (row : EntityRow) : Bool :=
  (tables.schemas.get? row.schemaId).any (fun schema => decide (schema.name = args.schemaName)) &&
    decide (row.schemaId ≠ activeId)

/-- `fill_defaults`. -/
def fillDefaults (args : FillDefaultsArgs) : EntityProg FillDefaultsReport := do
  let tables ← Prog.read
  let active ← Prog.ofExcept (getActiveSchema tables.schemas args.schemaName)
  let rows ← Prog.rows (isBehind args active.1)
  rows.foldlM (fillEntity args active.2)
    { schemaName := args.schemaName, jobId := args.jobId, entitiesUpdated := 0, fieldsFilled := 0 }

/-! ## Confirming proposals -/

/-- `ConfirmReport`. -/
structure ConfirmReport where
  jobId : Uuid
  confirmed : Nat
  stale : Nat
  invalid : Nat
deriving DecidableEq, Repr

/-- `require_completed_job`. -/
def requireCompletedJob (cx : Context) (tables : Tables) (jobId : Uuid) :
    Except YorishiroError Unit :=
  match tables.jobs.get? jobId with
  | none => .error (.notFound "infer-fill job not found")
  | some job =>
      if job.workspaceId ≠ cx.workspaceId then .error (.notFound "infer-fill job not found")
      else if job.status ≠ .completed then
        .error (.conflict ("inference job '" ++ jobId.toString ++
          "' is not completed and its proposals cannot be changed"))
      else if tables.proposals.entries.any fun e => decide (e.2.jobId = jobId) then .ok ()
      else .error (.conflict ("inference job '" ++ jobId.toString ++ "' did not produce proposals"))

/-- The order of `for_job`: by entity, then by field. -/
def proposalLE (a b : ProposalRecord) : Prop :=
  a.entityId < b.entityId ∨ (a.entityId = b.entityId ∧ a.sourceField ≤ b.sourceField)

instance : DecidableRel proposalLE := fun a b => by unfold proposalLE; infer_instance

/-- `for_job`. -/
def forJob (tables : Tables) (jobId : Uuid) : List ProposalRecord :=
  ((tables.proposals.entries.map Prod.snd).filter fun p => decide (p.jobId = jobId)).insertionSort
    proposalLE

/-- The pending proposals of a job by entity. -/
def byEntity (tables : Tables) (jobId : Uuid) : OrderedMap Uuid (List ProposalRecord) :=
  ((forJob tables jobId).filter fun p => decide (p.status = .pending)).foldl
    (fun m p => m.insert p.entityId ((m.get? p.entityId).getD [] ++ [p])) OrderedMap.empty

/-- The update of `ensure_entity_marked`. -/
def markEntity (jobId entityId : Uuid) (status : ProposalStatus) (_ : Uuid → Option EntityRow)
    (tables : Tables) : Tables × Nat :=
  let selected := fun (_ : Uuid) (p : ProposalRecord) =>
    decide (p.jobId = jobId) && decide (p.entityId = entityId) && decide (p.status = .pending)
  ({ tables with
      proposals := tables.proposals.updateWhere selected fun p => { p with status := status } },
    tables.proposals.count selected)

/-- `ensure_entity_marked`. -/
def ensureEntityMarked (jobId entityId : Uuid) (status : ProposalStatus) (expected : Nat) :
    EntityProg Unit := do
  let marked ← Prog.change (markEntity jobId entityId status)
  if marked = expected then pure ()
  else .abort (.conflict ("inference job '" ++ jobId.toString ++
    "' changed while confirming its proposals"))

/-- Marks the proposals of an entity and counts them in the report. -/
def settle (jobId entityId : Uuid) (status : ProposalStatus) (n : Nat) (report : ConfirmReport) :
    EntityProg ConfirmReport := do
  ensureEntityMarked jobId entityId status n
  match status with
  | .confirmed => pure { report with confirmed := report.confirmed + n }
  | .stale => pure { report with stale := report.stale + n }
  | _ => pure { report with invalid := report.invalid + n }

/-- The proposals no longer apply to the entity. -/
def isStale (target : Uuid × SchemaRecord) (activeId : Uuid) (existing : EntityRow)
    (proposals : List ProposalRecord) : Bool :=
  decide (target.2.status ≠ .active) || decide (activeId ≠ target.1) ||
    -- a field that has been filled in since makes the whole group stale
    proposals.any fun p => match existing.data with
      | .object obj => (Entries.get? p.sourceField obj).isSome
      | _ => true

/-- The snapshot and the guarded write (`update_if_unchanged`) of a confirmation whose data
is valid for the target version. -/
def writeConfirmed (jobId entityId : Uuid) (updatedBy : Option Uuid)
    (target : Uuid × SchemaRecord) (existing : EntityRow) (data : Json) (n : Nat)
    (report : ConfirmReport) : EntityProg ConfirmReport := do
  snapshot entityId jobId
  -- the row is already locked, so the guard compares against the row just read
  let written ← Prog.update entityId (fun row => decide (row.updatedAt = existing.updatedAt))
    fun stamp row => some (row.confirmed data target updatedBy stamp)
  match written with
  | some _ => settle jobId entityId .confirmed n report
  | none => do
      -- nothing was written, so there is nothing to undo
      let _ ← Prog.change (deleteSnapshot entityId jobId)
      settle jobId entityId .stale n report

/-- The body of the loop of `confirm`, from the row it read on. -/
def confirmRow (cx : Context) (jobId entityId : Uuid) (updatedBy : Option Uuid)
    (target : Uuid × SchemaRecord) (activeId : Uuid) (existing : EntityRow)
    (proposals : List ProposalRecord) (report : ConfirmReport) : EntityProg ConfirmReport :=
  if isStale target activeId existing proposals then
    settle jobId entityId .stale proposals.length report
  else
    match existing.data with
    | .object obj =>
        let data := Json.object
          (proposals.foldl (fun d p => Entries.insert p.sourceField p.proposed d) obj)
        match target.2.definition.entityTypes.get? existing.entityType with
        | none => settle jobId entityId .invalid proposals.length report
        | some typeDef =>
            match validateData cx.validator typeDef data with
            | .ok () =>
                writeConfirmed jobId entityId updatedBy target existing data proposals.length report
            | .error (.validationFailed _ _ _) =>
                settle jobId entityId .invalid proposals.length report
            | .error err => .abort err
    | _ => settle jobId entityId .invalid proposals.length report

/-- The body of the loop of `confirm`: the proposals of one entity. -/
def confirmEntity (cx : Context) (jobId : Uuid) (updatedBy : Option Uuid) (report : ConfirmReport)
    (group : Uuid × List ProposalRecord) : EntityProg ConfirmReport :=
  match group.2 with
  | [] => pure report
  | first :: rest => do
      -- the lock comes before the reads: what they see is what the write will find
      Prog.lockRow group.1
      let tables ← Prog.read
      let target ← Prog.ofExcept (getById tables.schemas first.schemaId)
      let tables ← Prog.read
      let active ← Prog.ofExcept (getActiveSchema tables.schemas target.name)
      let found ← findById group.1
      match found with
      | [] => settle jobId group.1 .stale (first :: rest).length report
      | (_, existing) :: _ =>
          confirmRow cx jobId group.1 updatedBy (first.schemaId, target) active.1 existing
            (first :: rest) report

/-- `confirm`. -/
def confirm (cx : Context) (jobId : Uuid) (updatedBy : Option Uuid) :
    EntityProg ConfirmReport := do
  let tables ← Prog.read
  Prog.ofExcept (requireCompletedJob cx tables jobId)
  let tables ← Prog.read
  match (byEntity tables jobId).entries with
  | [] => .abort (.conflict ("inference job '" ++ jobId.toString ++ "' has no pending proposals"))
  | groups =>
      groups.foldlM (confirmEntity cx jobId updatedBy)
        { jobId := jobId, confirmed := 0, stale := 0, invalid := 0 }

/-! ## The jobs of a workspace -/

/-- The transactions that may run beside each other. -/
inductive Job where
  | update (input : UpdateEntityInput)
  | delete (id : Uuid)
  | fillDefaults (args : FillDefaultsArgs)
  | undoJob (jobId : Uuid)
  | confirm (jobId : Uuid) (updatedBy : Option Uuid)
deriving DecidableEq

/-- What a transaction that commits returns. -/
inductive Reply where
  | record (row : EntityRow)
  | deleted
  | filled (report : FillDefaultsReport)
  | undone (report : UndoReport)
  | confirmed (report : ConfirmReport)
deriving DecidableEq

/-- The program of a job. -/
def code (cx : Context) : Job → EntityProg Reply
  | .update input => do return .record (← update cx input)
  | .delete id => do
      delete id
      return .deleted
  | .fillDefaults args => do return .filled (← fillDefaults args)
  | .undoJob jobId => do return .undone (← undoJob jobId)
  | .confirm jobId updatedBy => do return .confirmed (← confirm cx jobId updatedBy)

/-- The system of these transactions. -/
abbrev EntitySys := Sys Job Uuid EntityRow Tables Stamp YorishiroError Reply

/-- What happens next in it. -/
abbrev EntityInput := Input Job Stamp

/-! ## A small workspace -/

/-- A JSON Schema library that reports one problem for a value that is not accepted. -/
def Validator.ofDialect (env : Dialect) : Validator where
  env := env
  iterErrors := fun schema d =>
    if validates env schema d then []
    else [{ instancePath := "", missing := none, message := "the value is not accepted" }]
  refusal := fun _ => "the schema does not compile"
  iterErrors_eq_nil := by
    intro schema d
    split_ifs with h <;> simp [h]

/-- Persons with an age of the given type. -/
def people (type : FieldTypeName) (required : Bool) : MetaSchemaDefinition where
  name := "people"
  description := none
  entityTypes := OrderedMap.ofList
    [ ("person",
        { description := none
          fields := OrderedMap.ofList
            [("age", ⟨.mk { FieldAttrs.ofType type with required := required } none none, rfl⟩)] }) ]
  relationTypes := OrderedMap.empty

def peopleRecord (version : Int) (status : SchemaStatus) (definition : MetaSchemaDefinition) :
    SchemaRecord where
  tenantId := 0
  name := "people"
  version := version
  definition := definition
  status := status
  originTemplateId := none
  originStatus := .detached
  originSnapshot := none
  originUpdatedAt := none

/-- Two versions: the first has an optional age in words, the second a required number. -/
def peopleSchemas : Schemas where
  rows := OrderedMap.ofList
    [ (1, peopleRecord 1 .archived (people .string false)),
      (2, peopleRecord 2 .active (people .integer true)) ]
  unique := by decide

/-- A person that was last written at `now`. -/
def person (schemaId : Uuid) (schemaVersion : Int) (data : Json) (now : Instant)
    (token : String) : EntityRow where
  schemaId := schemaId
  schemaVersion := schemaVersion
  entityType := "person"
  data := data
  updatedAt := now
  createdBy := none
  updatedBy := none
  embeddingSyncToken := token

/-- The workspace with one person, number 7. -/
def peopleStore (row : EntityRow) (snapshots : List EntitySnapshot) : EntityStore where
  rows := OrderedMap.ofList [(7, row)]
  tables :=
    { workspace := { schemaPending := false, schemaId := some 1, maxEntities := none }
      schemas := peopleSchemas
      snapshots := snapshots
      proposals := OrderedMap.empty
      jobs := Table.empty }

/-- The fill of the workspace of `peopleStore`. -/
def fillPeople : FillDefaultsArgs := { schemaName := "people", jobId := 9, updatedBy := none }

def peopleContext : Context where
  workspaceId := 0
  validator := .ofDialect lenientDialect
  showInstant := toString
  showBound := fun _ => ""

end Yorishiro.Entity
