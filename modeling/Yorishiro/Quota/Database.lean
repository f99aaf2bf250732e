import Yorishiro.Entity.Workspace
import Yorishiro.Tenancy.Coherence
import Yorishiro.Tenancy.Provisioning

/-!
# Operations under a quota

Entities are created one by one and by imports, and workspaces by administrators, within limits
that are counted before the row is inserted. `QuotaDb` has the tables that these operations
read and write: those of a deployment, with the entities and relations of every workspace. The
database draws the ids of workspaces and draws none twice (`issued`).

`QuotaJob` has the operations that count and those that delete, each a script of its statements
and locks, to be interleaved. The plan of a tenant sets limits of its own beside the stored ones
(`Quotas`); what it allows is a parameter.
-/

set_option autoImplicit false

namespace Yorishiro.Quota

open Yorishiro.Lib Yorishiro.Lib.Fence Yorishiro.Metaschema
open Yorishiro.Entity hiding checkEntityQuota createWithQuota createRelation
  importRecord importLine importWithQuota resolveSchemaName
open Yorishiro.Schema (getActiveSchema versionLockKey)
open Yorishiro.Tenancy hiding ApiKey Invite Op
open Yorishiro.Queue (Instant)

/-! ## The database -/

/-- The entities of a workspace and the relations between them. -/
structure Content where
  rows : OrderedMap Uuid EntityRow
  relations : Relations

/-- The tables, and the ids of workspaces that have been drawn. -/
structure QuotaDb where
  deployment : Deployment
  contents : OrderedMap Uuid Content
  issued : List Uuid

/-- A transaction. -/
abbrev QuotaTx := Script String QuotaDb YorishiroError

/-- A transaction on the tables of the deployment. -/
def onDeployment {α : Type} (p : Work α) : QuotaTx α :=
  p.zoom QuotaDb.deployment fun deployment db => { db with deployment := deployment }

namespace QuotaDb

/-- The tenant of a workspace. -/
def ownerOf (db : QuotaDb) (workspace : Uuid) : Option Uuid :=
  (db.deployment.base.workspaces.get? workspace).map (·.tenantId)

/-- `max_entities` of a workspace that is there. -/
def capOf (db : QuotaDb) (workspace : Uuid) : Option (Option Int) :=
  (db.deployment.settings.get? workspace).map (·.maxEntities)

/-- What a workspace holds. -/
def contentOf (db : QuotaDb) (workspace : Uuid) : Content :=
  (db.contents.get? workspace).getD ⟨.empty, .empty⟩

/-- The tables as the checks on a workspace's entities read them. -/
def storeOf (db : QuotaDb) (workspace : Uuid) : EntityStore where
  rows := (db.contentOf workspace).rows
  tables :=
    { workspace := (db.deployment.settings.get? workspace).getD ⟨false, none, none⟩
      schemas := db.deployment.schemasOf workspace
      snapshots := []
      proposals := .empty
      jobs := .empty }

/-- The database with other content in a workspace. -/
def setContent (db : QuotaDb) (workspace : Uuid) (content : Content) : QuotaDb :=
  { db with contents := db.contents.insert workspace content }

/-- `count`: the entities of a workspace. -/
def entityCount (db : QuotaDb) (workspace : Uuid) : Nat :=
  (db.contentOf workspace).rows.count fun _ _ => true

/-- The workspaces of a tenant. -/
def workspaceCount (db : QuotaDb) (tenant : Uuid) : Nat :=
  db.deployment.base.workspaces.count fun _ row => decide (row.tenantId = tenant)

end QuotaDb

/-- The limit on the entities of a workspace that is there. -/
def entityLimit (quotas : Uuid → Quotas) (db : QuotaDb) (workspace : Uuid) : Option Int :=
  (db.ownerOf workspace).bind fun tenant =>
    (db.capOf workspace).bind fun cap => effectiveLimit cap (quotas tenant).entities

/-- The limit on the workspaces of a tenant. -/
def workspaceLimit (quotas : Uuid → Quotas) (db : QuotaDb) (tenant : Uuid) : Option Int :=
  effectiveLimit (db.deployment.maxWorkspaces.get? tenant) (quotas tenant).workspaces

/-! ## Entities -/

/-- What the authorization of a request has found: its workspace is there, and of the tenant. -/
def requireWorkspace (tenant workspace : Uuid) : QuotaTx Unit := do
  let owner ← onDeployment (onBase (getWorkspaceTenant workspace))
  Script.failIf (owner ≠ tenant) .unauthenticated

/-- The refusal of an entity beyond the limit. -/
def entityLimitReached (workspace : Uuid) (max : Int) : YorishiroError :=
  .conflict ("workspace '" ++ workspace.toString ++ "' has reached its entity limit (" ++
    toString max ++ "); raise max_entities or delete existing entities")

/-- Checks the workspace's `max_entities` cap before an insert. -/
def checkEntityQuota (workspace : Uuid) (quota : Option Int) : QuotaTx Unit := do
  let maxEntities ← Script.read fun db => (db.capOf workspace).join
  match effectiveLimit maxEntities quota with
  | none => pure ()
  | some max => do
      let count ← Script.read fun db => db.entityCount workspace
      Script.failIf (max ≤ count) (entityLimitReached workspace max)

/-- `INSERT` of an entity. -/
def insertEntity (workspace id : Uuid) (row : EntityRow) : QuotaTx Unit :=
  .update fun db =>
    if ((db.contentOf workspace).rows.get? id).isSome then .error (.internal .uniqueViolation)
    else do
      requireReferences ((db.capOf workspace).isSome &&
        ((db.deployment.schemasOf workspace).get? row.schemaId).isSome)
      pure ((), db.setContent workspace { db.contentOf workspace with
        rows := (db.contentOf workspace).rows.insert id row })

/-- What `create_with_quota` does under the workspace's lock, after the check of the quota. -/
def createChecked (cx : Context) (input : CreateEntityInput) (createdBy : Option Uuid)
    (id : Uuid) (stamp : Stamp) : QuotaTx Uuid := do
  let pending ← Script.read fun db =>
    (db.deployment.settings.get? cx.workspaceId).any (·.schemaPending)
  Script.failIf (pending = true) (schemaPending cx)
  Script.acquire (versionLockKey cx.workspaceId input.schemaName)
  let schema ← Script.read fun db =>
    getActiveSchema (db.deployment.schemasOf cx.workspaceId) input.schemaName
  let schema ← Script.ofExcept schema
  let entityTypeDef ← Script.ofExcept (resolveEntityType schema.2.definition input.entityType)
  Script.ofExcept (validateData cx.validator entityTypeDef input.data)
  insertEntity cx.workspaceId id
    { schemaId := schema.1
      schemaVersion := schema.2.version
      entityType := input.entityType
      data := input.data
      updatedAt := stamp.now
      createdBy := createdBy
      updatedBy := none
      embeddingSyncToken := stamp.token }
  pure id

/-- `create_with_quota`, with the identifier and the stamp the database gives. -/
def createWithQuota (cx : Context) (input : CreateEntityInput) (createdBy : Option Uuid)
    (quota : Option Int) (id : Uuid) (stamp : Stamp) : QuotaTx Uuid := do
  Script.acquire cx.workspaceId.toString
  checkEntityQuota cx.workspaceId quota
  createChecked cx input createdBy id stamp

/-- `delete` of an entity, with its relations. -/
def deleteEntity (workspace id : Uuid) : QuotaTx Unit :=
  .update fun db =>
    if ((db.contentOf workspace).rows.get? id).isNone then .error (entityNotFound id)
    else .ok ((), db.setContent workspace
      { rows := (db.contentOf workspace).rows.erase id
        relations := cascade (db.contentOf workspace).relations (.delete id) })

/-! ## Imports -/

/-- `INSERT` of a relation, between entities that are still there. -/
def insertRelation (workspace id : Uuid) (row : RelationRecord) : QuotaTx Unit :=
  .update fun db => do
    if ((db.contentOf workspace).rows.get? row.sourceId).isNone ∨
        ((db.contentOf workspace).rows.get? row.targetId).isNone then
      .error (.notFound ("source '" ++ row.sourceId.toString ++ "' or target '" ++
        row.targetId.toString ++ "' no longer exists"))
    else do
      let relations ← ((db.contentOf workspace).relations.insert id row).mapError fun
        | .uniqueViolation => .conflict ("relation '" ++ row.relationType ++ "' between '" ++
            row.sourceId.toString ++ "' and '" ++ row.targetId.toString ++ "' already exists")
        | err => .internal err
      pure ((), db.setContent workspace { db.contentOf workspace with relations := relations })

/-- `create` of a relation, with the identifier the database gives. -/
def createRelation (workspace sourceId targetId : Uuid) (relationType : String)
    (properties : Json) (id : Uuid) : QuotaTx Unit := do
  let source ← Script.read fun db => get (db.storeOf workspace) sourceId
  let source ← Script.ofExcept source
  let target ← Script.read fun db => get (db.storeOf workspace) targetId
  let target ← Script.ofExcept target
  let valid ← Script.read fun db =>
    validateRelationType (db.storeOf workspace) source target relationType
  Script.ofExcept valid
  insertRelation workspace id
    { sourceId := sourceId
      targetId := targetId
      relationType := relationType
      properties := if properties = .null then .object [] else properties
      status := .active }

/-- The body of the loop of `import_with_quota` for a record, before its errors are
annotated; the database gives `id` and `stamp` to what the line inserts. -/
def importRecord (cx : Context) (args : ImportArgs) (p : ImportProgress) (id : Uuid)
    (stamp : Stamp) : ExportRecord → QuotaTx ImportProgress
  | .schema oldId definition => do
      let _ ← onDeployment (Tenancy.createSchema cx.validator.env cx.showBound id args.tenantId
        cx.workspaceId definition)
      pure
        { p with
          schemas := p.schemas + 1
          schemaNameByOldId := p.schemaNameByOldId.insert oldId definition.name }
  | .entity oldId schemaId entityType data => do
      let resolved ← Script.read fun db =>
        Entity.resolveSchemaName (db.deployment.schemasOf cx.workspaceId) p schemaId
      let resolved ← Script.ofExcept resolved
      let created ← createWithQuota cx
        { schemaName := resolved.1, entityType := entityType, data := data }
        args.importedBy args.entityQuota id stamp
      pure
        { p with
          entities := p.entities + 1
          entityIds := p.entityIds ++ [created]
          entityIdMap := p.entityIdMap.insert oldId created
          schemaNameById := resolved.2 }
  | .relation sourceId targetId relationType properties => do
      createRelation cx.workspaceId ((p.entityIdMap.get? sourceId).getD sourceId)
        ((p.entityIdMap.get? targetId).getD targetId) relationType properties id
      pure { p with relations := p.relations + 1 }

/-- The body of the loop of `import_with_quota`; `given` is what the database gives to the
lines. -/
def importLine (cx : Context) (args : ImportArgs) (given : Nat → Uuid × Stamp)
    (p : ImportProgress) (line : ImportLine × Nat) : QuotaTx ImportProgress :=
  match line.1 with
  | .empty => pure p
  | .invalid err => .fail (.validationFailed
      ("line " ++ toString line.2 ++ ": invalid JSONL record: " ++ err) []
      ("each line must be a JSON object of the form " ++
        "\x7b\"kind\":\"schema\"|\"entity\"|\"relation\",\"record\":\x7b...\x7d\x7d"))
  | .record record =>
      (importRecord cx args p (given line.2).1 (given line.2).2 record).mapError
        (annotateLine line.2)

/-- The loop of `import_with_quota`. -/
def importLines (cx : Context) (args : ImportArgs) (given : Nat → Uuid × Stamp) :
    List (ImportLine × Nat) → ImportProgress → QuotaTx ImportProgress
  | [], p => pure p
  | line :: lines, p => do
      let p ← importLine cx args given p line
      importLines cx args given lines p

/-- `import_with_quota`. -/
def importWithQuota (cx : Context) (args : ImportArgs) (given : Nat → Uuid × Stamp)
    (lines : List ImportLine) : QuotaTx ImportProgress :=
  importLines cx args given (lines.zipIdx 1) .start

/-! ## Workspaces -/

/-- The database draws the id of a new workspace. -/
def drawId (id : Uuid) : QuotaTx Unit :=
  .update fun db =>
    if id ∈ db.issued then .error (.internal .uniqueViolation)
    else .ok ((), { db with issued := id :: db.issued })

/-- Creates a workspace, within the tenant's limits. -/
def createWorkspaceWithQuota (id tenant : Uuid) (name : String) (maxEntities : Option Int)
    (schemaId : Option Uuid) (quota : Option Int) : QuotaTx Uuid := do
  drawId id
  onDeployment (Tenancy.createWorkspaceWithQuota id tenant name maxEntities schemaId quota)

/-- The rows that go with a deleted workspace. -/
def cascadeWorkspace (id : Uuid) : QuotaTx Unit :=
  .update fun db => .ok ((), { db with
    deployment := { db.deployment with
      settings := db.deployment.settings.erase id
      schemas := db.deployment.schemas.erase id }
    contents := db.contents.erase id })

/-- Deletes a workspace for an administrator of its tenant. -/
def deleteWorkspaceAs (forked : Bool) (actor : AuthContext) (id : Uuid) : QuotaTx Unit := do
  onDeployment (onBase (Tenancy.deleteWorkspaceAs forked actor id))
  cascadeWorkspace id

/-! ## The system -/

/-- An operation that counts or deletes, with what the database gives it. -/
inductive QuotaJob where
  | createEntity (cx : Context) (tenant : Uuid) (input : CreateEntityInput)
      (createdBy : Option Uuid) (id : Uuid) (stamp : Stamp)
  | importJsonl (cx : Context) (tenant : Uuid) (importedBy : Option Uuid)
      (lines : List ImportLine) (given : Nat → Uuid × Stamp)
  | deleteEntity (tenant workspace id : Uuid)
  | createWorkspace (id tenant : Uuid) (name : String) (maxEntities : Option Int)
      (schemaId : Option Uuid)
  | deleteWorkspace (forked : Bool) (actor : AuthContext) (id : Uuid)

/-- What an operation returns. -/
inductive QuotaOutcome where
  | entity (id : Uuid)
  | imported (p : ImportProgress)
  | workspace (id : Uuid)
  | deleted

/-- The transaction of an operation, where `quotas` is what the tenants' plans allow. -/
def QuotaJob.code (quotas : Uuid → Quotas) : QuotaJob → QuotaTx QuotaOutcome
  | .createEntity cx tenant input createdBy id stamp => do
      requireWorkspace tenant cx.workspaceId
      pure (.entity (← createWithQuota cx input createdBy (quotas tenant).entities id stamp))
  | .importJsonl cx tenant importedBy lines given => do
      requireWorkspace tenant cx.workspaceId
      pure (.imported (← importWithQuota cx ⟨tenant, importedBy, (quotas tenant).entities⟩ given
        lines))
  | .deleteEntity tenant workspace id => do
      requireWorkspace tenant workspace
      Quota.deleteEntity workspace id
      pure .deleted
  | .createWorkspace id tenant name maxEntities schemaId => do
      pure (.workspace (← createWorkspaceWithQuota id tenant name maxEntities schemaId
        (quotas tenant).workspaces))
  | .deleteWorkspace forked actor id => do
      deleteWorkspaceAs forked actor id
      pure .deleted

/-- Time passes. -/
def passTime (n : Nat) (db : QuotaDb) : QuotaDb :=
  { db with deployment := elapse n db.deployment }

/-- The deployment between its statements. -/
abbrev QuotaServer := Server QuotaJob String QuotaDb YorishiroError QuotaOutcome

/-- One step of the deployment. -/
def quotaStep (quotas : Uuid → Quotas) : QuotaServer → Event QuotaJob Nat → QuotaServer :=
  Server.step (QuotaJob.code quotas) passTime

end Yorishiro.Quota
