import Yorishiro.Lib.Script
import Yorishiro.Schema.Catalog
import Yorishiro.Schema.Merge
import Yorishiro.Template.Marketplace

/-!
# Schemas that follow a template

A schema made from a template of the library remembers the template and what it said
(`origin_template_id`, `origin_snapshot`), and whether the template has changed since
(`origin_updated_at`, null while a change is pending). Four transactions touch these columns:
`create_schema` of a posted definition, `create_schema` from a template, `merge_apply`, and
`update_template`, which tells the template's followers. Each is a script, statement by
statement, with the locks it takes; a read through the control-plane connection is a statement
of its own.

The scripts of `create_schema` and `update_template`, run alone, are the functions of
`Schema.Store` and `Template.Library` (`createVersion_alone`, `updateTemplate_alone`).
-/

set_option autoImplicit false

namespace Yorishiro.Schema

open Yorishiro.Lib Yorishiro.Lib.Fence Yorishiro.Lib.JsonSchema Yorishiro.Metaschema
open Yorishiro.Queue (Instant)
open Yorishiro.Template

/-- The template library and the workspaces of all tenants. -/
structure OriginDb where
  library : Library
  spaces : OrderedMap Uuid Space

/-- A transaction on these tables. -/
abbrev OriginWork := Script String OriginDb YorishiroError

namespace OriginDb

variable (db : OriginDb)

/-- The schema versions of a workspace. -/
def schemasOf (workspaceId : Uuid) : Schemas :=
  ((db.spaces.get? workspaceId).map Space.schemas).getD .empty

/-- A schema version has the id, in some workspace. -/
def taken (id : Uuid) : Bool :=
  db.spaces.entries.any fun e => (e.2.schemas.get? id).isSome

/-- `UPDATE` of a workspace: none if it is not there. -/
def updateSpace (workspaceId : Uuid) (f : Space → Space) : OriginDb :=
  match db.spaces.get? workspaceId with
  | none => db
  | some space => { db with spaces := db.spaces.insert workspaceId (f space) }

/-- `mark_active`. -/
def markActive (workspaceId schemaId : Uuid) : OriginDb :=
  db.updateSpace workspaceId fun space =>
    { space with workspace := Schema.markActive space.workspace schemaId }

/-- The database with other templates. -/
def withLibrary (library : Library) : OriginDb := { db with library := library }

end OriginDb

/-! ## Statements -/

/-- `UPDATE` of the schema versions of a workspace that `p` selects. -/
def updateVersions (workspaceId : Uuid) (p : Uuid → SchemaRecord → Bool)
    (f : SchemaRecord → SchemaRecord) (db : OriginDb) : Except YorishiroError OriginDb := do
  let (schemas, _) ← ((db.schemasOf workspaceId).updateWhere p f).mapError .internal
  pure (db.updateSpace workspaceId fun space => { space with schemas := schemas })

/-- The refusal of a version that is there already. -/
def versionTaken (name : String) (version : Int) : DbErr → YorishiroError
  | .uniqueViolation => .conflict ("schema '" ++ name ++ "' version " ++ toString version ++
      " already exists (concurrent create?)")
  | err => .internal err

/-- `INSERT` of a schema version. -/
def insertVersion (workspaceId id : Uuid) (row : SchemaRecord) (db : OriginDb) :
    Except YorishiroError OriginDb :=
  if (db.spaces.get? workspaceId).isNone then .error (.internal .foreignKeyViolation)
  else if db.taken id then .error (versionTaken row.name row.version .uniqueViolation)
  else do
    let schemas ← ((db.schemasOf workspaceId).insert id row).mapError
      (versionTaken row.name row.version)
    pure (db.updateSpace workspaceId fun space => { space with schemas := schemas })

/-- A statement that returns nothing. -/
def statement (f : OriginDb → Except YorishiroError OriginDb) : OriginWork Unit :=
  .exec f fun _ => .done ()

/-- Selects the row `id`. -/
def isRow (id : Uuid) : Uuid → SchemaRecord → Bool := fun l _ => decide (l = id)

/-! ## New versions -/

/-- The row of a new version. -/
def versionRow (tenantId : Uuid) (definition : MetaSchemaDefinition) (version : Int)
    (origin : Option Uuid × Option MetaSchemaDefinition × Option Instant) : SchemaRecord where
  tenantId := tenantId
  name := definition.name
  version := version
  definition := definition
  status := .active
  originTemplateId := origin.1
  originStatus := if origin.1.isSome then .linked else .detached
  originSnapshot := origin.2.1
  originUpdatedAt := origin.2.2

section Scripts

variable (env : Dialect) (display : ℚ → String) (decode : Decoder)

/-- `create_schema`, with the id and the time the new version gets. -/
def createVersion (tenantId workspaceId : Uuid) (definition : MetaSchemaDefinition)
    (originTemplateId : Option Uuid) (originSnapshot : Option MetaSchemaDefinition) (id : Uuid)
    (now : Instant) : OriginWork (SchemaRecord × VersioningDiff) := do
  let name := definition.name
  Script.ofExcept (validateDefinition env display definition)
  Script.acquire (versionLockKey workspaceId name)
  let previous ← Script.read fun db => latest (db.schemasOf workspaceId) (isActive name)
  let version ← Script.read fun db => nextVersion (db.schemasOf workspaceId) name
  let row := versionRow tenantId definition version
    (inheritOrigin previous originTemplateId originSnapshot now)
  -- every active version of the name is archived, if there is one
  if previous.isSome then
    statement (updateVersions workspaceId (fun _ row => isActive name row)
      fun row => { row with status := .archived })
  statement (insertVersion workspaceId id row)
  statement fun db => .ok (db.markActive workspaceId id)
  pure (row, (previous.map fun e => diff e.2.definition definition).getD
    { isBreaking := false, reasons := [] })

/-- `create_schema` from a template of the library, which is read through `ctx.db`. -/
def createFromTemplate (tenantId workspaceId templateId id : Uuid) (now : Instant) :
    OriginWork (SchemaRecord × VersioningDiff) := do
  let found ← Script.read fun db => getTemplate decode db.library tenantId templateId
  let template ← Script.ofExcept found
  createVersion env display tenantId workspaceId template.definition (some template.id)
    (some template.definition) id now

/-! ## Merges -/

/-- The name of the lock that publication and acknowledgement of a template's changes share. -/
def templateOriginKey (templateId : Uuid) : String := "template-origin:" ++ templateId.toString

/-- `MergeSides`. -/
structure MergeSides where
  base : MetaSchemaDefinition
  upstream : MetaSchemaDefinition
  here : SchemaRecord
  templateId : Uuid

/-- The name of a status. -/
def SchemaStatus.name : SchemaStatus → String
  | .active => "active"
  | .archived => "archived"

/-- The refusal to merge into a retired version. -/
def retiredVersion (id : Uuid) (schema : SchemaRecord) : YorishiroError :=
  .validationFailed
    ("schema '" ++ id.toString ++ "' is " ++ schema.status.name ++ " and cannot be merged into") []
    ("merge the active version of '" ++ schema.name ++ "' instead; GET /api/schemas lists it")

/-- The refusal to merge a schema of no template's. -/
def noOrigin (id : Uuid) : YorishiroError :=
  .validationFailed ("schema '" ++ id.toString ++ "' does not follow a template") []
    ("only a schema created from a template library entry can be merged; create one with " ++
      "POST /api/schemas and a template_id")

/-- The refusal to merge without a merge base. -/
def noBase (id : Uuid) : YorishiroError :=
  .validationFailed
    ("schema '" ++ id.toString ++ "' was copied before its merge base was recorded") []
    ("re-apply the template to this workspace to establish a base, or edit the schema directly")

/-- `merge_sides`: the local side is read before any lock is taken. -/
def mergeSides (tenantId workspaceId schemaId : Uuid) : OriginWork MergeSides := do
  let found ← Script.read fun db => (db.schemasOf workspaceId).get? schemaId
  let schema ← Script.orFail (schemaMissing schemaId) found
  Script.failIf (schema.status ≠ .active) (retiredVersion schemaId schema)
  let templateId ← Script.orFail (noOrigin schemaId) schema.originTemplateId
  Script.acquire (templateOriginKey templateId)
  let base ← Script.orFail (noBase schemaId) schema.originSnapshot
  let found ← Script.read fun db => getTemplate decode db.library tenantId templateId
  let template ← Script.ofExcept found
  pure ⟨base, template.definition, schema, templateId⟩

/-- `merge_apply`. -/
def mergeApply (tenantId workspaceId schemaId id : Uuid) (now : Instant) :
    OriginWork (SchemaRecord × VersioningDiff × MergeDiffSummary) := do
  let sides ← mergeSides decode tenantId workspaceId schemaId
  let plan := threeWay sides.base sides.upstream sides.here.definition
  let merged ← Script.ofExcept (applyPlan plan sides.upstream sides.here.definition)
  let (row, versioning) ← createVersion env display tenantId workspaceId merged
    (some sides.templateId) (some sides.upstream) id now
  statement (updateVersions workspaceId (isRow id)
    fun row => { row with originUpdatedAt := some now })
  pure (row, versioning, plan.summary)

/-! ## Publication -/

/-- The linked schemas that follow a template, with their workspaces. -/
def OriginDb.followers (db : OriginDb) (templateId : Uuid) : List (Uuid × Uuid) :=
  db.spaces.entries.flatMap fun e =>
    (e.2.schemas.rows.entries.filter fun s =>
      decide (s.2.originTemplateId = some templateId) &&
        decide (s.2.originStatus = .linked)).map fun s => (e.1, s.1)

/-- Sets `origin_updated_at` to null where a row still follows the template. -/
def markPending (templateId : Uuid) (db : OriginDb) (e : Uuid × Uuid) :
    Except YorishiroError OriginDb :=
  updateVersions e.1 (fun l row => decide (l = e.2) &&
    (decide (row.originTemplateId = some templateId) && decide (row.originStatus = .linked)))
    (fun row => { row with originUpdatedAt := none }) db

/-- `notify_upstream_change`. The statement updates the rows its snapshot has: a row that is
committed while it runs is not among them. -/
def notifyUpstreamChange (templateId : Uuid) : OriginWork Unit := do
  let rows ← Script.read fun db => db.followers templateId
  statement fun db => rows.foldlM (markPending templateId) db

variable {decode}

/-- `UPDATE` of a template by its primary key, returning the row. -/
def writeTemplate (id : Uuid) (input : UpdateTemplateInput decode) (now : Instant)
    (db : OriginDb) : Except YorishiroError (TemplateRecord × OriginDb) :=
  match db.library.templates.get? id with
  | none => .error (.internal (.custom "None of the records are updated"))
  | some row => do
      let (templates, _) ← (db.library.templates.updateRow id (fun _ => true)
        (input.apply now)).mapError .internal
      let record ← (input.apply now row).toRecord decode id
      pure (record, db.withLibrary (db.library.withTemplates templates))

/-- `update_template`. -/
def updateTemplate (tenantId id : Uuid) (input : UpdateTemplateInput decode) (now : Instant) :
    OriginWork TemplateRecord := do
  Script.acquire (templateOriginKey id)
  Script.ofExcept (input.validate env display)
  if input.isEmpty then
    let found ← Script.read fun db => getTemplate decode db.library tenantId id
    Script.ofExcept found
  else
    let existing ← Script.read fun db => db.library.owned tenantId id
    let _ ← Script.orFail (templateMissing id) existing
    let record ← Script.update (writeTemplate id input now)
    if input.definition.isSome then notifyUpstreamChange id
    pure record

/-! ## Jobs -/

variable (decode) in
/-- A request. -/
inductive OriginJob where
  | create (tenantId workspaceId id : Uuid) (definition : MetaSchemaDefinition) (now : Instant)
  | createFromTemplate (tenantId workspaceId templateId id : Uuid) (now : Instant)
  | merge (tenantId workspaceId schemaId id : Uuid) (now : Instant)
  | updateTemplate (tenantId templateId : Uuid) (input : UpdateTemplateInput decode)
      (now : Instant)

/-- What a request is answered. -/
inductive OriginAnswer where
  | created (row : SchemaRecord) (versioning : VersioningDiff)
  | merged (row : SchemaRecord) (versioning : VersioningDiff) (summary : MergeDiffSummary)
  | template (record : TemplateRecord)

/-- The transaction of a request. -/
def OriginJob.code : OriginJob decode → OriginWork OriginAnswer
  | .create tenantId workspaceId id definition now => do
      let r ← createVersion env display tenantId workspaceId definition none none id now
      pure (.created r.1 r.2)
  | .createFromTemplate tenantId workspaceId templateId id now => do
      let r ← Schema.createFromTemplate env display decode tenantId workspaceId templateId id now
      pure (.created r.1 r.2)
  | .merge tenantId workspaceId schemaId id now => do
      let r ← mergeApply env display decode tenantId workspaceId schemaId id now
      pure (.merged r.1 r.2.1 r.2.2)
  | .updateTemplate tenantId templateId input now => do
      let record ← Schema.updateTemplate env display tenantId templateId input now
      pure (.template record)

end Scripts

end Yorishiro.Schema
