import Mathlib.Data.List.Sort
import Yorishiro.Base.Uuid
import Yorishiro.Metaschema.Validate
import Yorishiro.Queue.Lifecycle

/-!
# The template library

The tables `template_templates`, `template_versions` and `template_reviews`, which all tenants
share, and the community edition's functions on them: `list_templates`, `get_template`,
`create_template`, `update_template`, `delete_template` and `fork_template`.

A template's definition is stored as a JSON value and read back on every access. Which values
read as definitions is up to `serde_json`, so it is a parameter (`Decoder`); what is written is
`MetaSchemaDefinition.toJson`.
-/

set_option autoImplicit false

namespace Yorishiro.Metaschema

open Yorishiro.Lib

/-! ## Serialised definitions -/

/-- An optional text; a missing one is null. -/
def textJson (o : Option String) : Json := (o.map Json.string).getD .null

/-- `serde_json::to_value` of an entity type. -/
def EntityTypeDef.toJson (t : EntityTypeDef) : Json :=
  .object [("description", textJson t.description),
    ("fields", .object (FieldTree.membersJson t.trees))]

/-- `serde_json::to_value` of a relation type. -/
def RelationTypeDef.toJson (t : RelationTypeDef) : Json :=
  .object [("description", textJson t.description), ("source", .string t.source),
    ("target", .string t.target)]

/-- `serde_json::to_value` of a definition. -/
def MetaSchemaDefinition.toJson (d : MetaSchemaDefinition) : Json :=
  .object [("description", textJson d.description),
    ("entity_types", .object (d.entityTypes.entries.map fun e => (e.1, e.2.toJson))),
    ("name", .string d.name),
    ("relation_types", .object (d.relationTypes.entries.map fun e => (e.1, e.2.toJson)))]

end Yorishiro.Metaschema

namespace Yorishiro.Template

open Yorishiro.Lib Yorishiro.Lib.JsonSchema Yorishiro.Metaschema
open Yorishiro.Queue (Instant)

/-- `serde_json::from_value` at `MetaSchemaDefinition`: the definition a value reads as, or why
it does not read as one. -/
abbrev Decoder := Json → Except String MetaSchemaDefinition

/-- What was read from a value is read again from what it is written as. -/
def Decoder.Faithful (decode : Decoder) : Prop :=
  ∀ v d, decode v = .ok d → decode d.toJson = .ok d

/-- A definition as a request carries it: it was read from the request's body. -/
structure Received (decode : Decoder) where
  definition : MetaSchemaDefinition
  read : ∃ v, decode v = .ok definition

/-! ## Tables -/

/-- `TemplateVisibility`. -/
inductive TemplateVisibility where
  | tenant
  | community
deriving DecidableEq, Repr

/-- `TemplateVersionStatus`. -/
inductive TemplateVersionStatus where
  | draft
  | pre
  | stable
deriving DecidableEq, Repr

/-- A row of `template_templates`. -/
structure TemplateRow where
  tenantId : Uuid
  name : String
  description : Option String
  definition : Json
  tags : Json
  locale : Option String
  visibility : TemplateVisibility
  author : Option String
  forkOf : Option Uuid
  createdBy : Option Uuid
  createdAt : Instant
  updatedAt : Instant
deriving DecidableEq

/-- `template_templates_tenant_id_name_key`. -/
def TemplateRow.clash (a b : TemplateRow) : Bool :=
  decide (a.tenantId = b.tenantId) && decide (a.name = b.name)

theorem TemplateRow.clash_comm (a b : TemplateRow) : a.clash b = b.clash a := by
  unfold TemplateRow.clash
  rw [decide_eq_decide.mpr (eq_comm (a := a.tenantId)),
    decide_eq_decide.mpr (eq_comm (a := a.name))]

/-- A row of `template_versions`. -/
structure VersionRow where
  templateId : Uuid
  version : Int
  definition : Json
  changelog : Option String
  status : TemplateVersionStatus
  createdBy : Option Uuid
  createdAt : Instant
deriving DecidableEq

/-- `template_versions_template_id_version_key`. -/
def VersionRow.clash (a b : VersionRow) : Bool :=
  decide (a.templateId = b.templateId) && decide (a.version = b.version)

/-- A row of `template_reviews`. -/
structure ReviewRow where
  templateId : Uuid
  tenantId : Uuid
  rating : Int
  comment : Option String
  createdBy : Option Uuid
  createdAt : Instant
  updatedAt : Instant
deriving DecidableEq, Repr

/-- `template_reviews_template_id_tenant_id_key`. -/
def ReviewRow.clash (a b : ReviewRow) : Bool :=
  decide (a.templateId = b.templateId) && decide (a.tenantId = b.tenantId)

/-- The three tables. -/
structure Library where
  templates : Table Uuid TemplateRow TemplateRow.clash
  versions : Table Uuid VersionRow VersionRow.clash
  reviews : Table Uuid ReviewRow ReviewRow.clash

/-- The library with nothing in it. -/
def Library.empty : Library := ⟨.empty, .empty, .empty⟩

/-! ## Reads -/

/-- `TemplateRecord`. -/
structure TemplateRecord where
  id : Uuid
  tenantId : Uuid
  name : String
  description : Option String
  definition : MetaSchemaDefinition
  tags : List String
  locale : Option String
  visibility : TemplateVisibility
  author : Option String
  forkOf : Option Uuid
  createdBy : Option Uuid
  createdAt : Instant
  updatedAt : Instant

/-- `tags_to_json`. -/
def tagsToJson (tags : List String) : Json := .array (tags.map .string)

/-- A list of texts read from a JSON array of them. -/
def readTags : Json → Option (List String)
  | .array items => items.mapM Json.asStr
  | _ => none

/-- `tags_from_json`. -/
def tagsFromJson (value : Json) : Except YorishiroError (List String) :=
  match readTags value with
  | some tags => .ok tags
  | none => .error (.internal (.custom "the tags are not a list of texts"))

/-- `ListParams`. -/
structure ListParams where
  limit : Int
  offset : Int
deriving DecidableEq, Repr

/-- `MAX_LIST_LIMIT`. -/
def maxListLimit : Int := 200

/-- `LIMIT` and `OFFSET`: the first clamped to 1 up to 200, the second to 0 and above. -/
def ListParams.page {α : Type} (p : ListParams) (rows : List α) : List α :=
  (rows.drop (max p.offset 0).toNat).take (max 1 (min p.limit maxListLimit)).toNat

/-- `visible_to`: its own templates and those shared with the community. -/
def visibleTo (tenantId : Uuid) (row : TemplateRow) : Bool :=
  decide (row.tenantId = tenantId) || decide (row.visibility = .community)

/-- What every function answers for a template that is not there, or not for the caller. -/
def templateMissing (id : Uuid) : YorishiroError :=
  .notFound ("template '" ++ id.toString ++ "' was not found")

section Functions

variable (decode : Decoder)

/-- `TemplateRecord::try_from`. -/
def TemplateRow.toRecord (id : Uuid) (row : TemplateRow) :
    Except YorishiroError TemplateRecord := do
  let definition ← (decode row.definition).mapError fun message => .internal (.custom message)
  let tags ← tagsFromJson row.tags
  pure
    { id := id
      tenantId := row.tenantId
      name := row.name
      description := row.description
      definition := definition
      tags := tags
      locale := row.locale
      visibility := row.visibility
      author := row.author
      forkOf := row.forkOf
      createdBy := row.createdBy
      createdAt := row.createdAt
      updatedAt := row.updatedAt }

/-- `list_templates`. Templates created at the same instant come in the order of their ids. -/
def listTemplates (lib : Library) (tenantId : Uuid) (page : ListParams) :
    Except YorishiroError (List TemplateRecord) :=
  let rows := (lib.templates.rows.entries.filter fun e => visibleTo tenantId e.2).insertionSort
    fun a b => a.2.createdAt ≤ b.2.createdAt
  (page.page rows).mapM fun e => e.2.toRecord decode e.1

/-- `get_template`. -/
def getTemplate (lib : Library) (tenantId id : Uuid) : Except YorishiroError TemplateRecord :=
  match (lib.templates.get? id).filter (visibleTo tenantId) with
  | some row => row.toRecord decode id
  | none => .error (templateMissing id)

/-! ## Writes -/

/-- `CreateTemplateInput`. -/
structure CreateTemplateInput where
  name : String
  description : Option String
  definition : Received decode
  tags : List String
  locale : Option String
  author : Option String

/-- `UpdateTemplateInput`. -/
structure UpdateTemplateInput where
  name : Option String
  description : Option String
  definition : Option (Received decode)
  tags : Option (List String)
  locale : Option String

variable {decode}

/-- The refusal of a name the tenant has already given. -/
def nameTaken (name : String) : DbErr → YorishiroError
  | .uniqueViolation =>
      .conflict ("a template named '" ++ name ++ "' already exists for this tenant")
  | err => .internal err

/-- The row `create_template` inserts. -/
def CreateTemplateInput.row (input : CreateTemplateInput decode) (tenantId : Uuid)
    (createdBy : Option Uuid) (now : Instant) : TemplateRow where
  tenantId := tenantId
  name := input.name
  description := input.description
  definition := input.definition.definition.toJson
  tags := tagsToJson input.tags
  locale := input.locale
  visibility := .tenant
  author := input.author
  forkOf := none
  createdBy := createdBy
  createdAt := now
  updatedAt := now

/-- No field is given. -/
def UpdateTemplateInput.isEmpty (input : UpdateTemplateInput decode) : Bool :=
  input.name.isNone && input.description.isNone && input.definition.isNone &&
    input.tags.isNone && input.locale.isNone

/-- The row with the given fields set; every update is stamped. -/
def UpdateTemplateInput.apply (input : UpdateTemplateInput decode) (now : Instant)
    (row : TemplateRow) : TemplateRow :=
  { row with
    name := input.name.getD row.name
    description := input.description.orElse fun _ => row.description
    definition := (input.definition.map fun d => d.definition.toJson).getD row.definition
    tags := (input.tags.map tagsToJson).getD row.tags
    locale := input.locale.orElse fun _ => row.locale
    updatedAt := now }

/-- The row `fork_template` inserts for the template it copies. -/
def TemplateRecord.fork (source : TemplateRecord) (tenantId : Uuid) (createdBy : Option Uuid)
    (newName : String) (now : Instant) : TemplateRow where
  tenantId := tenantId
  name := newName
  description := source.description
  definition := source.definition.toJson
  tags := tagsToJson source.tags
  locale := source.locale
  visibility := .tenant
  author := source.author
  forkOf := some source.id
  createdBy := createdBy
  createdAt := now
  updatedAt := now

/-- The template with this id, if the tenant owns it. -/
def Library.owned (lib : Library) (tenantId id : Uuid) : Option TemplateRow :=
  (lib.templates.get? id).filter fun row => decide (row.tenantId = tenantId)

/-- The library with other templates. -/
def Library.withTemplates (lib : Library) (templates : Table Uuid TemplateRow TemplateRow.clash) :
    Library :=
  { lib with templates := templates }

/-- A template and what refers to it: versions and reviews go with it, forks forget it. -/
def Library.remove (lib : Library) (id : Uuid) : Except YorishiroError Library := do
  let (templates, _) ← ((lib.templates.delete id).updateWhere
    (fun _ row => decide (row.forkOf = some id))
    fun row => { row with forkOf := none }).mapError .internal
  pure
    { templates := templates
      versions := lib.versions.deleteWhere fun _ row => decide (row.templateId = id)
      reviews := lib.reviews.deleteWhere fun _ row => decide (row.templateId = id) }

variable (env : Dialect) (display : ℚ → String)

/-- The definition, if one is given, is checked. -/
def UpdateTemplateInput.validate (input : UpdateTemplateInput decode) :
    Except YorishiroError Unit :=
  match input.definition with
  | some d => validateDefinition env display d.definition
  | none => .ok ()

/-- `create_template`. -/
def createTemplate (lib : Library) (id tenantId : Uuid) (createdBy : Option Uuid)
    (input : CreateTemplateInput decode) (now : Instant) :
    Except YorishiroError (Library × TemplateRecord) := do
  validateDefinition env display input.definition.definition
  let row := input.row tenantId createdBy now
  let templates ← (lib.templates.insert id row).mapError (nameTaken input.name)
  let record ← row.toRecord decode id
  pure (lib.withTemplates templates, record)

/-- `update_template`, without the schemas that follow the template. -/
def updateTemplate (lib : Library) (tenantId id : Uuid) (input : UpdateTemplateInput decode)
    (now : Instant) : Except YorishiroError (Library × TemplateRecord) := do
  input.validate env display
  if input.isEmpty then
    let record ← getTemplate decode lib tenantId id
    pure (lib, record)
  else
    match lib.owned tenantId id with
    | none => .error (templateMissing id)
    | some existing => do
        let (templates, _) ← (lib.templates.updateRow id (fun _ => true)
          (input.apply now)).mapError .internal
        let record ← (input.apply now existing).toRecord decode id
        pure (lib.withTemplates templates, record)

/-- `delete_template`, without the schemas that follow the template. -/
def deleteTemplate (lib : Library) (tenantId id : Uuid) : Except YorishiroError Library :=
  match lib.owned tenantId id with
  | none => .error (templateMissing id)
  | some _ => lib.remove id

variable (decode) in
/-- `fork_template` of a template the tenant sees. -/
def forkTemplate (lib : Library) (id tenantId : Uuid) (createdBy : Option Uuid)
    (sourceTemplateId : Uuid) (newName : String) (now : Instant) :
    Except YorishiroError (Library × TemplateRecord) := do
  let source ← getTemplate decode lib tenantId sourceTemplateId
  let row := source.fork tenantId createdBy newName now
  let templates ← (lib.templates.insert id row).mapError (nameTaken newName)
  let record ← row.toRecord decode id
  pure (lib.withTemplates templates, record)

end Functions

end Yorishiro.Template
