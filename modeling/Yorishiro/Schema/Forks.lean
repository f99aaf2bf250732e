import Mathlib.Data.List.Dedup
import Yorishiro.Lib.Search
import Yorishiro.Schema.Sequence

/-!
# Schema forks

A workspace forks a schema of another workspace of its tenant. The fork names its source and
its head, a version of its own; following the source or editing the fork makes a new head.
`Catalog` is the tables of all workspaces that the fork and version functions read and write,
with the rows elsewhere that refer to a version.
-/

set_option autoImplicit false

namespace Yorishiro.Schema

open Yorishiro.Lib Yorishiro.Lib.JsonSchema Yorishiro.Metaschema
open Yorishiro.Queue (Instant)

/-! ## Rows -/

/-- A workspace: its tenant, its own row, and its schema versions. -/
structure Space where
  tenantId : Uuid
  workspace : Workspace
  schemas : Schemas

/-- A row of `workspace_schema_forks`. -/
structure Fork where
  tenantId : Uuid
  workspaceId : Uuid
  sourceWorkspaceId : Uuid
  sourceSchemaId : Uuid
  sourceSchemaVersion : Int
  sourceSchemaName : String
  forkSchemaId : Uuid
  customized : Bool
  createdAt : Instant
  updatedAt : Instant
deriving DecidableEq, Repr

/-- `workspace_schema_forks_workspace_source_name_key`. -/
def Fork.clash (a b : Fork) : Bool :=
  decide (a.workspaceId = b.workspaceId) && decide (a.sourceWorkspaceId = b.sourceWorkspaceId) &&
    decide (a.sourceSchemaName = b.sourceSchemaName)

/-- The table `workspace_schema_forks`. -/
abbrev Forks := Table Uuid Fork Fork.clash

/-- A row of `workspace_schema_fork_heads`. -/
structure ForkHead where
  tenantId : Uuid
  workspaceId : Uuid
  forkId : Uuid
  schemaId : Uuid
deriving DecidableEq, Repr

/-- `workspace_schema_fork_heads_fork_schema_key`. -/
def ForkHead.clash (a b : ForkHead) : Bool :=
  decide (a.forkId = b.forkId) && decide (a.schemaId = b.schemaId)

/-- Of an entity, a snapshot or a proposal: the workspace and the version it refers to. -/
structure Reference where
  workspaceId : Uuid
  schemaId : Uuid
deriving DecidableEq, Repr

/-- The tables. -/
structure Catalog where
  clock : Instant
  spaces : OrderedMap Uuid Space
  forks : Forks
  heads : Table Uuid ForkHead ForkHead.clash
  entities : OrderedMap Uuid Reference
  snapshots : OrderedMap Uuid Reference
  proposals : OrderedMap Uuid Reference

/-- A version of a workspace. -/
def Catalog.schema (c : Catalog) (workspaceId schemaId : Uuid) : Option SchemaRecord :=
  (c.spaces.get? workspaceId).bind fun space => space.schemas.get? schemaId

/-- A version by its primary key. -/
def Catalog.findById (c : Catalog) (schemaId : Uuid) : Option SchemaRecord :=
  c.spaces.entries.findSome? fun e => e.2.schemas.get? schemaId

/-- The workspace is one of the tenant. -/
def Catalog.belongs (c : Catalog) (tenantId workspaceId : Uuid) : Bool :=
  (c.spaces.get? workspaceId).any fun space => decide (space.tenantId = tenantId)

/-- The catalog with other versions in a workspace. -/
def Catalog.setSchemas (c : Catalog) (workspaceId : Uuid) (space : Space) (schemas : Schemas) :
    Catalog :=
  { c with spaces := c.spaces.insert workspaceId { space with schemas := schemas } }

/-- Refuses unless the condition holds. -/
def require (condition : Bool) (err : YorishiroError) : Except YorishiroError Unit :=
  if condition then .ok () else .error err

theorem require_eq_ok {condition : Bool} {err : YorishiroError} {u : Unit} :
    require condition err = .ok u ↔ condition = true := by
  unfold require
  split_ifs with h
  · exact iff_of_true rfl h
  · exact iff_of_false (fun hok => by cases hok) h

/-! ## Sources -/

/-- `source_by_id`. -/
def sourceById (c : Catalog) (tenantId sourceWorkspaceId sourceSchemaId : Uuid) :
    Option SchemaRecord :=
  (c.schema sourceWorkspaceId sourceSchemaId).filter fun row => decide (row.tenantId = tenantId)

/-- `latest_source_by_name`. -/
def latestSourceByName (c : Catalog) (tenantId sourceWorkspaceId : Uuid) (name : String) :
    Option (Uuid × SchemaRecord) :=
  (c.spaces.get? sourceWorkspaceId).bind fun space =>
    latest space.schemas fun row => decide (row.tenantId = tenantId) && isActive name row

/-- The refusal of a source that is not there. -/
def sourceMissing : YorishiroError := .notFound "source schema was not found"

/-- `current_source`. -/
def currentSource (c : Catalog) (tenantId sourceWorkspaceId sourceSchemaId : Uuid) :
    Except YorishiroError SchemaRecord :=
  match sourceById c tenantId sourceWorkspaceId sourceSchemaId with
  | none => .error sourceMissing
  | some source => do
      require (decide (source.status = .active))
        (.validationFailed "source_schema_id must name the active source schema" []
          "use the current active schema version")
      pure source

/-- `latest_source`. -/
def latestSource (c : Catalog) (tenantId sourceWorkspaceId : Uuid) (name : String) :
    Except YorishiroError (Uuid × SchemaRecord) :=
  match latestSourceByName c tenantId sourceWorkspaceId name with
  | none => .error sourceMissing
  | some source => .ok source

/-! ## The search for a cycle -/

/-- `fork_edges`. -/
def forkEdges (forks : Forks) (tenantId workspaceId : Uuid) : List Uuid :=
  (forks.rows.entries.filter fun e =>
    decide (e.2.tenantId = tenantId) && decide (e.2.workspaceId = workspaceId)).map
      fun e => e.2.sourceWorkspaceId

/-- The workspaces that have forks. -/
def forkingWorkspaces (forks : Forks) : List Uuid :=
  (forks.rows.entries.map fun e => e.2.workspaceId).dedup

/-- The loop of `create`: from the source along stored edges, until the workspace is met or
nothing is pending. -/
def closesCycle (forks : Forks) (tenantId workspaceId sourceWorkspaceId : Uuid) : Option Bool :=
  walk (forkEdges forks tenantId) workspaceId
    (searchFuel (forkEdges forks tenantId) (forkingWorkspaces forks)) [sourceWorkspaceId] []

/-! ## Statements -/

/-- `get_fork`. -/
def getFork (c : Catalog) (tenantId workspaceId forkId : Uuid) : Except YorishiroError Fork :=
  match (c.forks.get? forkId).filter fun fork =>
      decide (fork.tenantId = tenantId) && decide (fork.workspaceId = workspaceId) with
  | some fork => .ok fork
  | none => .error (.notFound ("schema fork '" ++ forkId.toString ++ "' was not found"))

/-- The trigger `check_workspace_schema_fork_integrity` and the check of the version. -/
def checkForkIntegrity (c : Catalog) (fork : Fork) : Except YorishiroError Unit := do
  require (c.belongs fork.tenantId fork.workspaceId)
    (.internal (.custom "workspace_schema_forks target workspace mismatch"))
  require (c.belongs fork.tenantId fork.sourceWorkspaceId)
    (.internal (.custom "workspace_schema_forks source workspace mismatch"))
  require ((c.schema fork.sourceWorkspaceId fork.sourceSchemaId).any fun row =>
      decide (row.tenantId = fork.tenantId) && decide (row.name = fork.sourceSchemaName) &&
        decide (row.version = fork.sourceSchemaVersion))
    (.internal (.custom "workspace_schema_forks source schema mismatch"))
  require ((c.schema fork.workspaceId fork.forkSchemaId).any fun row =>
      decide (row.tenantId = fork.tenantId) && decide (row.name = fork.sourceSchemaName))
    (.internal (.custom "workspace_schema_forks fork schema mismatch"))
  require (decide (0 < fork.sourceSchemaVersion))
    (.internal (.custom "workspace_schema_forks_source_schema_version_check"))

/-- `INSERT` into `workspace_schema_fork_heads`, with its trigger. -/
def insertHeadRow (c : Catalog) (id : Uuid) (head : ForkHead) : Except YorishiroError Catalog := do
  require ((c.forks.get? head.forkId).any fun fork =>
      decide (fork.tenantId = head.tenantId) && decide (fork.workspaceId = head.workspaceId))
    (.internal (.custom "workspace_schema_fork_heads fork mismatch"))
  require ((c.schema head.workspaceId head.schemaId).any fun row =>
      decide (row.tenantId = head.tenantId))
    (.internal (.custom "workspace_schema_fork_heads schema mismatch"))
  let heads ← (c.heads.insert id head).mapError .internal
  pure { c with heads := heads }

section Operations

variable (env : Dialect) (display : ℚ → String)

/-- `insert_fork_head` in the workspace; version ids are unique across workspaces. -/
def Catalog.insertForkHead (c : Catalog) (tenantId workspaceId : Uuid)
    (definition : MetaSchemaDefinition) (id : Uuid) :
    Except YorishiroError (Catalog × SchemaRecord) :=
  match c.spaces.get? workspaceId with
  | none => do
      validateDefinition env display definition
      .error (.internal .foreignKeyViolation)
  | some space => do
      let (schemas, row) ← Schema.insertForkHead env display space.schemas tenantId definition id
      require (c.findById id).isNone (.internal .uniqueViolation)
      pure (c.setSchemas workspaceId space schemas, row)

/-- A fork, in an answer. -/
structure ForkRecord where
  id : Uuid
  fork : Fork
  forkSchemaVersion : Int
  upstreamVersion : Option Int
  definition : MetaSchemaDefinition

/-- `to_record`. -/
def toRecord (c : Catalog) (id : Uuid) (fork : Fork) : Except YorishiroError ForkRecord :=
  match c.findById fork.forkSchemaId with
  | none => .error (.internal (.custom "fork head is missing"))
  | some head =>
      let source := latestSourceByName c fork.tenantId fork.sourceWorkspaceId fork.sourceSchemaName
      let newer := source.filter fun s => decide (fork.sourceSchemaVersion < s.2.version)
      .ok ⟨id, fork, head.version, newer.map fun s => s.2.version, head.definition⟩

/-- What a call that makes a fork or a head draws: the ids of the rows. -/
structure NewFork where
  schemaId : Uuid
  forkId : Uuid
  headId : Uuid
deriving DecidableEq, Repr

/-- What `create` is asked for. -/
structure CreateInput where
  sourceWorkspaceId : Uuid
  sourceSchemaId : Uuid
deriving DecidableEq, Repr

/-- The rest of `create`, once the source is read: the head, the fork and its row of heads. The
source's workspace is not locked, so the source may have changed since. -/
def storeFork (c : Catalog) (fresh : NewFork) (tenantId workspaceId : Uuid) (input : CreateInput)
    (source : SchemaRecord) : Except YorishiroError (Catalog × Fork) := do
  let (c, _) ← c.insertForkHead env display tenantId workspaceId source.definition fresh.schemaId
  let fork : Fork :=
    { tenantId := tenantId
      workspaceId := workspaceId
      sourceWorkspaceId := input.sourceWorkspaceId
      sourceSchemaId := input.sourceSchemaId
      sourceSchemaVersion := source.version
      sourceSchemaName := source.name
      forkSchemaId := fresh.schemaId
      customized := false
      createdAt := c.clock
      updatedAt := c.clock }
  checkForkIntegrity c fork
  let forks ← (c.forks.insert fresh.forkId fork).mapError fun
    | .uniqueViolation => .conflict "this workspace already has a fork for that source schema"
    | err => .internal err
  let c ← insertHeadRow { c with forks := forks } fresh.headId
    ⟨tenantId, workspaceId, fresh.forkId, fresh.schemaId⟩
  pure (c, fork)

/-- `create`. -/
def createFork (c : Catalog) (fresh : NewFork) (tenantId workspaceId : Uuid) (input : CreateInput) :
    Except YorishiroError (Catalog × ForkRecord) := do
  require (decide (input.sourceWorkspaceId ≠ workspaceId))
    (.validationFailed "a workspace cannot fork itself" []
      "choose a schema from another workspace in the same tenant")
  require (c.spaces.get? workspaceId).isSome
    (.notFound ("workspace '" ++ workspaceId.toString ++ "' was not found"))
  require (c.belongs tenantId workspaceId) (.notFound "workspace was not found")
  let source ← currentSource c tenantId input.sourceWorkspaceId input.sourceSchemaId
  -- the loop ends with an answer (`closesCycle_eq_some`), so this asks whether it found a cycle
  require (decide (closesCycle c.forks tenantId workspaceId input.sourceWorkspaceId = some false))
    (.conflict "creating this fork would create a workspace cycle")
  let (c, fork) ← storeFork env display c fresh tenantId workspaceId input source
  let record ← toRecord c fresh.forkId fork
  pure (c, record)

/-- What `update` is asked for. -/
structure UpdateInput where
  definition : Option MetaSchemaDefinition
  action : Option String
  force : Bool
  expectedForkSchemaId : Option Uuid
  expectedSourceSchemaId : Option Uuid

/-- The new definition of a fork, and the source version if it follows its source. -/
def chosenDefinition (c : Catalog) (tenantId : Uuid) (fork : Fork) (input : UpdateInput) :
    Except YorishiroError (MetaSchemaDefinition × Option (Uuid × SchemaRecord)) :=
  match input.definition with
  | some definition => do
      validateDefinition env display definition
      require (decide (definition.name = fork.sourceSchemaName))
        (.validationFailed "a fork definition cannot rename its source schema" []
          "keep definition.name equal to source_schema_name")
      pure (definition, none)
  | none => do
      require (decide (input.action = some "follow"))
        (.validationFailed "the only supported fork action is follow" [] "use action=follow")
      require (!fork.customized || input.force)
        (.conflict "following would discard local fork edits; set force=true")
      let source ← latestSource c tenantId fork.sourceWorkspaceId fork.sourceSchemaName
      require (input.expectedSourceSchemaId.all fun expected => decide (expected = source.1))
        (.conflict "the source schema changed since it was read")
      pure (source.2.definition, some source)

/-- The row of a fork with a new head. -/
def Fork.withHead (fork : Fork) (head : Uuid) (source : Option (Uuid × SchemaRecord))
    (time : Instant) : Fork :=
  { fork with
    forkSchemaId := head
    customized := source.isNone
    updatedAt := time
    sourceSchemaId := (source.map Prod.fst).getD fork.sourceSchemaId
    sourceSchemaVersion := (source.map fun s => s.2.version).getD fork.sourceSchemaVersion }

/-- The refusal of an outdated update. -/
def forkChanged : YorishiroError := .conflict "the schema fork changed since it was read"

/-- The rest of `update`, once the definition is chosen: the head, the fork's row and its row of
heads. A source that is followed may have changed since it was read. -/
def storeHead (c : Catalog) (fresh : NewFork) (tenantId workspaceId forkId : Uuid) (fork : Fork)
    (definition : MetaSchemaDefinition) (source : Option (Uuid × SchemaRecord)) :
    Except YorishiroError Catalog := do
  let (c, _) ← c.insertForkHead env display tenantId workspaceId definition fresh.schemaId
  let fork' := fork.withHead fresh.schemaId source c.clock
  let (forks, n) ← (c.forks.updateRow forkId
    (fun row => decide (row.forkSchemaId = fork.forkSchemaId)) fun _ => fork').mapError .internal
  require (decide (n ≠ 0)) forkChanged
  checkForkIntegrity c fork'
  insertHeadRow { c with forks := forks } fresh.headId
    ⟨tenantId, workspaceId, forkId, fresh.schemaId⟩

/-- `update`. -/
def updateFork (c : Catalog) (fresh : NewFork) (tenantId workspaceId forkId : Uuid)
    (input : UpdateInput) : Except YorishiroError (Catalog × ForkRecord) := do
  require (decide (input.definition.isSome ≠ input.action.isSome))
    (.validationFailed "provide exactly one of definition or action=follow" []
      "local updates use definition; synchronization uses action=follow")
  let fork ← getFork c tenantId workspaceId forkId
  require (input.expectedForkSchemaId.all fun expected => decide (expected = fork.forkSchemaId))
    forkChanged
  let (definition, source) ← chosenDefinition env display c tenantId fork input
  let c ← storeHead env display c fresh tenantId workspaceId forkId fork definition source
  let stored ← getFork c tenantId workspaceId forkId
  let record ← toRecord c forkId stored
  pure (c, record)

end Operations

/-- `delete`; the heads go with their fork. -/
def deleteFork (c : Catalog) (tenantId workspaceId forkId : Uuid) :
    Except YorishiroError Catalog := do
  let _ ← getFork c tenantId workspaceId forkId
  let headIds := (c.heads.rows.entries.filter fun e =>
    decide (e.2.forkId = forkId) && decide (e.2.tenantId = tenantId) &&
      decide (e.2.workspaceId = workspaceId)).map fun e => e.2.schemaId
  require (decide ((c.entities.count fun _ entity =>
      decide (entity.workspaceId = workspaceId) && headIds.contains entity.schemaId) = 0))
    (.conflict "the schema fork is referenced by an entity and cannot be detached")
  pure { c with
    forks := c.forks.delete forkId
    heads := c.heads.deleteWhere fun _ head => decide (head.forkId = forkId) }

end Yorishiro.Schema
