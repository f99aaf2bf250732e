import Yorishiro.Base.Quotas
import Yorishiro.Entity.Programs

/-!
# The operations of a workspace

What a workspace can do to its schemas and entities, one whole operation after the
other: the schema store, `create_with_quota`, `import_with_quota` and the
transactions of `Entity.Programs`. An operation that fails rolls back. The database
hands out identifiers of entities, and hands none out twice (`issued`).
-/

set_option autoImplicit false

namespace Yorishiro.Entity

open Yorishiro.Lib Yorishiro.Lib.JsonSchema Yorishiro.Metaschema Yorishiro.Schema
open Yorishiro.Queue (Instant)
open Yorishiro.Inference (InferenceJobs)

/-! ## State -/

/-- `RelationStatus`. -/
inductive RelationStatus where
  | active
  | deprecated
  | archived
deriving DecidableEq, Repr

/-- A row of `entity_relations` (its primary key is the table's key). -/
structure RelationRecord where
  sourceId : Uuid
  targetId : Uuid
  relationType : String
  properties : Json
  status : RelationStatus
deriving DecidableEq

/-- `entity_relations_unique`. -/
def RelationRecord.clash (a b : RelationRecord) : Bool :=
  decide (a.sourceId = b.sourceId) && decide (a.targetId = b.targetId) &&
    decide (a.relationType = b.relationType)

/-- The table `entity_relations`. -/
abbrev Relations := Table Uuid RelationRecord RelationRecord.clash

/-- The database of one workspace, and the entity identifiers it has handed out. -/
structure WorkspaceState where
  store : EntityStore
  relations : Relations
  issued : List Uuid

/-- A workspace before its first schema. -/
def WorkspaceState.empty (maxEntities : Option Int) : WorkspaceState where
  store :=
    { rows := OrderedMap.empty
      tables :=
        { workspace := { schemaPending := true, schemaId := none, maxEntities := maxEntities }
          schemas := Table.empty
          snapshots := []
          proposals := OrderedMap.empty
          jobs := Table.empty } }
  relations := Table.empty
  issued := []

/-- The state with other schemas. -/
def WorkspaceState.withSchemas (s : WorkspaceState) (schemas : Schemas) (workspace : Workspace) :
    WorkspaceState :=
  { s with
    store := { s.store with
      tables := { s.store.tables with schemas := schemas, workspace := workspace } } }

/-! ## Creating entities -/

/-- `check_entity_quota`. -/
def checkEntityQuota (cx : Context) (store : EntityStore) (quota : Option Int) :
    Except YorishiroError Unit :=
  match effectiveLimit store.tables.workspace.maxEntities quota with
  | none => .ok ()
  | some max =>
      if max ≤ store.rows.entries.length then
        .error (.conflict ("workspace '" ++ cx.workspaceId.toString ++
          "' has reached its entity limit (" ++ toString max ++
          "); raise max_entities or delete existing entities"))
      else .ok ()

/-- The refusal of an entity before the first schema. -/
def schemaPending (cx : Context) : YorishiroError :=
  .validationFailed ("workspace '" ++ cx.workspaceId.toString ++
      "' has no schema yet, so there is nothing to validate this entity against") []
    ("create a schema first: POST /api/schemas, or the create_schema tool. " ++
      "list_templates shows the built-in ones.")

/-- `CreateEntityInput`. -/
structure CreateEntityInput where
  schemaName : String
  entityType : String
  data : Json
deriving DecidableEq

/-- The checks of `create_with_quota`, and the version that the entity gets. -/
def checkCreate (cx : Context) (store : EntityStore) (input : CreateEntityInput)
    (quota : Option Int) : Except YorishiroError (Uuid × SchemaRecord) := do
  checkEntityQuota cx store quota
  if store.tables.workspace.schemaPending then .error (schemaPending cx)
  else do
    let schema ← getActiveSchema store.tables.schemas input.schemaName
    let entityTypeDef ← resolveEntityType schema.2.definition input.entityType
    validateData cx.validator entityTypeDef input.data
    pure schema

/-- `create_with_quota`, with the identifier and the stamp the database gives. -/
def createWithQuota (cx : Context) (s : WorkspaceState) (input : CreateEntityInput)
    (createdBy : Option Uuid) (quota : Option Int) (id : Uuid) (stamp : Stamp) :
    Except YorishiroError WorkspaceState := do
  let schema ← checkCreate cx s.store input quota
  -- identifiers are time-ordered UUIDs, never given out twice
  if id ∈ s.issued then .error (.internal .uniqueViolation)
  else
    pure
      { s with
        store := { s.store with
          rows := s.store.rows.insert id
            { schemaId := schema.1
              schemaVersion := schema.2.version
              entityType := input.entityType
              data := input.data
              updatedAt := stamp.now
              createdBy := createdBy
              updatedBy := none
              embeddingSyncToken := stamp.token } }
        issued := id :: s.issued }

theorem checkCreate_eq_ok {cx : Context} {store : EntityStore} {input : CreateEntityInput}
    {quota : Option Int} {schema : Uuid × SchemaRecord} :
    checkCreate cx store input quota = .ok schema ↔
      checkEntityQuota cx store quota = .ok () ∧
      store.tables.workspace.schemaPending = false ∧
      getActiveSchema store.tables.schemas input.schemaName = .ok schema ∧
      ∃ t, resolveEntityType schema.2.definition input.entityType = .ok t ∧
        validateData cx.validator t input.data = .ok () := by
  unfold checkCreate
  rw [Except.bind_eq_ok]
  constructor
  · rintro ⟨⟨⟩, hquota, h⟩
    split_ifs at h with hpending
    obtain ⟨active, hactive, h⟩ := Except.bind_eq_ok.mp h
    obtain ⟨t, htype, h⟩ := Except.bind_eq_ok.mp h
    obtain ⟨⟨⟩, hvalid, h⟩ := Except.bind_eq_ok.mp h
    cases h
    exact ⟨hquota, Bool.eq_false_iff.mpr hpending, hactive, t, htype, hvalid⟩
  · rintro ⟨hquota, hpending, hactive, t, htype, hvalid⟩
    refine ⟨(), hquota, ?_⟩
    rw [if_neg (Bool.eq_false_iff.mp hpending)]
    exact Except.bind_eq_ok.mpr ⟨schema, hactive, Except.bind_eq_ok.mpr ⟨t, htype,
      Except.bind_eq_ok.mpr ⟨(), hvalid, rfl⟩⟩⟩

/-- The row of a created entity. -/
def createdRow (input : CreateEntityInput) (createdBy : Option Uuid) (schema : Uuid × SchemaRecord)
    (stamp : Stamp) : EntityRow where
  schemaId := schema.1
  schemaVersion := schema.2.version
  entityType := input.entityType
  data := input.data
  updatedAt := stamp.now
  createdBy := createdBy
  updatedBy := none
  embeddingSyncToken := stamp.token

theorem createWithQuota_eq_ok {cx : Context} {s s' : WorkspaceState} {input : CreateEntityInput}
    {createdBy : Option Uuid} {quota : Option Int} {id : Uuid} {stamp : Stamp} :
    createWithQuota cx s input createdBy quota id stamp = .ok s' ↔
      ∃ schema, checkCreate cx s.store input quota = .ok schema ∧ id ∉ s.issued ∧
        s' = { s with
          store := { s.store with
            rows := s.store.rows.insert id (createdRow input createdBy schema stamp) }
          issued := id :: s.issued } := by
  unfold createWithQuota
  rw [Except.bind_eq_ok]
  refine exists_congr fun schema => and_congr_right fun _ => ?_
  split_ifs with hid
  · exact ⟨nofun, fun h => absurd hid h.1⟩
  · exact ⟨fun h => ⟨hid, (Except.ok.inj h).symm⟩, fun h => congrArg Except.ok h.2.symm⟩

/-! ## Creating relations -/

/-- `get`. -/
def get (store : EntityStore) (id : Uuid) : Except YorishiroError EntityRow :=
  match store.rows.get? id with
  | some row => .ok row
  | none => .error (entityNotFound id)

/-- `validate_relation_type`. -/
def validateRelationType (store : EntityStore) (source target : EntityRow)
    (relationType : String) : Except YorishiroError Unit := do
  let schema ← getById store.tables.schemas source.schemaId
  match schema.definition.relationTypes.get? relationType with
  | none => .error (.notFound ("relation_type '" ++ relationType ++
      "' is not defined in schema '" ++ schema.definition.name ++ "'"))
  | some relationDef =>
      if relationDef.source ≠ source.entityType ∨ relationDef.target ≠ target.entityType then
        .error (.relationTypeMismatch ("relation_type '" ++ relationType ++
          "' expects source='" ++ relationDef.source ++ "' target='" ++ relationDef.target ++
          "', but got source='" ++ source.entityType ++ "' target='" ++ target.entityType ++ "'"))
      else .ok ()

/-- `create` of a relation, with the identifier the database gives. -/
def createRelation (s : WorkspaceState) (sourceId targetId : Uuid) (relationType : String)
    (properties : Json) (id : Uuid) : Except YorishiroError WorkspaceState := do
  let source ← get s.store sourceId
  let target ← get s.store targetId
  validateRelationType s.store source target relationType
  let relations ← (s.relations.insert id
    { sourceId := sourceId
      targetId := targetId
      relationType := relationType
      properties := if properties = .null then .object [] else properties
      status := .active }).mapError fun
    | .uniqueViolation => .conflict ("relation '" ++ relationType ++ "' between '" ++
        sourceId.toString ++ "' and '" ++ targetId.toString ++ "' already exists")
    | err => .internal err
  pure { s with relations := relations }

theorem validateRelationType_eq_ok {store : EntityStore} {source target : EntityRow}
    {relationType : String} :
    validateRelationType store source target relationType = .ok () ↔
      ∃ schema relationDef, store.tables.schemas.get? source.schemaId = some schema ∧
        schema.definition.relationTypes.get? relationType = some relationDef ∧
        relationDef.source = source.entityType ∧ relationDef.target = target.entityType := by
  unfold validateRelationType
  rw [Except.bind_eq_ok]
  refine exists_congr fun schema => ?_
  rw [getById_eq_ok, exists_and_left]
  refine and_congr_right fun _ => ?_
  cases schema.definition.relationTypes.get? relationType with
  | none => simp
  | some relationDef =>
      dsimp only
      split_ifs with hmismatch
      · refine ⟨nofun, ?_⟩
        rintro ⟨_, hdef, hsource, htarget⟩
        cases hdef
        exact absurd htarget (hmismatch.resolve_left (absurd hsource))
      · push Not at hmismatch
        exact ⟨fun _ => ⟨relationDef, rfl, hmismatch⟩, fun _ => rfl⟩

/-- The row of a created relation. -/
def createdRelation (sourceId targetId : Uuid) (relationType : String) (properties : Json) :
    RelationRecord where
  sourceId := sourceId
  targetId := targetId
  relationType := relationType
  properties := if properties = .null then .object [] else properties
  status := .active

theorem createRelation_eq_ok {s s' : WorkspaceState} {sourceId targetId : Uuid}
    {relationType : String} {properties : Json} {id : Uuid} :
    createRelation s sourceId targetId relationType properties id = .ok s' ↔
      ∃ source target relations, s.store.rows.get? sourceId = some source ∧
        s.store.rows.get? targetId = some target ∧
        validateRelationType s.store source target relationType = .ok () ∧
        s.relations.insert id (createdRelation sourceId targetId relationType properties) =
          .ok relations ∧
        s' = { s with relations := relations } := by
  have hget : ∀ {k : Uuid} {row : EntityRow},
      get s.store k = .ok row ↔ s.store.rows.get? k = some row := by
    intro k row
    unfold get
    cases s.store.rows.get? k with
    | none => simp
    | some row' => simp
  unfold createRelation
  constructor
  · intro h
    obtain ⟨source, hsource, h⟩ := Except.bind_eq_ok.mp h
    obtain ⟨target, htarget, h⟩ := Except.bind_eq_ok.mp h
    obtain ⟨_, htyped, h⟩ := Except.bind_eq_ok.mp h
    obtain ⟨relations, hinsert, h⟩ := Except.bind_eq_ok.mp h
    cases h
    exact ⟨source, target, relations, hget.mp hsource, hget.mp htarget, htyped,
      Except.mapError_eq_ok hinsert, rfl⟩
  · rintro ⟨source, target, relations, hsource, htarget, htyped, hinsert, rfl⟩
    refine Except.bind_eq_ok.mpr ⟨source, hget.mpr hsource, Except.bind_eq_ok.mpr ⟨target,
      hget.mpr htarget, Except.bind_eq_ok.mpr ⟨(), htyped, Except.bind_eq_ok.mpr
        ⟨relations, ?_, rfl⟩⟩⟩⟩
    exact (congrArg (Except.mapError _) hinsert).trans rfl

/-! ## Import -/

/-- `ExportRecord`, with the fields that an import reads. -/
inductive ExportRecord where
  | schema (id : Uuid) (definition : MetaSchemaDefinition)
  | entity (id schemaId : Uuid) (entityType : String) (data : Json)
  | relation (sourceId targetId : Uuid) (relationType : String) (properties : Json)

/-- A line of the imported document after trimming: empty, not a record (with the text of
the parser), or a record. -/
inductive ImportLine where
  | empty
  | invalid (err : String)
  | record (record : ExportRecord)

/-- `ImportResult` and the maps of `import_with_quota`. -/
structure ImportProgress where
  schemas : Nat
  entities : Nat
  relations : Nat
  entityIds : List Uuid
  entityIdMap : OrderedMap Uuid Uuid
  schemaNameByOldId : OrderedMap Uuid String
  schemaNameById : OrderedMap Uuid String

def ImportProgress.start : ImportProgress where
  schemas := 0
  entities := 0
  relations := 0
  entityIds := []
  entityIdMap := OrderedMap.empty
  schemaNameByOldId := OrderedMap.empty
  schemaNameById := OrderedMap.empty

/-- `annotate_line`. -/
def annotateLine (lineNo : Nat) : YorishiroError → YorishiroError
  | .validationFailed message details hint =>
      .validationFailed ("line " ++ toString lineNo ++ ": " ++ message) details hint
  | .notFound message => .notFound ("line " ++ toString lineNo ++ ": " ++ message)
  | .conflict message => .conflict ("line " ++ toString lineNo ++ ": " ++ message)
  | .relationTypeMismatch message =>
      .relationTypeMismatch ("line " ++ toString lineNo ++ ": " ++ message)
  | other => other

/-- The arguments of `import_with_quota`. -/
structure ImportArgs where
  tenantId : Uuid
  importedBy : Option Uuid
  entityQuota : Option Int

/-- The schema name that an entity line resolves to, and the memoized lookups. -/
def resolveSchemaName (schemas : Schemas) (p : ImportProgress) (schemaId : Uuid) :
    Except YorishiroError (String × OrderedMap Uuid String) :=
  match p.schemaNameByOldId.get? schemaId with
  | some name => .ok (name, p.schemaNameById)
  | none =>
      match p.schemaNameById.get? schemaId with
      | some name => .ok (name, p.schemaNameById)
      | none => (getById schemas schemaId).map fun schema =>
          (schema.name, p.schemaNameById.insert schemaId schema.name)

/-- The body of the loop of `import_with_quota` for a record, before its errors are
annotated; the database gives `id` and `stamp` to what the line inserts. -/
def importRecord (cx : Context) (args : ImportArgs) (s : WorkspaceState) (p : ImportProgress)
    (id : Uuid) (stamp : Stamp) :
    ExportRecord → Except YorishiroError (WorkspaceState × ImportProgress)
  -- an imported schema loses its identifier; the old one is remembered by name
  | .schema oldId definition => do
      let created ← createSchema cx.validator.env cx.showBound s.store.tables.schemas
        s.store.tables.workspace args.tenantId definition none none id stamp.now
      pure (s.withSchemas created.1 created.2.1,
        { p with
          schemas := p.schemas + 1
          schemaNameByOldId := p.schemaNameByOldId.insert oldId definition.name })
  | .entity oldId schemaId entityType data => do
      let resolved ← resolveSchemaName s.store.tables.schemas p schemaId
      let s' ← createWithQuota cx s
        { schemaName := resolved.1, entityType := entityType, data := data }
        args.importedBy args.entityQuota id stamp
      pure (s',
        { p with
          entities := p.entities + 1
          entityIds := p.entityIds ++ [id]
          entityIdMap := p.entityIdMap.insert oldId id
          schemaNameById := resolved.2 })
  | .relation sourceId targetId relationType properties => do
      -- an end that was not imported refers to an entity already in the workspace
      let s' ← createRelation s ((p.entityIdMap.get? sourceId).getD sourceId)
        ((p.entityIdMap.get? targetId).getD targetId) relationType properties id
      pure (s', { p with relations := p.relations + 1 })

/-- The body of the loop of `import_with_quota`; `given` is what the database gives to the
lines. -/
def importLine (cx : Context) (args : ImportArgs) (given : Nat → Uuid × Stamp)
    (state : WorkspaceState × ImportProgress) (line : ImportLine × Nat) :
    Except YorishiroError (WorkspaceState × ImportProgress) :=
  match line.1 with
  | .empty => .ok state
  | .invalid err => .error (.validationFailed
      ("line " ++ toString line.2 ++ ": invalid JSONL record: " ++ err) []
      ("each line must be a JSON object of the form " ++
        "\x7b\"kind\":\"schema\"|\"entity\"|\"relation\",\"record\":\x7b...\x7d\x7d"))
  | .record record =>
      (importRecord cx args state.1 state.2 (given line.2).1 (given line.2).2 record).mapError
        (annotateLine line.2)

/-- `import_with_quota`. -/
def importWithQuota (cx : Context) (args : ImportArgs) (given : Nat → Uuid × Stamp)
    (s : WorkspaceState) (lines : List ImportLine) :
    Except YorishiroError (WorkspaceState × ImportProgress) :=
  (lines.zipIdx 1).foldlM (importLine cx args given) (s, .start)

/-! ## Operations -/

/-- An operation on the workspace, with what the clock and the database give it. -/
inductive Op where
  | createSchema (tenantId : Uuid) (definition : MetaSchemaDefinition)
      (originTemplateId : Option Uuid) (originSnapshot : Option MetaSchemaDefinition)
      (id : Uuid) (now : Instant)
  | archive (id : Uuid)
  | create (input : CreateEntityInput) (createdBy : Option Uuid) (quota : Option Int)
      (id : Uuid) (stamp : Stamp)
  | importJsonl (args : ImportArgs) (lines : List ImportLine) (given : Nat → Uuid × Stamp)
  | run (job : Job) (stamps : Nat → Stamp)
  | infer (jobs : InferenceJobs) (proposals : OrderedMap Uuid ProposalRecord)

/-- The relations of a deleted entity go with it. -/
def cascade (relations : Relations) : Job → Relations
  | .delete id => relations.deleteWhere fun _ row =>
      decide (row.sourceId = id) || decide (row.targetId = id)
  | _ => relations

/-- What an operation does, if it succeeds. `infer` stands for all that the inference jobs
do: they write no entity, schema or snapshot. -/
def Op.apply (cx : Context) (s : WorkspaceState) : Op → Except YorishiroError WorkspaceState
  | .createSchema tenantId definition originTemplateId originSnapshot id now => do
      let created ← Schema.createSchema cx.validator.env cx.showBound s.store.tables.schemas
        s.store.tables.workspace tenantId definition originTemplateId originSnapshot id now
      pure (s.withSchemas created.1 created.2.1)
  | .archive id => do
      let archived ← Schema.archive s.store.tables.schemas id
      pure (s.withSchemas archived.1 s.store.tables.workspace)
  | .create input createdBy quota id stamp => createWithQuota cx s input createdBy quota id stamp
  | .importJsonl args lines given => do
      let imported ← importWithQuota cx args given s lines
      pure imported.1
  | .run job stamps => do
      -- one transaction after the other here; interleavings are the subject of `Sys`
      let done ← (code cx job).alone stamps 0 s.store
      pure { s with store := done.2, relations := cascade s.relations job }
  | .infer jobs proposals =>
      .ok { s with
        store := { s.store with
          tables := { s.store.tables with jobs := jobs, proposals := proposals } } }

/-- One operation; a failed one leaves the workspace as it was. -/
def WorkspaceState.step (cx : Context) (s : WorkspaceState) (op : Op) : WorkspaceState :=
  match op.apply cx s with
  | .ok s' => s'
  | .error _ => s

end Yorishiro.Entity
