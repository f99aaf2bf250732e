import Yorishiro.Lib.Transition
import Yorishiro.Schema.Forks

/-!
# Operations on the catalog

The functions that make, retire and delete schema versions, and those that make, update and
delete forks, each as one step: the producers of versions of a name take turns on its lock, and
`create` of forks takes turns on its own. Beside them workspaces appear, and entities, snapshots
and proposals come to refer to a stored version and go.
-/

set_option autoImplicit false

namespace Yorishiro.Schema

open Yorishiro.Lib Yorishiro.Lib.JsonSchema Yorishiro.Metaschema
open Yorishiro.Queue (Instant)

/-! ## Versions -/

section Versions

variable (env : Dialect) (display : ℚ → String)

/-- `create_schema` in the workspace; version ids are unique across workspaces. -/
def Catalog.createSchema (c : Catalog) (id tenantId workspaceId : Uuid)
    (definition : MetaSchemaDefinition) (originTemplateId : Option Uuid)
    (originSnapshot : Option MetaSchemaDefinition) :
    Except YorishiroError (Catalog × SchemaRecord × VersioningDiff) :=
  match c.spaces.get? workspaceId with
  | none => do
      validateDefinition env display definition
      .error (.internal .foreignKeyViolation)
  | some space => do
      let (schemas, workspace, row, versioning) ← Schema.createSchema env display space.schemas
        space.workspace tenantId definition originTemplateId originSnapshot id c.clock
      require (c.findById id).isNone (.conflict ("schema '" ++ definition.name ++ "' version " ++
        toString row.version ++ " already exists (concurrent create?)"))
      let space := { space with workspace := workspace, schemas := schemas }
      pure ({ c with spaces := c.spaces.insert workspaceId space }, row, versioning)

end Versions

/-- The refusal of a version that is not there. -/
def schemaMissing (id : Uuid) : YorishiroError :=
  .notFound ("schema '" ++ id.toString ++ "' was not found")

/-- `archive` in the workspace. -/
def Catalog.archive (c : Catalog) (workspaceId id : Uuid) :
    Except YorishiroError (Catalog × SchemaRecord) :=
  match c.spaces.get? workspaceId with
  | none => .error (schemaMissing id)
  | some space => do
      let (schemas, row) ← Schema.archive space.schemas id
      pure (c.setSchemas workspaceId space schemas, row)

/-- The kinds of rows that refer to a version, by the names `delete` gives them. -/
def Catalog.blockers (c : Catalog) (id : Uuid) : List String :=
  let refers : Uuid → Reference → Bool := fun _ row => decide (row.schemaId = id)
  let kind (count : Nat) (name : String) : List String := if 0 < count then [name] else []
  kind (c.entities.count refers) "entities" ++ kind (c.snapshots.count refers) "entity snapshots" ++
    kind (c.proposals.count refers) "inference proposals" ++
    kind (c.spaces.count fun _ space => decide (space.workspace.schemaId = some id)) "workspaces" ++
    kind (c.forks.count fun _ fork =>
      decide (fork.sourceSchemaId = id) || decide (fork.forkSchemaId = id)) "schema forks" ++
    kind (c.heads.count fun _ head => decide (head.schemaId = id)) "schema fork heads"

/-- `delete` of a version. -/
def Catalog.deleteSchema (c : Catalog) (workspaceId id : Uuid) : Except YorishiroError Catalog :=
  match c.spaces.get? workspaceId with
  | none => .error (schemaMissing id)
  | some space => do
      let schema ← getById space.schemas id
      let named := "schema '" ++ schema.name ++ "' version " ++ toString schema.version
      require (decide (schema.status = .archived))
        (.conflict (named ++ " is still active; archive it before deleting"))
      let blockers := c.blockers id
      require blockers.isEmpty
        (.conflict (named ++ " is still referenced by: " ++ ", ".intercalate blockers))
      pure (c.setSchemas workspaceId space (space.schemas.delete id))

/-! ## Steps -/

/-- The tables of rows that refer to a version and are not written by the functions here. -/
inductive ReferenceKind where
  | entity
  | snapshot
  | proposal
deriving DecidableEq, Repr

/-- What happens to the catalog. -/
inductive CatalogOp where
  | createSchema (id tenantId workspaceId : Uuid) (definition : MetaSchemaDefinition)
      (originTemplateId : Option Uuid) (originSnapshot : Option MetaSchemaDefinition)
  | archive (workspaceId id : Uuid)
  | deleteSchema (workspaceId id : Uuid)
  | createFork (fresh : NewFork) (tenantId workspaceId : Uuid) (input : CreateInput)
  | updateFork (fresh : NewFork) (tenantId workspaceId forkId : Uuid) (input : UpdateInput)
  | deleteFork (tenantId workspaceId forkId : Uuid)
  | addWorkspace (id tenantId : Uuid) (maxEntities : Option Int)
  | refer (kind : ReferenceKind) (id : Uuid) (reference : Reference)
  | forget (kind : ReferenceKind) (id : Uuid)
  | tick (n : Nat)

/-- The catalog with other rows of a kind. -/
def Catalog.mapReferences (c : Catalog) (kind : ReferenceKind)
    (f : OrderedMap Uuid Reference → OrderedMap Uuid Reference) : Catalog :=
  match kind with
  | .entity => { c with entities := f c.entities }
  | .snapshot => { c with snapshots := f c.snapshots }
  | .proposal => { c with proposals := f c.proposals }

section Steps

variable (env : Dialect) (display : ℚ → String)

/-- The effect of an operation. -/
def Catalog.apply (c : Catalog) : CatalogOp → Except YorishiroError Catalog
  | .createSchema id tenantId workspaceId definition originTemplateId originSnapshot =>
      (c.createSchema env display id tenantId workspaceId definition originTemplateId
        originSnapshot).map Prod.fst
  | .archive workspaceId id => (c.archive workspaceId id).map Prod.fst
  | .deleteSchema workspaceId id => c.deleteSchema workspaceId id
  | .createFork fresh tenantId workspaceId input =>
      (Schema.createFork env display c fresh tenantId workspaceId input).map Prod.fst
  | .updateFork fresh tenantId workspaceId forkId input =>
      (Schema.updateFork env display c fresh tenantId workspaceId forkId input).map Prod.fst
  | .deleteFork tenantId workspaceId forkId => Schema.deleteFork c tenantId workspaceId forkId
  | .addWorkspace id tenantId maxEntities => do
      require (c.spaces.get? id).isNone (.internal .uniqueViolation)
      pure { c with spaces := c.spaces.insert id ⟨tenantId, ⟨true, none, maxEntities⟩, .empty⟩ }
  | .refer kind id reference => do
      require (c.findById reference.schemaId).isSome (.internal .foreignKeyViolation)
      pure (c.mapReferences kind fun rows => rows.insert id reference)
  | .forget kind id => .ok (c.mapReferences kind fun rows => rows.erase id)
  | .tick n => .ok { c with clock := c.clock + n }

/-- One step; an operation that fails is rolled back. -/
def Catalog.step (c : Catalog) (op : CatalogOp) : Catalog :=
  match c.apply env display op with
  | .ok c' => c'
  | .error _ => c

theorem Catalog.step_cases (c : Catalog) (op : CatalogOp) :
    c.step env display op = c ∨ ∃ c', c.apply env display op = .ok c' ∧
      c.step env display op = c' := by
  unfold Catalog.step
  cases happly : c.apply env display op with
  | error e => exact Or.inl rfl
  | ok c' => exact Or.inr ⟨c', rfl, rfl⟩

end Steps

/-! ## What the functions write -/

section ReadBack

variable {env : Dialect} {display : ℚ → String} {c c' : Catalog} {tenantId workspaceId : Uuid}

/-- `create_schema`, read back. -/
theorem Catalog.createSchema_eq_ok {id : Uuid} {definition : MetaSchemaDefinition}
    {originTemplateId : Option Uuid} {originSnapshot : Option MetaSchemaDefinition}
    {r : SchemaRecord × VersioningDiff}
    (h : c.createSchema env display id tenantId workspaceId definition originTemplateId
      originSnapshot = .ok (c', r)) :
    ∃ space schemas workspace, c.spaces.get? workspaceId = some space ∧
      Schema.createSchema env display space.schemas space.workspace tenantId definition
        originTemplateId originSnapshot id c.clock = .ok (schemas, workspace, r) ∧
      c.findById id = none ∧
      c' = { c with
        spaces := c.spaces.insert workspaceId
          { space with workspace := workspace, schemas := schemas } } := by
  unfold Catalog.createSchema at h
  split at h
  · obtain ⟨_, -, hfail⟩ := Except.bind_eq_ok.mp h
    cases hfail
  · rename_i space hspace
    obtain ⟨⟨schemas, workspace, row, versioning⟩, hcreate, h⟩ := Except.bind_eq_ok.mp h
    obtain ⟨_, hfree, h⟩ := Except.bind_eq_ok.mp h
    cases h
    exact ⟨space, schemas, workspace, hspace, hcreate,
      Option.isNone_iff_eq_none.mp (require_eq_ok.mp hfree), rfl⟩

/-- `archive`, read back. -/
theorem Catalog.archive_eq_ok {id : Uuid} {row : SchemaRecord}
    (h : c.archive workspaceId id = .ok (c', row)) :
    ∃ space schemas, c.spaces.get? workspaceId = some space ∧
      Schema.archive space.schemas id = .ok (schemas, row) ∧
      c' = c.setSchemas workspaceId space schemas := by
  unfold Catalog.archive at h
  split at h
  · cases h
  · rename_i space hspace
    obtain ⟨⟨schemas, row'⟩, harchive, h⟩ := Except.bind_eq_ok.mp h
    cases h
    exact ⟨space, schemas, hspace, harchive, rfl⟩

/-- `delete` of a version, read back. -/
theorem Catalog.deleteSchema_eq_ok {id : Uuid} (h : c.deleteSchema workspaceId id = .ok c') :
    ∃ space schema, c.spaces.get? workspaceId = some space ∧
      space.schemas.get? id = some schema ∧ schema.status = .archived ∧ c.blockers id = [] ∧
      c' = c.setSchemas workspaceId space (space.schemas.delete id) := by
  unfold Catalog.deleteSchema at h
  split at h
  · cases h
  · rename_i space hspace
    obtain ⟨schema, hschema, h⟩ := Except.bind_eq_ok.mp h
    obtain ⟨_, harchived, h⟩ := Except.bind_eq_ok.mp h
    obtain ⟨_, hblockers, h⟩ := Except.bind_eq_ok.mp h
    cases h
    exact ⟨space, schema, hspace, getById_eq_ok.mp hschema,
      of_decide_eq_true (require_eq_ok.mp harchived),
      List.isEmpty_iff.mp (require_eq_ok.mp hblockers), rfl⟩

/-- `insert_fork_head`, read back. -/
theorem Catalog.insertForkHead_eq_ok {definition : MetaSchemaDefinition} {id : Uuid}
    {row : SchemaRecord}
    (h : c.insertForkHead env display tenantId workspaceId definition id = .ok (c', row)) :
    ∃ space schemas, c.spaces.get? workspaceId = some space ∧
      Schema.insertForkHead env display space.schemas tenantId definition id = .ok (schemas, row) ∧
      c.findById id = none ∧ c' = c.setSchemas workspaceId space schemas := by
  unfold Catalog.insertForkHead at h
  split at h
  · obtain ⟨_, -, hfail⟩ := Except.bind_eq_ok.mp h
    cases hfail
  · rename_i space hspace
    obtain ⟨⟨schemas, row'⟩, hinsert, h⟩ := Except.bind_eq_ok.mp h
    obtain ⟨_, hfree, h⟩ := Except.bind_eq_ok.mp h
    cases h
    exact ⟨space, schemas, hspace, hinsert, Option.isNone_iff_eq_none.mp (require_eq_ok.mp hfree),
      rfl⟩

/-- The trigger, read back. -/
theorem checkForkIntegrity_eq_ok {fork : Fork} {u : Unit} (h : checkForkIntegrity c fork = .ok u) :
    c.belongs fork.tenantId fork.workspaceId = true ∧
      c.belongs fork.tenantId fork.sourceWorkspaceId = true ∧
      (∃ row, c.schema fork.sourceWorkspaceId fork.sourceSchemaId = some row) ∧
      ∃ row, c.schema fork.workspaceId fork.forkSchemaId = some row := by
  unfold checkForkIntegrity at h
  obtain ⟨_, htarget, h⟩ := Except.bind_eq_ok.mp h
  obtain ⟨_, hsource, h⟩ := Except.bind_eq_ok.mp h
  obtain ⟨_, hsourceSchema, h⟩ := Except.bind_eq_ok.mp h
  obtain ⟨_, hforkSchema, -⟩ := Except.bind_eq_ok.mp h
  have hstored : ∀ {o : Option SchemaRecord} {p : SchemaRecord → Bool}, o.any p = true →
      ∃ row, o = some row := by
    intro o p hany
    cases o with
    | none => cases hany
    | some row => exact ⟨row, rfl⟩
  exact ⟨require_eq_ok.mp htarget, require_eq_ok.mp hsource,
    hstored (require_eq_ok.mp hsourceSchema), hstored (require_eq_ok.mp hforkSchema)⟩

/-- The statement on heads, read back. -/
theorem insertHeadRow_eq_ok {id : Uuid} {head : ForkHead} (h : insertHeadRow c id head = .ok c') :
    (∃ row, c.schema head.workspaceId head.schemaId = some row) ∧
      ∃ heads, c.heads.insert id head = .ok heads ∧ c' = { c with heads := heads } := by
  unfold insertHeadRow at h
  obtain ⟨_, -, h⟩ := Except.bind_eq_ok.mp h
  obtain ⟨_, hschema, h⟩ := Except.bind_eq_ok.mp h
  obtain ⟨heads, hheads, h⟩ := Except.bind_eq_ok.mp h
  cases h
  refine ⟨?_, heads, Except.mapError_eq_ok hheads, rfl⟩
  have hany := require_eq_ok.mp hschema
  cases hrow : c.schema head.workspaceId head.schemaId with
  | none => simp [hrow] at hany
  | some row => exact ⟨row, rfl⟩

/-- The rest of `create`, read back. -/
theorem storeFork_eq_ok {fresh : NewFork} {input : CreateInput} {source : SchemaRecord} {fork : Fork}
    (h : storeFork env display c fresh tenantId workspaceId input source = .ok (c', fork)) :
    ∃ c₁ row forks,
      c.insertForkHead env display tenantId workspaceId source.definition fresh.schemaId =
        .ok (c₁, row) ∧
      fork.tenantId = tenantId ∧ fork.workspaceId = workspaceId ∧
      fork.sourceWorkspaceId = input.sourceWorkspaceId ∧ fork.forkSchemaId = fresh.schemaId ∧
      checkForkIntegrity c₁ fork = .ok () ∧ c₁.forks.insert fresh.forkId fork = .ok forks ∧
      insertHeadRow { c₁ with forks := forks } fresh.headId
        ⟨tenantId, workspaceId, fresh.forkId, fresh.schemaId⟩ = .ok c' := by
  unfold storeFork at h
  obtain ⟨⟨c₁, row⟩, hhead, h⟩ := Except.bind_eq_ok.mp h
  obtain ⟨_, hintegrity, h⟩ := Except.bind_eq_ok.mp h
  obtain ⟨forks, hforks, h⟩ := Except.bind_eq_ok.mp h
  obtain ⟨c₂, hrow, h⟩ := Except.bind_eq_ok.mp h
  cases h
  exact ⟨c₁, row, forks, hhead, rfl, rfl, rfl, rfl, hintegrity, Except.mapError_eq_ok hforks, hrow⟩

/-- `create`, read back. -/
theorem createFork_eq_ok {fresh : NewFork} {input : CreateInput} {record : ForkRecord}
    (h : createFork env display c fresh tenantId workspaceId input = .ok (c', record)) :
    closesCycle c.forks tenantId workspaceId input.sourceWorkspaceId = some false ∧
      ∃ source fork, sourceById c tenantId input.sourceWorkspaceId input.sourceSchemaId =
          some source ∧
        storeFork env display c fresh tenantId workspaceId input source = .ok (c', fork) := by
  unfold createFork at h
  obtain ⟨_, -, h⟩ := Except.bind_eq_ok.mp h
  obtain ⟨_, -, h⟩ := Except.bind_eq_ok.mp h
  obtain ⟨_, -, h⟩ := Except.bind_eq_ok.mp h
  obtain ⟨source, hsource, h⟩ := Except.bind_eq_ok.mp h
  obtain ⟨_, hsearch, h⟩ := Except.bind_eq_ok.mp h
  obtain ⟨⟨c₁, fork⟩, hstore, h⟩ := Except.bind_eq_ok.mp h
  obtain ⟨_, -, h⟩ := Except.bind_eq_ok.mp h
  cases h
  refine ⟨of_decide_eq_true (require_eq_ok.mp hsearch), source, fork, ?_, hstore⟩
  unfold currentSource at hsource
  split at hsource
  · cases hsource
  · rename_i found hfound
    obtain ⟨_, -, hsource⟩ := Except.bind_eq_ok.mp hsource
    cases hsource
    exact hfound

theorem getFork_eq_ok {forkId : Uuid} {fork : Fork}
    (h : getFork c tenantId workspaceId forkId = .ok fork) :
    c.forks.get? forkId = some fork ∧ fork.tenantId = tenantId ∧ fork.workspaceId = workspaceId := by
  unfold getFork at h
  split at h
  · rename_i fork' hfound
    cases h
    obtain ⟨hfork, hselected⟩ := Option.filter_eq_some_iff.mp hfound
    obtain ⟨htenant, hworkspace⟩ := Bool.and_eq_true_iff.mp hselected
    exact ⟨hfork, of_decide_eq_true htenant, of_decide_eq_true hworkspace⟩
  · cases h

/-- The rest of `update`, read back. -/
theorem storeHead_eq_ok {fresh : NewFork} {forkId : Uuid} {fork : Fork}
    {definition : MetaSchemaDefinition} {source : Option (Uuid × SchemaRecord)}
    (h : storeHead env display c fresh tenantId workspaceId forkId fork definition source = .ok c') :
    ∃ c₁ row forks n,
      c.insertForkHead env display tenantId workspaceId definition fresh.schemaId = .ok (c₁, row) ∧
      c₁.forks.updateRow forkId (fun row => decide (row.forkSchemaId = fork.forkSchemaId))
        (fun _ => fork.withHead fresh.schemaId source c₁.clock) = .ok (forks, n) ∧
      checkForkIntegrity c₁ (fork.withHead fresh.schemaId source c₁.clock) = .ok () ∧
      insertHeadRow { c₁ with forks := forks } fresh.headId
        ⟨tenantId, workspaceId, forkId, fresh.schemaId⟩ = .ok c' := by
  unfold storeHead at h
  obtain ⟨⟨c₁, row⟩, hhead, h⟩ := Except.bind_eq_ok.mp h
  obtain ⟨⟨forks, n⟩, hforks, h⟩ := Except.bind_eq_ok.mp h
  obtain ⟨_, -, h⟩ := Except.bind_eq_ok.mp h
  obtain ⟨_, hintegrity, hrow⟩ := Except.bind_eq_ok.mp h
  exact ⟨c₁, row, forks, n, hhead, Except.mapError_eq_ok hforks, hintegrity, hrow⟩

/-- `update`, read back. -/
theorem updateFork_eq_ok {fresh : NewFork} {forkId : Uuid} {input : UpdateInput}
    {record : ForkRecord}
    (h : updateFork env display c fresh tenantId workspaceId forkId input = .ok (c', record)) :
    ∃ fork definition source, c.forks.get? forkId = some fork ∧
      chosenDefinition env display c tenantId fork input = .ok (definition, source) ∧
      storeHead env display c fresh tenantId workspaceId forkId fork definition source =
        .ok c' := by
  unfold updateFork at h
  obtain ⟨_, -, h⟩ := Except.bind_eq_ok.mp h
  obtain ⟨fork, hfork, h⟩ := Except.bind_eq_ok.mp h
  obtain ⟨_, -, h⟩ := Except.bind_eq_ok.mp h
  obtain ⟨⟨definition, source⟩, hchosen, h⟩ := Except.bind_eq_ok.mp h
  obtain ⟨c₁, hstore, h⟩ := Except.bind_eq_ok.mp h
  obtain ⟨_, -, h⟩ := Except.bind_eq_ok.mp h
  obtain ⟨_, -, h⟩ := Except.bind_eq_ok.mp h
  cases h
  exact ⟨fork, definition, source, (getFork_eq_ok hfork).1, hchosen, hstore⟩

/-- `delete`, read back. -/
theorem deleteFork_eq_ok {forkId : Uuid} (h : deleteFork c tenantId workspaceId forkId = .ok c') :
    c' = { c with
      forks := c.forks.delete forkId
      heads := c.heads.deleteWhere fun _ head => decide (head.forkId = forkId) } := by
  unfold deleteFork at h
  obtain ⟨_, -, h⟩ := Except.bind_eq_ok.mp h
  obtain ⟨_, -, h⟩ := Except.bind_eq_ok.mp h
  cases h
  rfl

end ReadBack

end Yorishiro.Schema
