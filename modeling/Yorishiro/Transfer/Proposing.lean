import Yorishiro.Inference.ProposeFields
import Yorishiro.Transfer.RoundTrip

/-!
# What a model can write

An infer-fill worker reads the entities on outdated versions, asks a model for the fields that each
of them is missing, and records the answers as proposals; a reviewer may confirm them later. In
between, everything else happens that a workspace is used for.

Nothing in the JSON schema of an entity type forbids a member that the type does not define, so it
is not the validation that keeps a model from inventing fields. `FillState.step` puts the worker
into the system of `GraphOp`, and `proposals_within_schema` and `confirms_within_schema` say that
nevertheless no answer of a model, whatever it is, brings in a field that the type does not define
or that the entity had.
-/

set_option autoImplicit false

namespace Yorishiro.Transfer

open Yorishiro.Lib Yorishiro.Metaschema Yorishiro.Entity Yorishiro.Inference
open Yorishiro.Lib.Transition
open Yorishiro.Schema hiding archive deleteFork

/-! ## Asking for what is missing -/

/-- `OutdatedEntity`. -/
structure OutdatedEntity where
  id : Uuid
  entityType : String
  data : Json
deriving DecidableEq

/-- The rows of `entities_on_outdated_schema`. -/
def outdatedEntities (store : EntityStore) (schemaName : String) (activeId : Uuid) :
    List OutdatedEntity :=
  (store.rows.entries.filter fun e =>
    (store.tables.schemas.get? e.2.schemaId).any (fun schema => decide (schema.name = schemaName)) &&
      decide (e.2.schemaId ≠ activeId)).map fun e => ⟨e.1, e.2.entityType, e.2.data⟩

/-- The fields of the type that the data has no member for. -/
def missingFields (typeDef : EntityTypeDef) (data : Json) : List String :=
  typeDef.fields.keys.filter fun field => (data.get? field).isNone

/-- What a model proposed for an entity. -/
structure Proposed where
  entityId : Uuid
  answers : OrderedMap String Json
  nonempty : answers.entries ≠ []

/-- What `perform_infer_fill` has for the rows before it records anything. -/
structure Gathered (rows : List OutdatedEntity) where
  skipped : Nat
  batches : List Proposed
  sublist : (batches.map Proposed.entityId).Sublist (rows.map OutdatedEntity.id)

/-- A row that is passed over. -/
def Gathered.pass {rows : List OutdatedEntity} (row : OutdatedEntity) (skipped : Nat)
    (rest : Gathered rows) : Gathered (row :: rows) :=
  ⟨rest.skipped + skipped, rest.batches, rest.sublist.cons row.id⟩

/-- A row with answers. -/
def Gathered.push {rows : List OutdatedEntity} (row : OutdatedEntity)
    (answers : OrderedMap String Json) (nonempty : answers.entries ≠ []) (rest : Gathered rows) :
    Gathered (row :: rows) :=
  ⟨rest.skipped, ⟨row.id, answers, nonempty⟩ :: rest.batches, rest.sublist.cons_cons row.id⟩

/-- The loop over the rows in `perform_infer_fill`; `ask` is `propose_fields`. A type that the
active version does not have is passed over without being counted. -/
def gather (ask : OutdatedEntity → List String → Except InferenceError (OrderedMap String Json))
    (definition : MetaSchemaDefinition) :
    (rows : List OutdatedEntity) → Except InferenceError (Gathered rows)
  | [] => .ok ⟨0, [], List.Sublist.refl _⟩
  | row :: rows =>
      match definition.entityTypes.get? row.entityType with
      | none => (gather ask definition rows).map (Gathered.pass row 0)
      | some typeDef =>
          if (missingFields typeDef row.data).isEmpty then
            (gather ask definition rows).map (Gathered.pass row 1)
          else do
            let answers ← ask row (missingFields typeDef row.data)
            if h : answers.entries = [] then
              (gather ask definition rows).map (Gathered.pass row 1)
            else
              (gather ask definition rows).map (Gathered.push row answers h)

/-- What a worker has read in its first transaction. -/
structure InferRead where
  jobId : Uuid
  schemaName : String
  active : Uuid × SchemaRecord
  rows : List OutdatedEntity
  distinct : (rows.map OutdatedEntity.id).Nodup

/-- As much of it as `GraphState` keeps. -/
def InferRead.reading (read : InferRead) : InferReading where
  schemaName := read.schemaName
  target :=
    { jobId := read.jobId, schemaId := read.active.1, schemaVersion := read.active.2.version }
  entityIds := read.rows.map OutdatedEntity.id

/-- The batch for an entity; `ids` are the identifiers that its rows get. -/
def Proposed.batch (ids : Uuid → String → Uuid) (proposed : Proposed) : Batch where
  entityId := proposed.entityId
  answers := proposed.answers.entries.map fun e => ⟨ids proposed.entityId e.1, e.1, e.2⟩
  nonempty := fun h => proposed.nonempty (List.map_eq_nil_iff.mp h)
  distinct := by
    rw [List.map_map]
    exact proposed.answers.nodup_keys

/-- What the second transaction records. -/
def InferRead.attempt (read : InferRead) (number : Int) (ids : Uuid → String → Uuid)
    (gathered : Gathered read.rows) : Attempt where
  number := number
  skipped := gathered.skipped
  batches := gathered.batches.map (Proposed.batch ids)
  distinct := by
    rw [List.map_map]
    exact gathered.sublist.nodup read.distinct

/-! ## The system -/

/-- A graph, and what its infer-fill workers have read of it. -/
structure FillState where
  graph : GraphState
  reads : List InferRead

abbrev FillState.workspace (s : FillState) : WorkspaceState := s.graph.workspace

abbrev FillState.schemas (s : FillState) : Schemas := s.graph.workspace.store.tables.schemas

/-- A workspace before its first schema, and no workers. -/
def FillState.empty (maxEntities : Option Int) : FillState where
  graph := .empty maxEntities
  reads := []

/-- The operations that are not a worker's. -/
def GraphOp.isOther : GraphOp → Bool
  | .readOutdated _ _ => false
  | .recordAnswers _ _ => false
  | _ => true

/-- One transaction. For the second one of a worker, the provider's answers, the number of the
attempt and the identifiers of the new rows are given. -/
inductive FillOp where
  | other (op : { op : GraphOp // GraphOp.isOther op = true })
  | readOutdated (jobId : Uuid) (schemaName : String)
  | propose (reading : Nat) (config : InferenceConfig)
      (answer : OutdatedEntity → ChatRequest → ChatResponse) (number : Int)
      (ids : Uuid → String → Uuid)

/-- No version that a worker has read comes back after it has been deleted: `Uuid::now_v7` gives no
identifier twice. -/
def FillState.keepsReads (s : FillState) (graph : GraphState) : Bool :=
  s.reads.all fun read =>
    (s.schemas.get? read.active.1).isSome ||
      (graph.workspace.store.tables.schemas.get? read.active.1).isNone

/-- The first transaction of `perform_infer_fill`. -/
def FillState.read (s : FillState) (jobId : Uuid) (schemaName : String) :
    Except YorishiroError InferRead := do
  let active ← getActiveSchema s.schemas schemaName
  pure
    { jobId := jobId
      schemaName := schemaName
      active := active
      rows := outdatedEntities s.workspace.store schemaName active.1
      distinct := by
        unfold outdatedEntities
        rw [List.map_map]
        exact (List.filter_sublist.map Prod.fst).nodup s.workspace.store.rows.nodup_keys }

/-- What a transaction does, if it commits. -/
def FillOp.apply (cx : Context) (backend : Backend) (codec : ChatCodec) (s : FillState) :
    FillOp → Except YorishiroError FillState
  | .other op => do
      let graph ← op.1.apply cx backend s.graph
      if s.keepsReads graph then pure { s with graph := graph }
      else .error (.internal .uniqueViolation)
  | .readOutdated jobId schemaName => do
      let read ← s.read jobId schemaName
      let graph ← GraphOp.apply cx backend s.graph (.readOutdated jobId schemaName)
      pure { graph := graph, reads := s.reads ++ [read] }
  | .propose reading config answer number ids =>
      match s.reads[reading]? with
      | none => .ok s
      | some read => do
          let gathered ← (gather
            (fun row missing => proposeFields codec (answer row) config row.data missing)
            read.active.2.definition read.rows).mapError fun err =>
              .internal (.custom ("LLM propose_fields failed: " ++ err.text))
          -- nothing to record: no second transaction
          if gathered.batches.isEmpty then .ok s
          else do
            let graph ← GraphOp.apply cx backend s.graph
              (.recordAnswers reading (read.attempt number ids gathered))
            pure { s with graph := graph }

/-- One transaction; a failed one leaves everything as it was. -/
def FillState.step (cx : Context) (backend : Backend) (codec : ChatCodec) (s : FillState)
    (op : FillOp) : FillState :=
  match op.apply cx backend codec s with
  | .ok s' => s'
  | .error _ => s

/-! ## What a worker gathers -/

/-- The type of the entity has the field, and the entity as it was read has not. -/
def Missing (definition : MetaSchemaDefinition) (row : OutdatedEntity) (field : String) : Prop :=
  ∃ typeDef, definition.entityTypes.get? row.entityType = some typeDef ∧
    (typeDef.fields.get? field).isSome ∧ row.data.get? field = none

theorem mem_missingFields {typeDef : EntityTypeDef} {data : Json} {field : String} :
    field ∈ missingFields typeDef data ↔
      (typeDef.fields.get? field).isSome ∧ data.get? field = none := by
  unfold missingFields
  rw [List.mem_filter, OrderedMap.mem_keys_iff, Option.isNone_iff_eq_none]

/-- **The loop.** If only fields come back that were asked for, what is gathered was missing. -/
theorem missing_of_gather
    {ask : OutdatedEntity → List String → Except InferenceError (OrderedMap String Json)}
    (hask : ∀ row missing answers field, ask row missing = .ok answers →
      (answers.get? field).isSome → field ∈ missing)
    {definition : MetaSchemaDefinition} {rows : List OutdatedEntity} {gathered : Gathered rows}
    (h : gather ask definition rows = .ok gathered) {proposed : Proposed}
    (hproposed : proposed ∈ gathered.batches) :
    ∃ row ∈ rows, row.id = proposed.entityId ∧
      ∀ field, (proposed.answers.get? field).isSome → Missing definition row field := by
  induction rows with
  | nil =>
      cases h
      cases hproposed
  | cons row rows ih =>
      -- a row that is passed over adds no batch
      have hpass : ∀ skipped, (gather ask definition rows).map (Gathered.pass row skipped) =
          .ok gathered → ∃ row' ∈ row :: rows, row'.id = proposed.entityId ∧
            ∀ field, (proposed.answers.get? field).isSome → Missing definition row' field := by
        intro skipped hpassed
        obtain ⟨rest, hrest, rfl⟩ := Except.map_eq_ok hpassed
        obtain ⟨row', hrow', hmissing⟩ := ih hrest hproposed
        exact ⟨row', List.mem_cons_of_mem _ hrow', hmissing⟩
      unfold gather at h
      split at h
      · exact hpass 0 h
      · rename_i typeDef htype
        split_ifs at h with hnone
        · exact hpass 1 h
        · obtain ⟨answers, hanswers, h⟩ := Except.bind_eq_ok.mp h
          split_ifs at h with hempty
          · exact hpass 1 h
          · obtain ⟨rest, hrest, rfl⟩ := Except.map_eq_ok h
            rcases List.mem_cons.mp hproposed with rfl | hproposed
            · refine ⟨row, List.mem_cons_self, rfl, fun field hfield => ⟨typeDef, htype, ?_⟩⟩
              exact mem_missingFields.mp (hask row _ answers field hanswers hfield)
            · obtain ⟨row', hrow', hmissing⟩ := ih hrest hproposed
              exact ⟨row', List.mem_cons_of_mem _ hrow', hmissing⟩

/-! ## What the others leave -/

/-- The version is one that a proposal was made for. -/
def ProposedFor (w : WorkspaceState) (id : Uuid) : Prop :=
  ∃ l p, w.store.tables.proposals.get? l = some p ∧ p.schemaId = id

/-- A proposal is still for the same field. -/
def SameProposals (a b : Proposals) : Prop :=
  ∀ l p', b.get? l = some p' → ∃ p, a.get? l = some p ∧ p'.entityId = p.entityId ∧
    p'.schemaId = p.schemaId ∧ p'.sourceField = p.sourceField

/-- Entities stay with their type. -/
structure SameTypes (w w' : WorkspaceState) : Prop where
  issued : ∀ k ∈ w.issued, k ∈ w'.issued
  rows : ∀ k row', w'.store.rows.get? k = some row' → k ∈ w.issued →
    ∃ row, w.store.rows.get? k = some row ∧ row'.entityType = row.entityType

/-- What an operation does that is not a worker's. -/
structure Follows (w w' : WorkspaceState) : Prop where
  types : SameTypes w w'
  proposals : SameProposals w.store.tables.proposals w'.store.tables.proposals
  definitions : ∀ id version version', w.store.tables.schemas.get? id = some version →
    w'.store.tables.schemas.get? id = some version' → version'.definition = version.definition
  versions : Ages (ProposedFor w) w.store.tables.schemas w'.store.tables.schemas

/-- Operations that delete no version. -/
structure Keeps (w w' : WorkspaceState) : Prop where
  types : SameTypes w w'
  proposals : SameProposals w.store.tables.proposals w'.store.tables.proposals
  versions : Ages (fun _ => True) w.store.tables.schemas w'.store.tables.schemas

section Others

variable {cx : Context} {w w' w'' : WorkspaceState} {id : Uuid}

theorem SameProposals.refl (m : Proposals) : SameProposals m m :=
  fun _ p hp => ⟨p, hp, rfl, rfl, rfl⟩

theorem SameTypes.of_rows (hissued : w'.issued = w.issued)
    (hrows : w'.store.rows = w.store.rows) : SameTypes w w' where
  issued := fun _ hk => hissued ▸ hk
  rows := fun _ row hrow _ => ⟨row, hrows ▸ hrow, rfl⟩

theorem Ages.refl {used : Uuid → Prop} (a : Schemas) : Ages used a a :=
  fun _ row _ hrow => ⟨row, hrow, rfl, rfl, fun hactive => hactive⟩

theorem Keeps.of_store (hissued : w'.issued = w.issued) (hstore : w'.store = w.store) :
    Keeps w w' where
  types := .of_rows hissued (by rw [hstore])
  proposals := by
    rw [hstore]
    exact .refl _
  versions := by
    rw [hstore]
    exact .refl _

theorem Keeps.trans (h : Keeps w w') (h' : Keeps w' w'') : Keeps w w'' where
  types := by
    constructor
    · exact fun k hk => h'.types.issued k (h.types.issued k hk)
    · intro k row'' hrow'' hk
      obtain ⟨row', hrow', htype'⟩ := h'.types.rows k row'' hrow'' (h.types.issued k hk)
      obtain ⟨row, hrow, htype⟩ := h.types.rows k row' hrow' hk
      exact ⟨row, hrow, htype'.trans htype⟩
  proposals := by
    intro l p'' hp''
    obtain ⟨p', hp', hentity', hschema', hfield'⟩ := h'.proposals l p'' hp''
    obtain ⟨p, hp, hentity, hschema, hfield⟩ := h.proposals l p' hp'
    exact ⟨p, hp, hentity'.trans hentity, hschema'.trans hschema, hfield'.trans hfield⟩
  versions := by
    intro l row hl hrow
    obtain ⟨row', hrow', hname, hdefinition, hactive⟩ := h.versions l row hl hrow
    obtain ⟨row'', hrow'', hname', hdefinition', hactive'⟩ := h'.versions l row' hl hrow'
    exact ⟨row'', hrow'', hname'.trans hname, hdefinition'.trans hdefinition,
      fun h => hactive (hactive' h)⟩

theorem Keeps.follows (h : Keeps w w') : Follows w w' where
  types := h.types
  proposals := h.proposals
  definitions := by
    intro l version version' hversion hversion'
    obtain ⟨kept, hkept, -, hdefinition, -⟩ := h.versions l version trivial hversion
    rw [hversion'] at hkept
    cases hkept
    exact hdefinition
  versions := fun l row _ hrow => h.versions l row trivial hrow

/-- Other versions beside the rest. -/
theorem Keeps.withSchemas {schemas : Schemas}
    (hages : Ages (fun _ => True) w.store.tables.schemas schemas) (workspace : Workspace) :
    Keeps w (w.withSchemas schemas workspace) where
  types := .of_rows rfl rfl
  proposals := .refl _
  versions := hages

theorem keeps_createSchema {tenantId : Uuid} {definition : MetaSchemaDefinition}
    {originTemplateId : Option Uuid} {originSnapshot : Option MetaSchemaDefinition}
    {now : Queue.Instant} {r : Schemas × Workspace × SchemaRecord × VersioningDiff}
    (h : createSchema cx.validator.env cx.showBound w.store.tables.schemas w.store.tables.workspace
      tenantId definition originTemplateId originSnapshot id now = .ok r) :
    Keeps w (w.withSchemas r.1 r.2.1) := by
  obtain ⟨hinserted, -⟩ := createSchema_eq_ok h
  exact .withSchemas
    (ages_of_inserted (retires_retire definition.name) (retire_definition _) hinserted) _

theorem keeps_archive {schemas : Schemas} {row : SchemaRecord}
    (h : Schema.archive w.store.tables.schemas id = .ok (schemas, row)) (workspace : Workspace) :
    Keeps w (w.withSchemas schemas workspace) := by
  refine .withSchemas (fun l old _ hold => ?_) workspace
  rw [archive_eq_ok h l, hold]
  refine ⟨_, rfl, ?_⟩
  split_ifs <;> simp

theorem keeps_createWithQuota {input : CreateEntityInput} {createdBy : Option Uuid}
    {quota : Option Int} {stamp : Stamp}
    (h : createWithQuota cx w input createdBy quota id stamp = .ok w') : Keeps w w' := by
  obtain ⟨schema, -, hid, rfl⟩ := createWithQuota_eq_ok.mp h
  refine ⟨⟨fun k hk => List.mem_cons_of_mem _ hk, fun k row hrow hk => ?_⟩, .refl _, .refl _⟩
  rcases OrderedMap.get?_insert_eq_some hrow with ⟨rfl, -⟩ | ⟨-, hrow⟩
  · exact absurd hk hid
  · exact ⟨row, hrow, rfl⟩

theorem keeps_createRelation {sourceId targetId : Uuid} {relationType : String} {properties : Json}
    (h : createRelation w sourceId targetId relationType properties id = .ok w') : Keeps w w' := by
  obtain ⟨_, _, relations, -, -, -, -, rfl⟩ := createRelation_eq_ok.mp h
  exact .of_store rfl rfl

theorem keeps_importRecord {args : ImportArgs} {p : ImportProgress} {stamp : Stamp}
    {record : ExportRecord} {r : WorkspaceState × ImportProgress}
    (h : importRecord cx args w p id stamp record = .ok r) : Keeps w r.1 := by
  cases record with
  | schema oldId definition =>
      obtain ⟨created, hcreated, h⟩ := Except.bind_eq_ok.mp h
      cases h
      exact keeps_createSchema hcreated
  | entity oldId schemaId entityType data =>
      obtain ⟨resolved, -, h⟩ := Except.bind_eq_ok.mp h
      obtain ⟨w', hcreated, h⟩ := Except.bind_eq_ok.mp h
      cases h
      exact keeps_createWithQuota hcreated
  | relation sourceId targetId relationType properties =>
      obtain ⟨w', hcreated, h⟩ := Except.bind_eq_ok.mp h
      cases h
      exact keeps_createRelation hcreated

theorem keeps_importLines {args : ImportArgs} {given : Nat → Uuid × Stamp}
    {lines : List (ImportLine × Nat)} {state r : WorkspaceState × ImportProgress}
    (h : lines.foldlM (importLine cx args given) state = .ok r) : Keeps state.1 r.1 := by
  induction lines generalizing state with
  | nil =>
      cases h
      exact .of_store rfl rfl
  | cons line lines ih =>
      rw [List.foldlM_cons] at h
      obtain ⟨state', hline, h⟩ := Except.bind_eq_ok.mp h
      refine Keeps.trans ?_ (ih h)
      unfold importLine at hline
      split at hline
      · cases hline
        exact .of_store rfl rfl
      · cases hline
      · exact keeps_importRecord (Except.mapError_eq_ok hline)

/-- A job that writes entities. -/
theorem keeps_run {job : Job} {stamps : Nat → Stamp}
    (h : (Op.run job stamps).apply cx w = .ok w')
    (hproposals : SameProposals w.store.tables.proposals w'.store.tables.proposals) :
    Keeps w w' := by
  obtain ⟨done, hdone, h⟩ := Except.bind_eq_ok.mp h
  cases h
  have hmoves := code_moves hdone
  refine ⟨⟨fun _ hk => hk, fun k row' hrow' _ => ?_⟩, hproposals, ?_⟩
  · obtain ⟨row, hrow, htype, -⟩ := hmoves.rows k row' hrow'
    exact ⟨row, hrow, htype⟩
  · rw [show _ = _ from hmoves.schemas]
    exact .refl _

theorem keeps_plain {op : Op} (hplain : op.isPlain = true) (h : op.apply cx w = .ok w') :
    Keeps w w' := by
  cases op with
  | createSchema tenantId definition originTemplateId originSnapshot l now =>
      obtain ⟨created, hcreated, h⟩ := Except.bind_eq_ok.mp h
      cases h
      exact keeps_createSchema hcreated
  | archive l =>
      obtain ⟨archived, harchived, h⟩ := Except.bind_eq_ok.mp h
      cases h
      exact keeps_archive harchived _
  | create input createdBy quota l stamp => exact keeps_createWithQuota h
  | importJsonl args lines given =>
      obtain ⟨imported, himported, h⟩ := Except.bind_eq_ok.mp h
      cases h
      exact keeps_importLines himported
  | run job stamps =>
      refine keeps_run h ?_
      rw [(keepsReview_plain hplain h).proposals]
      exact .refl _
  | infer jobs proposals => cases hplain

/-- Another status is no other field. -/
theorem sameProposals_updateWhere {m : Proposals} {sel : Uuid → ProposalRecord → Bool}
    {status : ProposalRecord → ProposalStatus} :
    SameProposals m (m.updateWhere sel fun p => { p with status := status p }) := by
  intro l p' hp'
  rw [OrderedMap.get?_updateWhere] at hp'
  obtain ⟨p, hp, rfl⟩ := Option.map_eq_some_iff.mp hp'
  refine ⟨p, hp, ?_⟩
  split_ifs <;> exact ⟨rfl, rfl, rfl⟩

theorem keeps_transitionPending (jobId : Uuid) (status : ProposalStatus) :
    Keeps w { w with store := { w.store with
      tables := transitionPending w.store.tables jobId status } } where
  types := .of_rows rfl rfl
  proposals := sameProposals_updateWhere
  versions := .refl _

theorem keeps_confirm {jobId : Uuid} {updatedBy : Option Uuid} {stamps : Nat → Stamp}
    (h : (Op.run (.confirm jobId updatedBy) stamps).apply cx w = .ok w') : Keeps w w' := by
  refine keeps_run h ?_
  obtain ⟨report, -, -, -, outcome, haccounts, -⟩ :=
    run_apply_ends rfl (confirm_ends cx jobId updatedBy w.store) h
  rw [haccounts.proposals]
  exact sameProposals_updateWhere

theorem keeps_fillDefaults {args : FillDefaultsArgs} {stamps : Nat → Stamp}
    (h : (Op.run (.fillDefaults args) stamps).apply cx w = .ok w') : Keeps w w' := by
  refine keeps_run h ?_
  obtain ⟨report, -, active, ks, -, hprogress⟩ :=
    run_apply_ends rfl (fillDefaults_ends args w.store) h
  rw [hprogress.tables]
  exact .refl _

theorem keeps_review {backend : Backend} {s s' : ReviewState} {op : ReviewOp}
    (hnone : ReviewOp.recordsNone op = true) (h : op.apply cx backend s = .ok s') :
    Keeps s.workspace s'.workspace := by
  cases op with
  | plain op =>
      obtain ⟨workspace, hplain, h⟩ := Except.bind_eq_ok.mp h
      cases h
      exact keeps_plain op.2 hplain
  | job op =>
      obtain ⟨jobs, -, h⟩ := Except.bind_eq_ok.mp h
      cases h
      exact ⟨.of_rows rfl rfl, .refl _, .refl _⟩
  | record schemaName target attempt => cases hnone
  | reject jobId =>
      obtain ⟨tables, hreject, h⟩ := Except.bind_eq_ok.mp h
      obtain ⟨_, -, hreject⟩ := Except.bind_eq_ok.mp hreject
      cases hreject
      cases h
      exact keeps_transitionPending jobId .rejected
  | discard jobId =>
      obtain ⟨tables, hdiscard, h⟩ := Except.bind_eq_ok.mp h
      obtain ⟨_, -, hdiscard⟩ := Except.bind_eq_ok.mp hdiscard
      cases hdiscard
      cases h
      exact keeps_transitionPending jobId .discarded
  | confirm jobId updatedBy stamps =>
      obtain ⟨workspace, hconfirm, h⟩ := Except.bind_eq_ok.mp h
      cases h
      exact keeps_confirm hconfirm
  | fill args stamps =>
      have hfill : Entity.fill cx s args stamps = .ok s' := h
      unfold Entity.fill at hfill
      split_ifs at hfill
      · cases hfill
        exact .of_store rfl rfl
      · obtain ⟨workspace, hdefaults, hfill⟩ := Except.bind_eq_ok.mp hfill
        cases hfill
        exact keeps_fillDefaults hdefaults

/-- A version that a proposal was made for is not deleted. -/
theorem follows_deleteSchema {references : ForkReferences}
    (h : deleteSchema w id references = .ok w') : Follows w w' := by
  obtain ⟨schema, -, h⟩ := Except.bind_eq_ok.mp h
  obtain ⟨_, -, h⟩ := Except.bind_eq_ok.mp h
  obtain ⟨_, hblockers, h⟩ := Except.bind_eq_ok.mp h
  cases h
  have hunused := not_inUse_of_blockers (require_eq_ok.mp hblockers)
  refine ⟨.of_rows rfl rfl, .refl _, fun l version version' hversion hversion' => ?_,
    fun l row hused hrow => ⟨row, ?_, rfl, rfl, fun hactive => hactive⟩⟩
  · have hget : (w.store.tables.schemas.delete id).get? l = some version' := hversion'
    rw [Table.get?_delete] at hget
    split_ifs at hget
    rw [hversion] at hget
    cases hget
    rfl
  · have hne : l ≠ id := fun heq => hunused (Or.inr (Or.inr (heq ▸ hused)))
    have hget : (w.store.tables.schemas.delete id).get? l = some row := by
      rw [Table.get?_delete, if_neg hne]
      exact hrow
    exact hget

/-- **The other operations.** -/
theorem follows_other {backend : Backend} {s s' : GraphState} {op : GraphOp}
    (hother : GraphOp.isOther op = true) (h : op.apply cx backend s = .ok s') :
    Follows s.workspace s'.workspace := by
  cases op with
  | review op =>
      obtain ⟨review, hreview, h⟩ := Except.bind_eq_ok.mp h
      cases h
      exact (keeps_review op.2 hreview).follows
  | readOutdated jobId schemaName => cases hother
  | recordAnswers reading attempt => cases hother
  | relate sourceId targetId relationType properties l =>
      obtain ⟨workspace, hcreated, h⟩ := Except.bind_eq_ok.mp h
      cases h
      exact (keeps_createRelation hcreated).follows
  | setStatus l status =>
      obtain ⟨workspace, hset, h⟩ := Except.bind_eq_ok.mp h
      cases h
      unfold Transfer.setStatus at hset
      split_ifs at hset
      obtain ⟨relations, -, hset⟩ := Except.bind_eq_ok.mp hset
      cases hset
      refine Keeps.follows ?_
      exact .of_store rfl rfl
  | unrelate l =>
      obtain ⟨workspace, hdeleted, h⟩ := Except.bind_eq_ok.mp h
      cases h
      unfold Transfer.deleteRelation at hdeleted
      split_ifs at hdeleted
      cases hdeleted
      refine Keeps.follows ?_
      exact .of_store rfl rfl
  | forkHead tenantId definition l =>
      obtain ⟨⟨schemas, row⟩, hinserted, h⟩ := Except.bind_eq_ok.mp h
      cases h
      obtain ⟨hinserted, -⟩ := insertForkHead_eq_ok hinserted
      exact (Keeps.withSchemas (ages_of_inserted retires_id (fun _ => rfl) hinserted) _).follows
  | deleteSchema l references =>
      obtain ⟨workspace, hdeleted, h⟩ := Except.bind_eq_ok.mp h
      cases h
      exact follows_deleteSchema hdeleted

/-- They leave what was read. -/
theorem readings_other {backend : Backend} {s s' : GraphState} {op : GraphOp}
    (hother : GraphOp.isOther op = true) (h : op.apply cx backend s = .ok s') :
    s'.readings = s.readings := by
  cases op with
  | readOutdated jobId schemaName => cases hother
  | recordAnswers reading attempt => cases hother
  | _ =>
      obtain ⟨_, -, h⟩ := Except.bind_eq_ok.mp h
      cases h
      rfl

end Others

/-! ## The invariant -/

/-- The entity was given out with the type, and has it for as long as it is there. -/
def HasType (w : WorkspaceState) (k : Uuid) (entityType : String) : Prop :=
  k ∈ w.issued ∧ ∀ row, w.store.rows.get? k = some row → row.entityType = entityType

/-- The version defines the field for entities of the type. -/
def Defines (schemas : Schemas) (schemaId : Uuid) (entityType field : String) : Prop :=
  ∃ version typeDef, schemas.get? schemaId = some version ∧
    version.definition.entityTypes.get? entityType = some typeDef ∧
    (typeDef.fields.get? field).isSome

/-- Every proposal is for a field that the type of its entity has in the version it was made
for. -/
def ProposalsWithinSchema (w : WorkspaceState) : Prop :=
  ∀ l p, w.store.tables.proposals.get? l = some p → ∃ entityType,
    HasType w p.entityId entityType ∧
      Defines w.store.tables.schemas p.schemaId entityType p.sourceField

/-- What a worker has read: the entities have their types, and the version is as it was. -/
structure ReadStands (w : WorkspaceState) (read : InferRead) : Prop where
  rows : ∀ row ∈ read.rows, HasType w row.id row.entityType
  version : ∀ version, w.store.tables.schemas.get? read.active.1 = some version →
    version.definition = read.active.2.definition

/-- What every state keeps in which workers take part. -/
structure FillInv (cx : Context) (s : FillState) : Prop where
  coherent : ∃ kinds, Coherent cx kinds s.workspace s.graph.readings
  aligned : s.graph.readings = s.reads.map InferRead.reading
  reads : ∀ read ∈ s.reads, ReadStands s.workspace read
  proposals : ProposalsWithinSchema s.workspace

section Invariant

variable {cx : Context} {backend : Backend} {codec : ChatCodec} {s : FillState}

theorem HasType.sameTypes {w w' : WorkspaceState} (h : SameTypes w w') {k : Uuid}
    {entityType : String} (htype : HasType w k entityType) : HasType w' k entityType := by
  refine ⟨h.issued k htype.1, fun row' hrow' => ?_⟩
  obtain ⟨row, hrow, hsame⟩ := h.rows k row' hrow' htype.1
  rw [hsame]
  exact htype.2 row hrow

theorem Follows.proposalsWithinSchema {w w' : WorkspaceState} (h : Follows w w')
    (hproposals : ProposalsWithinSchema w) : ProposalsWithinSchema w' := by
  intro l p' hp'
  obtain ⟨p, hp, hentity, hschema, hfield⟩ := h.proposals l p' hp'
  obtain ⟨entityType, htype, version, typeDef, hversion, htypeDef, hdefined⟩ := hproposals l p hp
  obtain ⟨version', hversion', -, hdefinition, -⟩ :=
    h.versions p.schemaId version ⟨l, p, hp, rfl⟩ hversion
  refine ⟨entityType, ?_, version', typeDef, ?_, ?_, ?_⟩
  · rw [hentity]
    exact htype.sameTypes h.types
  · rw [hschema]
    exact hversion'
  · rw [hdefinition]
    exact htypeDef
  · rw [hfield]
    exact hdefined

/-- A version that is there after the operation was there before it, with the same definition. -/
theorem Follows.readStands {graph : GraphState} (h : Follows s.workspace graph.workspace)
    (hkeeps : s.keepsReads graph = true) {read : InferRead} (hread : read ∈ s.reads)
    (hstands : ReadStands s.workspace read) : ReadStands graph.workspace read where
  rows := fun row hrow => (hstands.rows row hrow).sameTypes h.types
  version := by
    intro version' hversion'
    have hthere := List.all_eq_true.mp hkeeps read hread
    rw [hversion', Option.isNone_some, Bool.or_false] at hthere
    obtain ⟨version, hversion⟩ := Option.isSome_iff_exists.mp hthere
    rw [h.definitions read.active.1 version version' hversion hversion']
    exact hstands.version version hversion

theorem FillInv.other (h : FillInv cx s) {op : { op : GraphOp // GraphOp.isOther op = true }}
    {s' : FillState} (hop : (FillOp.other op).apply cx backend codec s = .ok s') :
    FillInv cx s' := by
  obtain ⟨graph, hgraph, hop⟩ := Except.bind_eq_ok.mp hop
  split_ifs at hop with hkeeps
  cases hop
  have hfollows := follows_other op.2 hgraph
  obtain ⟨kinds, hcoherent⟩ := h.coherent
  refine ⟨hcoherent.apply hgraph, ?_, fun read hread => ?_, ?_⟩
  · exact (readings_other op.2 hgraph).trans h.aligned
  · exact hfollows.readStands hkeeps hread (h.reads read hread)
  · exact hfollows.proposalsWithinSchema h.proposals

theorem readStands_read {kinds : Kinds} (hcoherent : Coherent cx kinds s.workspace s.graph.readings)
    {jobId : Uuid} {schemaName : String} {read : InferRead}
    (h : s.read jobId schemaName = .ok read) : ReadStands s.workspace read := by
  obtain ⟨active, hactive, h⟩ := Except.bind_eq_ok.mp h
  cases h
  refine ⟨fun row hrow => ?_, fun version hversion => ?_⟩
  · obtain ⟨⟨k, stored⟩, hmem, rfl⟩ := List.mem_map.mp hrow
    have hget := (OrderedMap.mem_entries_iff _ _ _).mp (List.mem_of_mem_filter hmem)
    obtain ⟨⟨version, -, hkind⟩, -⟩ := hcoherent.entities.rows k stored hget
    refine ⟨hcoherent.issued k _ hkind, fun row hrow => ?_⟩
    rw [show s.workspace.store.rows.get? k = some row from hrow] at hget
    cases hget
    rfl
  · rw [show s.workspace.store.tables.schemas.get? active.1 = some active.2 from
      get?_of_getActiveSchema hactive] at hversion
    cases hversion
    rfl

theorem FillInv.readOutdated (h : FillInv cx s) {jobId : Uuid} {schemaName : String}
    {s' : FillState}
    (hop : (FillOp.readOutdated jobId schemaName).apply cx backend codec s = .ok s') :
    FillInv cx s' := by
  obtain ⟨read, hread, hop⟩ := Except.bind_eq_ok.mp hop
  obtain ⟨graph, hgraph, hop⟩ := Except.bind_eq_ok.mp hop
  cases hop
  obtain ⟨kinds, hcoherent⟩ := h.coherent
  have hstands := readStands_read hcoherent hread
  refine ⟨hcoherent.apply hgraph, ?_, fun read' hread' => ?_, ?_⟩
  · -- the two transactions read the same
    obtain ⟨active, hactive, hread⟩ := Except.bind_eq_ok.mp hread
    cases hread
    obtain ⟨active', hactive', hgraph⟩ := Except.bind_eq_ok.mp hgraph
    obtain rfl : active' = active := Except.ok.inj (hactive'.symm.trans hactive)
    cases hgraph
    dsimp only
    rw [h.aligned, List.map_append, List.map_singleton]
    unfold InferRead.reading outdatedEntities entitiesOnOutdatedSchema
    rw [List.map_map]
    rfl
  · obtain ⟨active, -, hgraph⟩ := Except.bind_eq_ok.mp hgraph
    cases hgraph
    rcases List.mem_append.mp hread' with hread' | hread'
    · exact h.reads read' hread'
    · rw [List.mem_singleton.mp hread']
      exact hstands
  · obtain ⟨active, -, hgraph⟩ := Except.bind_eq_ok.mp hgraph
    cases hgraph
    exact h.proposals

/-- Every answer of an attempt is for a field that a read entity is missing. -/
theorem missing_of_attempt {read : InferRead} {config : InferenceConfig}
    {answer : OutdatedEntity → ChatRequest → ChatResponse} {number : Int}
    {ids : Uuid → String → Uuid} {gathered : Gathered read.rows}
    (h : gather (fun row missing => proposeFields codec (answer row) config row.data missing)
      read.active.2.definition read.rows = .ok gathered) :
    ∀ batch ∈ (read.attempt number ids gathered).batches, ∀ value ∈ batch.answers,
      ∃ row ∈ read.rows, row.id = batch.entityId ∧
        Missing read.active.2.definition row value.sourceField := by
  intro batch hbatch value hvalue
  obtain ⟨proposed, hproposed, rfl⟩ := List.mem_map.mp hbatch
  obtain ⟨row, hrow, hid, hmissing⟩ := missing_of_gather
    (fun _ _ _ _ hok hsome => mem_of_proposeFields hok hsome) h hproposed
  obtain ⟨⟨field, proposedValue⟩, hentry, rfl⟩ := List.mem_map.mp hvalue
  refine ⟨row, hrow, hid, hmissing field ?_⟩
  rw [(OrderedMap.mem_entries_iff _ _ _).mp hentry]
  rfl

/-- **What is recorded.** -/
theorem ProposalsWithinSchema.recordAnswers (hproposals : ProposalsWithinSchema s.workspace)
    (haligned : s.graph.readings = s.reads.map InferRead.reading) {reading : Nat}
    {read : InferRead} (hread : s.reads[reading]? = some read)
    (hstands : ReadStands s.workspace read) {attempt : Attempt}
    (hattempt : ∀ batch ∈ attempt.batches, ∀ value ∈ batch.answers, ∃ row ∈ read.rows,
      row.id = batch.entityId ∧ Missing read.active.2.definition row value.sourceField)
    {graph : GraphState} (h : recordAnswers cx backend s.graph reading attempt = .ok graph) :
    ProposalsWithinSchema graph.workspace ∧ graph.readings = s.graph.readings ∧
      SameTypes s.workspace graph.workspace ∧
      graph.workspace.store.tables.schemas = s.schemas := by
  have hsame : s.graph.readings[reading]? = some read.reading := by
    rw [haligned, List.getElem?_map, hread]
    rfl
  unfold Transfer.recordAnswers at h
  rw [hsame] at h
  dsimp only at h
  split_ifs at h with hall
  · obtain ⟨tables, hrecorded, h⟩ := Except.bind_eq_ok.mp h
    cases h
    obtain ⟨current, hcurrent, hrecorded⟩ := Except.bind_eq_ok.mp hrecorded
    split_ifs at hrecorded with hchanged
    obtain ⟨_, -, hrecorded⟩ := Except.bind_eq_ok.mp hrecorded
    cases hrecorded
    push Not at hchanged
    refine ⟨?_, rfl, .of_rows rfl rfl, rfl⟩
    have hstored : s.workspace.store.tables.schemas.get? read.active.1 = some current.2 := by
      have hget := get?_of_getActiveSchema hcurrent
      rw [hchanged.1] at hget
      exact hget
    refine recordAttempt_induction (P := fun m : Proposals => ∀ l p, m.get? l = some p →
      ∃ entityType, HasType s.workspace p.entityId entityType ∧
        Defines s.workspace.store.tables.schemas p.schemaId entityType p.sourceField)
      (fun _ batch hbatch value hvalue m m' hm hinsert l p hp => ?_) hproposals
    unfold Proposals.insertRow at hinsert
    split_ifs at hinsert
    cases hinsert
    rcases OrderedMap.get?_insert_eq_some hp with ⟨-, rfl⟩ | ⟨-, hp⟩
    · obtain ⟨row, hrow, hid, typeDef, htype, hfield, -⟩ := hattempt batch hbatch value hvalue
      refine ⟨row.entityType, ?_, current.2, typeDef, hstored, ?_, hfield⟩
      · have htyped := hstands.rows row hrow
        rw [hid] at htyped
        exact htyped
      · -- the version has the definition that the worker has read
        rw [hstands.version current.2 hstored]
        exact htype
    · exact hm l p hp
  · cases h
    exact ⟨hproposals, rfl, .of_rows rfl rfl, rfl⟩

theorem FillInv.propose (h : FillInv cx s) {reading : Nat} {config : InferenceConfig}
    {answer : OutdatedEntity → ChatRequest → ChatResponse} {number : Int}
    {ids : Uuid → String → Uuid} {s' : FillState}
    (hop : (FillOp.propose reading config answer number ids).apply cx backend codec s = .ok s') :
    FillInv cx s' := by
  simp only [FillOp.apply] at hop
  split at hop
  · cases hop
    exact h
  · rename_i read hread
    obtain ⟨gathered, hgathered, hop⟩ := Except.bind_eq_ok.mp hop
    split_ifs at hop
    · cases hop
      exact h
    · obtain ⟨graph, hgraph, hop⟩ := Except.bind_eq_ok.mp hop
      cases hop
      have hmem := List.mem_of_getElem? hread
      obtain ⟨kinds, hcoherent⟩ := h.coherent
      obtain ⟨hproposals, hreadings, htypes, hschemas⟩ :=
        h.proposals.recordAnswers h.aligned hread (h.reads read hmem)
          (missing_of_attempt (Except.mapError_eq_ok hgathered)) hgraph
      refine ⟨hcoherent.apply hgraph, hreadings.trans h.aligned, fun read' hread' => ?_, hproposals⟩
      obtain ⟨hrows, hversion⟩ := h.reads read' hread'
      refine ⟨fun row hrow => (hrows row hrow).sameTypes htypes, ?_⟩
      rw [show _ = _ from hschemas]
      exact hversion

theorem fillInv_empty (cx : Context) (maxEntities : Option Int) :
    FillInv cx (.empty maxEntities) where
  coherent := ⟨_, coherent_empty cx maxEntities⟩
  aligned := rfl
  reads := fun _ h => by cases h
  proposals := fun _ _ h => by cases h

/-- **Every reachable state.** -/
theorem fillInv_run (cx : Context) (backend : Backend) (codec : ChatCodec)
    (maxEntities : Option Int) (ops : List FillOp) :
    FillInv cx (run (FillState.step cx backend codec) (.empty maxEntities) ops) := by
  refine run_invariant (FillInv cx) ?_ (fillInv_empty cx maxEntities)
    (StepsMeet.of_forall (fun _ _ => trivial) _ ops)
  intro s op h _
  unfold FillState.step
  split
  · rename_i s' hop
    cases op with
    | other op => exact h.other hop
    | readOutdated jobId schemaName => exact h.readOutdated hop
    | propose reading config answer number ids => exact h.propose hop
  · exact h

end Invariant

/-! ## What is proposed and what is confirmed -/

/-- **Proposals.** Whatever the model answers and whatever happens in between, every proposal is for
a field that the type of its entity has in the version it was made for. -/
theorem proposals_within_schema (cx : Context) (backend : Backend) (codec : ChatCodec)
    (maxEntities : Option Int) (ops : List FillOp) :
    ProposalsWithinSchema
      (run (FillState.step cx backend codec) (.empty maxEntities) ops).workspace :=
  (fillInv_run cx backend codec maxEntities ops).proposals

/-- The row has got members that it had not, each of them proposed for it and defined by the version
that the proposal was made for. -/
structure FilledWithin (w : WorkspaceState) (jobId k : Uuid) (old new : EntityRow)
    (obj obj' : List (String × Json)) : Prop where
  before : old.data = .object obj
  after : new.data = .object obj'
  type : new.entityType = old.entityType
  fields : ∀ field, Entries.get? field obj' = Entries.get? field obj ∨
    Entries.get? field obj = none ∧ ∃ p ∈ pendingFor w.store.tables jobId k,
      p.sourceField = field ∧ Entries.get? field obj' = some p.proposed ∧
        Defines w.store.tables.schemas p.schemaId new.entityType field

/-- What confirming a job does to the entities: every row is still there and no other one, and a row
is left, or filled; and where the job has pending proposals of one version only, what is filled in
is defined by the version that the row is on afterwards. -/
def ConfirmsWithinSchema (cx : Context) (w : WorkspaceState) : Prop :=
  ∀ jobId updatedBy stamps w', (Op.run (.confirm jobId updatedBy) stamps).apply cx w = .ok w' →
    (∀ k old, w.store.rows.get? k = some old → (w'.store.rows.get? k).isSome = true) ∧
      ∀ k new, w'.store.rows.get? k = some new → ∃ old, w.store.rows.get? k = some old ∧
        (new = old ∨ ∃ obj obj', FilledWithin w jobId k old new obj obj' ∧
          ((∀ p ∈ pendingFor w.store.tables jobId k, ∀ q ∈ pendingFor w.store.tables jobId k,
              p.schemaId = q.schemaId) →
            ∀ field, Entries.get? field obj' ≠ Entries.get? field obj →
              Defines w'.store.tables.schemas new.schemaId new.entityType field))

/-- Members that are put in one after the other: what is there is from one of them, or was there
before. -/
theorem get?_foldl_insert (proposals : List ProposalRecord) (obj : List (String × Json))
    (field : String) :
    Entries.get? field (proposals.foldl (fun d p => Entries.insert p.sourceField p.proposed d) obj) =
        Entries.get? field obj ∨
      ∃ p ∈ proposals, p.sourceField = field ∧
        Entries.get? field (proposals.foldl
          (fun d p => Entries.insert p.sourceField p.proposed d) obj) = some p.proposed := by
  induction proposals generalizing obj with
  | nil => exact Or.inl rfl
  | cons p proposals ih =>
      rw [List.foldl_cons]
      rcases ih (Entries.insert p.sourceField p.proposed obj) with hsame | ⟨q, hq, hfield, hvalue⟩
      · rw [hsame, Entries.get?_insert]
        split_ifs with hfield
        · exact Or.inr ⟨p, List.mem_cons_self, hfield.symm, rfl⟩
        · exact Or.inl rfl
      · exact Or.inr ⟨q, List.mem_cons_of_mem _ hq, hfield, hvalue⟩

/-- **Confirmations.** Whatever the model answered, a confirmation removes no entity, writes no field
that an entity had, and none that its type does not define. -/
theorem confirms_within_schema (cx : Context) (backend : Backend) (codec : ChatCodec)
    (maxEntities : Option Int) (ops : List FillOp) :
    ConfirmsWithinSchema cx
      (run (FillState.step cx backend codec) (.empty maxEntities) ops).workspace := by
  have hinv := fillInv_run cx backend codec maxEntities ops
  generalize run (FillState.step cx backend codec) (.empty maxEntities) ops = s at hinv ⊢
  intro jobId updatedBy stamps w' hconfirm
  obtain ⟨report, -, -, -, outcome, haccounts, -⟩ :=
    run_apply_ends rfl (confirm_ends cx jobId updatedBy s.workspace.store) hconfirm
  refine ⟨fun k old hold => ?_, fun k new hnew => ?_⟩
  · by_cases hconfirmed : outcome k = some .confirmed
    · obtain ⟨-, new, -, hnew, -⟩ := haccounts.written k hconfirmed
      exact Option.isSome_of_eq_some hnew
    · exact Option.isSome_of_eq_some ((haccounts.kept k hconfirmed).trans hold)
  by_cases hconfirmed : outcome k = some .confirmed
  · obtain ⟨old, new', hold, hnew', hfilled⟩ := haccounts.written k hconfirmed
    obtain rfl : new' = new := Option.some.inj (hnew'.symm.trans hnew)
    obtain ⟨obj, hobj, hobj', habsent⟩ := hfilled.data
    -- what was proposed for the entity is defined for its type
    have hdefines : ∀ p ∈ pendingFor s.workspace.store.tables jobId k,
        Defines s.workspace.store.tables.schemas p.schemaId new'.entityType p.sourceField := by
      intro p hp
      obtain ⟨⟨l, hl⟩, -, hentity⟩ := mem_pendingFor.mp hp
      obtain ⟨entityType, htype, hdefined⟩ := hinv.proposals l p hl
      rw [hentity] at htype
      rw [hfilled.type, htype.2 old hold]
      exact hdefined
    refine ⟨old, hold, Or.inr ⟨obj, (pendingFor s.workspace.store.tables jobId k).foldl
      (fun d p => Entries.insert p.sourceField p.proposed d) obj, ?_, ?_⟩⟩
    · refine ⟨hobj, hobj', hfilled.type, fun field => ?_⟩
      refine (get?_foldl_insert _ obj field).imp_right fun ⟨p, hp, hfield, hvalue⟩ => ?_
      exact ⟨hfield ▸ habsent p hp, p, hp, hfield, hvalue, hfield ▸ hdefines p hp⟩
    · intro hsame field hne
      obtain ⟨p, hp, hfield, -⟩ := (get?_foldl_insert _ obj field).resolve_left hne
      obtain ⟨first, hfirst⟩ : ∃ first, (pendingFor s.workspace.store.tables jobId k).head? =
          some first := by
        cases hpending : pendingFor s.workspace.store.tables jobId k with
        | nil =>
            rw [hpending] at hp
            cases hp
        | cons first rest => exact ⟨first, rfl⟩
      rw [haccounts.schemas, hfilled.first first hfirst,
        ← hsame p hp first (List.mem_of_mem_head? hfirst)]
      exact hfield ▸ hdefines p hp
  · refine ⟨new, ?_, Or.inl rfl⟩
    rw [← haccounts.kept k hconfirmed]
    exact hnew

/-! ### A job whose two attempts saw different versions -/

theorem ordered_text : (FieldTree.mk (FieldAttrs.ofType .string) none none).ordered = true := rfl

/-- Persons with text fields. -/
def personsWith (fields : List String) : MetaSchemaDefinition where
  name := "people"
  description := none
  entityTypes := OrderedMap.ofList
    [("person",
      { description := none
        fields := OrderedMap.ofList (fields.map fun field =>
          (field, ⟨.mk (FieldAttrs.ofType .string) none none, ordered_text⟩)) })]
  relationTypes := OrderedMap.empty

/-- The person 7. -/
def createPerson : Op :=
  .create { schemaName := "people", entityType := "person", data := .object [] } none none 7
    ⟨10, "first"⟩

/-- A model that answers with a value for the field, and for another one that nobody asked for. -/
def inventive : ChatCodec where
  status := toString
  toStringPretty := fun _ => ""
  fromStr := fun field => some (.object [(field, .string "?"), ("invented", .string "?")])

/-- The second transaction of a worker whose model answers with the field. -/
def proposeField (reading : Nat) (number : Int) (field : String) (id : Uuid) : FillOp :=
  .propose reading ⟨"", "", ""⟩ (fun _ _ => .answered 200 none (.parsed [field])) number
    fun _ _ => id

def otherOp (op : Op) (h : op.isPlain = true) : FillOp := .other ⟨plainOp op h, rfl⟩

def jobOp (op : JobOp) : FillOp := .other ⟨.review ⟨.job op, rfl⟩, rfl⟩

/-- The first attempt of job 5 records a nickname and dies before the job is completed. The schema
changes, and the second attempt records an age. -/
def retriedOverChange : List FillOp :=
  [ otherOp (.createSchema 0 (personsWith []) none none 1 8) rfl,
    otherOp createPerson rfl,
    otherOp (.createSchema 0 (personsWith ["nickname"]) none none 2 11) rfl,
    jobOp (.create 5 "people"),
    jobOp (.reconcile 5 1),
    .readOutdated 5 "people",
    proposeField 0 1 "nickname" 100,
    otherOp (.createSchema 0 (personsWith ["age"]) none none 3 12) rfl,
    jobOp (.retry 5 "lost" 1),
    jobOp (.reconcile 5 2),
    .readOutdated 5 "people",
    proposeField 1 2 "age" 101,
    jobOp (.complete 5 2 1 0) ]

/-- The workspace after them. -/
def retriedWorkspace : WorkspaceState :=
  (run (FillState.step peopleContext .postgres inventive) (.empty none) retriedOverChange).workspace

/-- What a confirmation changes in an entity is defined by the version that the entity is on
afterwards. -/
def ChangesDefined (cx : Context) (w : WorkspaceState) : Prop :=
  ∀ jobId updatedBy stamps w', (Op.run (.confirm jobId updatedBy) stamps).apply cx w = .ok w' →
    ∀ k old new, w.store.rows.get? k = some old → w'.store.rows.get? k = some new →
      ∀ field, new.data.get? field ≠ old.data.get? field →
        Defines w'.store.tables.schemas new.schemaId new.entityType field

/-- The version and the data of the person, and the fields that the version has. -/
def personIn (w : WorkspaceState) : Option (Uuid × Json × Option (List String)) :=
  (w.store.rows.get? 7).map fun row => (row.schemaId, row.data,
    ((w.store.tables.schemas.get? row.schemaId).bind fun version =>
      version.definition.entityTypes.get? row.entityType).map fun t => t.fields.keys)

/-- The person is confirmed onto the third version with the nickname, which only the second
has. -/
theorem not_changesDefined_retriedOverChange : ¬ChangesDefined peopleContext retriedWorkspace := by
  have hbefore : personIn retriedWorkspace = some (1, .object [], some []) := by
    set_option maxRecDepth 4096 in
    decide
  have hafter : (((Op.run (.confirm 5 none) fun _ => ⟨30, "confirmed"⟩).apply peopleContext
      retriedWorkspace).toOption.bind personIn) =
        some (3, .object [("age", .string "?"), ("nickname", .string "?")], some ["age"]) := by
    set_option maxRecDepth 4096 in
    decide
  cases hconfirm : (Op.run (.confirm 5 none) fun _ => ⟨30, "confirmed"⟩).apply peopleContext
      retriedWorkspace with
  | error err =>
      rw [hconfirm] at hafter
      cases hafter
  | ok w' =>
      rw [hconfirm] at hafter
      intro h
      obtain ⟨old, hold, hbefore⟩ := Option.map_eq_some_iff.mp hbefore
      obtain ⟨new, hnew, hafter⟩ := Option.map_eq_some_iff.mp hafter
      simp only [Prod.mk.injEq] at hbefore hafter
      obtain ⟨-, hdata, hfields⟩ := hafter
      obtain ⟨version, t, hversion, htype, hdefined⟩ := h 5 none _ w' hconfirm 7 old new hold hnew
        "nickname" (by rw [hdata, hbefore.2.1]; decide)
      rw [hversion, Option.bind_some, htype, Option.map_some, Option.some.injEq] at hfields
      rw [← OrderedMap.mem_keys_iff, hfields] at hdefined
      revert hdefined
      decide

end Yorishiro.Transfer
