import Mathlib.Logic.Function.Basic
import Yorishiro.Transfer.Graph

/-!
# Reachable graphs

Every operation on a graph keeps it coherent: besides jobs and new versions, entities and relations
that come in are checked against the active version, and proposals are recorded for entities that
were read. `coherent_run` is the result for runs from an empty workspace. In such a graph, if each
name has one version, what is stored passes the checks of an import (`Coherent.entityValid`,
`Coherent.relationValid`).
-/

set_option autoImplicit false

namespace Yorishiro.Transfer

open Yorishiro.Lib Yorishiro.Lib.JsonSchema Yorishiro.Metaschema Yorishiro.Entity
open Yorishiro.Lib.Transition Yorishiro.Inference
open Yorishiro.Schema hiding deleteFork

variable {cx : Context} {kinds kinds' : Kinds} {w w' : WorkspaceState}
  {readings : List InferReading} {id : Uuid}

/-! ## What comes in -/

/-- Identifiers that are given out later change nothing for the others. -/
theorem Belongs.mono (hkinds : ∀ k kind, kinds k = some kind → kinds' k = some kind)
    {schemas : Schemas} {k schemaId : Uuid} {entityType : String}
    (h : Belongs kinds schemas k schemaId entityType) :
    Belongs kinds' schemas k schemaId entityType := by
  obtain ⟨version, hversion, hkind⟩ := h
  exact ⟨version, hversion, hkinds k _ hkind⟩

theorem Related.insert {relation : RelationRecord} {source target : EntityRow}
    (h : Related w.store relation source target) (hfree : w.store.rows.get? id = none)
    (row : EntityRow) :
    Related { w.store with rows := w.store.rows.insert id row } relation source target :=
  ⟨OrderedMap.get?_insert_of_absent hfree row h.hsource,
    OrderedMap.get?_insert_of_absent hfree row h.htarget, h.properties, h.typed⟩

/-- A created entity is valid for the active version of its name. -/
theorem Coherent.createWithQuota (h : Coherent cx kinds w readings) {input : CreateEntityInput}
    {createdBy : Option Uuid} {quota : Option Int} {stamp : Stamp}
    (hcreate : createWithQuota cx w input createdBy quota id stamp = .ok w') :
    ∃ kinds', Coherent cx kinds' w' readings := by
  obtain ⟨schema, hcheck, hid, rfl⟩ := createWithQuota_eq_ok.mp hcreate
  obtain ⟨-, -, hactive, t, htype, hvalid⟩ := checkCreate_eq_ok.mp hcheck
  have hstored := get?_of_getActiveSchema hactive
  have hconforms : conforms cx.validator.env w.store.tables.schemas schema.1 input.entityType
      input.data = true :=
    conforms_of_validateData hstored (resolveEntityType_eq_ok.mp htype) hvalid
  have hnew : kinds id = none := by
    by_contra hsome
    obtain ⟨kind, hkind⟩ := Option.ne_none_iff_exists'.mp hsome
    exact hid (h.issued id kind hkind)
  have hkinds : ∀ k kind, kinds k = some kind →
      Function.update kinds id (some (schema.2.name, input.entityType)) k = some kind := by
    intro k kind hkind
    rw [Function.update_of_ne, hkind]
    rintro rfl
    rw [hnew] at hkind
    cases hkind
  -- nothing speaks about the new identifier yet
  have hfree : ∀ {schemaId : Uuid} {entityType : String},
      ¬Belongs kinds w.store.tables.schemas id schemaId entityType := by
    rintro schemaId entityType ⟨version, -, hkind⟩
    rw [hnew] at hkind
    cases hkind
  have hfreeRow : w.store.rows.get? id = none := by
    by_contra hsome
    obtain ⟨row, hrow⟩ := Option.ne_none_iff_exists'.mp hsome
    exact hfree (h.entities.rows id row hrow).1
  refine ⟨Function.update kinds id (some (schema.2.name, input.entityType)), ?_⟩
  constructor
  case issued =>
    intro k kind hkind
    by_cases hk : k = id
    · exact hk ▸ List.mem_cons_self
    · rw [Function.update_of_ne hk] at hkind
      exact List.mem_cons_of_mem id (h.issued k kind hkind)
  case versions => exact h.versions
  case entities =>
    constructor
    · intro k row hrow
      rcases OrderedMap.get?_insert_eq_some hrow with ⟨rfl, rfl⟩ | ⟨-, hrow⟩
      · exact ⟨⟨schema.2, hstored, Function.update_self _ _ _⟩, fun _ => hconforms⟩
      · obtain ⟨hbelongs, hsound⟩ := h.entities.rows k row hrow
        exact ⟨hbelongs.mono hkinds, hsound⟩
    · intro snap hsnap
      obtain ⟨entityType, hbelongs, hsound⟩ := h.entities.snapshots snap hsnap
      exact ⟨entityType, hbelongs.mono hkinds, hsound⟩
    · intro l p hp
      obtain ⟨entityType, hbelongs⟩ := h.entities.proposals l p hp
      exact ⟨entityType, hbelongs.mono hkinds⟩
    · intro k row hrow snap hsnap hentity hne hisActive
      rcases OrderedMap.get?_insert_eq_some hrow with ⟨rfl, -⟩ | ⟨-, hrow⟩
      · obtain ⟨entityType, hbelongs, -⟩ := h.entities.snapshots snap hsnap
        exact absurd (hentity ▸ hbelongs) hfree
      · exact h.entities.left k row hrow snap hsnap hentity hne hisActive
  case relations =>
    intro l relation hrelation
    obtain ⟨source, target, hrelated⟩ := h.relations l relation hrelation
    exact ⟨source, target, hrelated.insert hfreeRow _⟩
  case readings =>
    intro reading hreading k hk
    obtain ⟨entityType, hkind⟩ := h.readings reading hreading k hk
    exact ⟨entityType, hkinds k _ hkind⟩

/-- A created relation is defined by the version that its source is on. -/
theorem Coherent.createRelation (h : Coherent cx kinds w readings) {sourceId targetId : Uuid}
    {relationType : String} {properties : Json}
    (hcreate : createRelation w sourceId targetId relationType properties id = .ok w') :
    Coherent cx kinds w' readings := by
  obtain ⟨source, target, relations, hsource, htarget, htyped, hinsert, rfl⟩ :=
    createRelation_eq_ok.mp hcreate
  obtain ⟨schema, definition, hschema, hdefinition, hends⟩ := validateRelationType_eq_ok.mp htyped
  refine ⟨h.issued, h.versions, h.entities, fun l relation hrelation => ?_, h.readings⟩
  rw [Table.get?_insert hinsert l] at hrelation
  split_ifs at hrelation
  · cases hrelation
    refine ⟨source, target, hsource, htarget, ?_,
      Or.inl ⟨schema, definition, hschema, hdefinition, hends⟩⟩
    unfold createdRelation
    dsimp only
    split_ifs with hnull
    · exact nofun
    · exact hnull
  · exact h.relations l relation hrelation

/-- Fewer relations, or in another status. -/
theorem Coherent.relationsBack (h : Coherent cx kinds w readings) {relations : Relations}
    (hback : ∀ l relation, relations.get? l = some relation → ∃ old,
      w.relations.get? l = some old ∧ relation = { old with status := relation.status }) :
    Coherent cx kinds { w with relations := relations } readings := by
  refine ⟨h.issued, h.versions, h.entities, fun l relation hrelation => ?_, h.readings⟩
  obtain ⟨old, hold, hsame⟩ := hback l relation hrelation
  obtain ⟨source, target, hrelated⟩ := h.relations l old hold
  rw [hsame]
  exact ⟨source, target, hrelated.hsource, hrelated.htarget, hrelated.properties, hrelated.typed⟩

theorem Coherent.setStatus (h : Coherent cx kinds w readings) {status : RelationStatus}
    (hset : setStatus w id status = .ok w') : Coherent cx kinds w' readings := by
  unfold Transfer.setStatus at hset
  split_ifs at hset
  obtain ⟨⟨relations, n⟩, hupdate, hset⟩ := Except.bind_eq_ok.mp hset
  cases hset
  refine h.relationsBack fun l relation hrelation => ?_
  rw [Table.get?_updateWhere (Except.mapError_eq_ok hupdate) l] at hrelation
  obtain ⟨old, hold, rfl⟩ := Option.map_eq_some_iff.mp hrelation
  refine ⟨old, hold, ?_⟩
  split_ifs <;> rfl

theorem Coherent.deleteRelation (h : Coherent cx kinds w readings)
    (hdelete : deleteRelation w id = .ok w') : Coherent cx kinds w' readings := by
  unfold Transfer.deleteRelation at hdelete
  split_ifs at hdelete
  cases hdelete
  refine h.relationsBack fun l relation hrelation => ⟨relation, ?_, rfl⟩
  rw [Table.get?_delete] at hrelation
  split_ifs at hrelation
  exact hrelation

/-! ## Imports -/

theorem Coherent.importRecord (h : Coherent cx kinds w readings) {args : ImportArgs}
    {p : ImportProgress} {stamp : Stamp} {record : ExportRecord}
    {r : WorkspaceState × ImportProgress}
    (himport : importRecord cx args w p id stamp record = .ok r) :
    ∃ kinds', Coherent cx kinds' r.1 readings := by
  cases record with
  | schema oldId definition =>
      obtain ⟨created, hcreated, himport⟩ := Except.bind_eq_ok.mp himport
      cases himport
      exact ⟨kinds, h.createSchema hcreated⟩
  | entity oldId schemaId entityType data =>
      obtain ⟨resolved, -, himport⟩ := Except.bind_eq_ok.mp himport
      obtain ⟨w', hcreated, himport⟩ := Except.bind_eq_ok.mp himport
      cases himport
      exact h.createWithQuota hcreated
  | relation sourceId targetId relationType properties =>
      obtain ⟨w', hcreated, himport⟩ := Except.bind_eq_ok.mp himport
      cases himport
      exact ⟨kinds, h.createRelation hcreated⟩

theorem Coherent.importLines {args : ImportArgs} {given : Nat → Uuid × Stamp}
    {lines : List (ImportLine × Nat)} {state r : WorkspaceState × ImportProgress}
    (h : Coherent cx kinds state.1 readings)
    (himport : lines.foldlM (importLine cx args given) state = .ok r) :
    ∃ kinds', Coherent cx kinds' r.1 readings := by
  induction lines generalizing state kinds with
  | nil =>
      cases himport
      exact ⟨kinds, h⟩
  | cons line lines ih =>
      rw [List.foldlM_cons] at himport
      obtain ⟨state', hline, himport⟩ := Except.bind_eq_ok.mp himport
      unfold importLine at hline
      split at hline
      · cases hline
        exact ih h himport
      · cases hline
      · obtain ⟨kinds', h'⟩ := h.importRecord (Except.mapError_eq_ok hline)
        exact ih h' himport

/-! ## Reviews -/

/-- Other tables beside the entities, with the proposals for the same entities and versions. -/
theorem Coherent.withTables (h : Coherent cx kinds w readings) {tables : Tables}
    (hschemas : tables.schemas = w.store.tables.schemas)
    (hsnapshots : tables.snapshots = w.store.tables.snapshots)
    (hproposals : ∀ l p, tables.proposals.get? l = some p → ∃ entityType,
      Belongs kinds w.store.tables.schemas p.entityId p.schemaId entityType) :
    Coherent cx kinds { w with store := { w.store with tables := tables } } readings where
  issued := h.issued
  versions := by
    rw [hschemas]
    exact h.versions
  entities := by
    constructor
    · rw [hschemas]
      exact h.entities.rows
    · rw [hschemas, hsnapshots]
      exact h.entities.snapshots
    · rw [hschemas]
      exact hproposals
    · intro k row hrow snap hsnap hentity hne hactive
      rw [hsnapshots] at hsnap
      rw [hschemas] at hactive
      unfold Elsewhere
      rw [hsnapshots]
      exact h.entities.left k row hrow snap hsnap hentity hne hactive
  relations := by
    intro l relation hrelation
    obtain ⟨source, target, hrelated⟩ := h.relations l relation hrelation
    refine ⟨source, target, hrelated.hsource, hrelated.htarget, hrelated.properties, ?_⟩
    rw [hschemas]
    unfold Elsewhere
    rw [hsnapshots]
    exact hrelated.typed
  readings := h.readings

theorem Coherent.transitionPending (h : Coherent cx kinds w readings) (jobId : Uuid)
    (status : ProposalStatus) :
    Coherent cx kinds
      { w with store := { w.store with tables := transitionPending w.store.tables jobId status } }
      readings := by
  refine h.withTables rfl rfl fun l p hp => ?_
  unfold Entity.transitionPending at hp
  rw [OrderedMap.get?_updateWhere] at hp
  obtain ⟨old, hold, rfl⟩ := Option.map_eq_some_iff.mp hp
  split_ifs
  · exact h.entities.proposals l old hold
  · exact h.entities.proposals l old hold

theorem cascade_eq_some {relations : Relations} {job : Job} {l : Uuid} {relation : RelationRecord}
    (h : (cascade relations job).get? l = some relation) :
    relations.get? l = some relation ∧ ¬Deletes job relation.sourceId ∧
      ¬Deletes job relation.targetId := by
  cases job with
  | delete id =>
      simp only [cascade, Table.get?_deleteWhere] at h
      obtain ⟨hget, hends⟩ := Option.filter_eq_some_iff.mp h
      simpa [Deletes, hget] using hends
  | update input => exact ⟨h, not_false, not_false⟩
  | fillDefaults args => exact ⟨h, not_false, not_false⟩
  | undoJob jobId => exact ⟨h, not_false, not_false⟩
  | confirm jobId updatedBy => exact ⟨h, not_false, not_false⟩

theorem Coherent.run (h : Coherent cx kinds w readings) {job : Job} {stamps : Nat → Stamp}
    (hrun : (Op.run job stamps).apply cx w = .ok w') : Coherent cx kinds w' readings := by
  obtain ⟨done, hdone, hrun⟩ := Except.bind_eq_ok.mp hrun
  cases hrun
  exact h.moves (code_moves hdone) rfl fun l relation hrelation => cascade_eq_some hrelation

theorem Coherent.op (h : Coherent cx kinds w readings) {op : Op} (hplain : op.isPlain = true)
    (hop : op.apply cx w = .ok w') : ∃ kinds', Coherent cx kinds' w' readings := by
  cases op with
  | createSchema tenantId definition originTemplateId originSnapshot l now =>
      obtain ⟨created, hcreated, hop⟩ := Except.bind_eq_ok.mp hop
      cases hop
      exact ⟨kinds, h.createSchema hcreated⟩
  | archive l =>
      obtain ⟨archived, harchived, hop⟩ := Except.bind_eq_ok.mp hop
      cases hop
      exact ⟨kinds, h.archive harchived _⟩
  | create input createdBy quota l stamp => exact h.createWithQuota hop
  | importJsonl args lines given =>
      obtain ⟨imported, himported, hop⟩ := Except.bind_eq_ok.mp hop
      cases hop
      exact h.importLines himported
  | run job stamps => exact ⟨kinds, h.run hop⟩
  | infer jobs proposals => cases hplain

theorem Coherent.review {backend : Backend} {s s' : ReviewState}
    (h : Coherent cx kinds s.workspace readings) {op : ReviewOp}
    (hnone : ReviewOp.recordsNone op = true) (hop : op.apply cx backend s = .ok s') :
    ∃ kinds', Coherent cx kinds' s'.workspace readings := by
  cases op with
  | plain op =>
      obtain ⟨workspace, happly, hop⟩ := Except.bind_eq_ok.mp hop
      cases hop
      exact h.op op.2 happly
  | job op =>
      obtain ⟨jobs, -, hop⟩ := Except.bind_eq_ok.mp hop
      cases hop
      exact ⟨kinds, h.withTables rfl rfl h.entities.proposals⟩
  | record schemaName target attempt => cases hnone
  | reject jobId =>
      obtain ⟨tables, hreject, hop⟩ := Except.bind_eq_ok.mp hop
      obtain ⟨_, -, hreject⟩ := Except.bind_eq_ok.mp hreject
      cases hreject
      cases hop
      exact ⟨kinds, h.transitionPending jobId .rejected⟩
  | discard jobId =>
      obtain ⟨tables, hdiscard, hop⟩ := Except.bind_eq_ok.mp hop
      obtain ⟨_, -, hdiscard⟩ := Except.bind_eq_ok.mp hdiscard
      cases hdiscard
      cases hop
      exact ⟨kinds, h.transitionPending jobId .discarded⟩
  | confirm jobId updatedBy stamps =>
      obtain ⟨workspace, happly, hop⟩ := Except.bind_eq_ok.mp hop
      cases hop
      exact ⟨kinds, h.run happly⟩
  | fill args stamps =>
      have hfill : Entity.fill cx s args stamps = .ok s' := hop
      unfold Entity.fill at hfill
      split_ifs at hfill
      · cases hfill
        exact ⟨kinds, h⟩
      · obtain ⟨workspace, happly, hfill⟩ := Except.bind_eq_ok.mp hfill
        cases hfill
        exact ⟨kinds, h.run happly⟩

/-! ## Proposals -/

/-- What a worker reads are entities of the name. -/
theorem Coherent.readOutdated {s s' : GraphState}
    (h : Coherent cx kinds s.workspace s.readings) {jobId : Uuid} {schemaName : String}
    (hread : readOutdated s jobId schemaName = .ok s') :
    Coherent cx kinds s'.workspace s'.readings := by
  obtain ⟨active, -, hread⟩ := Except.bind_eq_ok.mp hread
  cases hread
  refine ⟨h.issued, h.versions, h.entities, h.relations, fun reading hreading k hk => ?_⟩
  rcases List.mem_append.mp hreading with hreading | hreading
  · exact h.readings reading hreading k hk
  · cases List.mem_singleton.mp hreading
    obtain ⟨⟨l, row⟩, hmem, rfl⟩ := List.mem_map.mp hk
    obtain ⟨hentry, hselected⟩ := List.mem_filter.mp hmem
    rw [Bool.and_eq_true] at hselected
    obtain ⟨version, hversion, hname⟩ := (Option.any_eq_true _ _).mp hselected.1
    obtain ⟨⟨version', hversion', hkind⟩, -⟩ :=
      h.entities.rows l row ((OrderedMap.mem_entries_iff _ _ _).mp hentry)
    obtain rfl : version = version' := Option.some.inj (hversion.symm.trans hversion')
    exact ⟨row.entityType, by rw [hkind, of_decide_eq_true hname]⟩

/-- A proposal is recorded for the version of its entity's name. -/
theorem Coherent.recordAnswers {backend : Backend} {s s' : GraphState}
    (h : Coherent cx kinds s.workspace s.readings) {reading : Nat} {attempt : Attempt}
    (hrecord : recordAnswers cx backend s reading attempt = .ok s') :
    Coherent cx kinds s'.workspace s'.readings := by
  unfold Transfer.recordAnswers at hrecord
  split at hrecord
  · cases hrecord
    exact h
  · rename_i read hread
    split_ifs at hrecord with hall
    · obtain ⟨tables, hrecorded, hrecord⟩ := Except.bind_eq_ok.mp hrecord
      cases hrecord
      obtain ⟨current, hcurrent, hrecorded⟩ := Except.bind_eq_ok.mp hrecorded
      split_ifs at hrecorded with hchanged
      obtain ⟨_, -, hrecorded⟩ := Except.bind_eq_ok.mp hrecorded
      cases hrecorded
      push Not at hchanged
      obtain ⟨hstored, hname, -⟩ := getActiveSchema_eq_ok hcurrent
      refine h.withTables rfl rfl (recordAttempt_induction
        (P := fun m : Proposals => ∀ l p, m.get? l = some p → ∃ entityType,
          Belongs kinds s.workspace.store.tables.schemas p.entityId p.schemaId entityType)
        (fun _ batch hbatch answer _ m m' hm hinsert l p hp => ?_) h.entities.proposals)
      unfold Proposals.insertRow at hinsert
      split_ifs at hinsert
      cases hinsert
      rcases OrderedMap.get?_insert_eq_some hp with ⟨-, rfl⟩ | ⟨-, hp⟩
      · obtain ⟨entityType, hkind⟩ := h.readings read (List.mem_of_getElem? hread) batch.entityId
          (of_decide_eq_true (List.all_eq_true.mp hall batch hbatch))
        refine ⟨entityType, current.2, ?_, ?_⟩
        · rw [← hstored, hchanged.1]
          rfl
        · rw [hname]
          exact hkind
      · exact hm l p hp
    · cases hrecord
      exact h

/-! ## Runs -/

theorem coherent_empty (cx : Context) (maxEntities : Option Int) :
    Coherent cx (fun _ => none) (.empty maxEntities) [] where
  issued := fun _ _ h => by cases h
  versions := ⟨fun _ _ h => (by cases h), fun _ _ h => (by cases h), fun _ _ _ _ h => by cases h⟩
  entities := ⟨fun _ _ h => (by cases h), fun _ h => (by cases h), fun _ _ h => (by cases h),
    fun _ _ h => by cases h⟩
  relations := fun _ _ h => by cases h
  readings := fun _ h => by cases h

theorem Coherent.apply {backend : Backend} {s s' : GraphState}
    (h : Coherent cx kinds s.workspace s.readings) {op : GraphOp}
    (hop : op.apply cx backend s = .ok s') :
    ∃ kinds', Coherent cx kinds' s'.workspace s'.readings := by
  cases op with
  | review op =>
      obtain ⟨review, happly, hop⟩ := Except.bind_eq_ok.mp hop
      cases hop
      exact h.review op.2 happly
  | readOutdated jobId schemaName => exact ⟨kinds, h.readOutdated hop⟩
  | recordAnswers reading attempt => exact ⟨kinds, h.recordAnswers hop⟩
  | relate sourceId targetId relationType properties id =>
      obtain ⟨workspace, hcreated, hop⟩ := Except.bind_eq_ok.mp hop
      cases hop
      exact ⟨kinds, h.createRelation hcreated⟩
  | setStatus id status =>
      obtain ⟨workspace, hset, hop⟩ := Except.bind_eq_ok.mp hop
      cases hop
      exact ⟨kinds, h.setStatus hset⟩
  | unrelate id =>
      obtain ⟨workspace, hdeleted, hop⟩ := Except.bind_eq_ok.mp hop
      cases hop
      exact ⟨kinds, h.deleteRelation hdeleted⟩
  | forkHead tenantId definition id =>
      obtain ⟨⟨schemas, row⟩, hinserted, hop⟩ := Except.bind_eq_ok.mp hop
      cases hop
      exact ⟨kinds, h.insertForkHead hinserted _⟩
  | deleteSchema id references =>
      obtain ⟨workspace, hdeleted, hop⟩ := Except.bind_eq_ok.mp hop
      cases hop
      exact ⟨kinds, h.deleteSchema hdeleted⟩

/-- **Every reachable graph is coherent.** -/
theorem coherent_run (cx : Context) (backend : Backend) (maxEntities : Option Int)
    (ops : List GraphOp) :
    ∃ kinds, Coherent cx kinds
      (run (GraphOp.step cx backend) (.empty maxEntities) ops).workspace
      (run (GraphOp.step cx backend) (.empty maxEntities) ops).readings := by
  refine run_invariant
    (fun s : GraphState => ∃ kinds, Coherent cx kinds s.workspace s.readings) ?_
    ⟨_, coherent_empty cx maxEntities⟩ (StepsMeet.of_forall (fun _ _ => trivial) _ ops)
  rintro s op ⟨kinds, h⟩ -
  unfold GraphOp.step
  split
  · rename_i s' hop
    exact h.apply hop
  · exact ⟨kinds, h⟩

/-! ## One version of each name -/

/-- Each name has one version, an active one, and all relations are active. -/
structure Settled (w : WorkspaceState) : Prop where
  single : ∀ a b x y, w.store.tables.schemas.get? a = some x →
    w.store.tables.schemas.get? b = some y → x.name = y.name → a = b
  active : ∀ id row, w.store.tables.schemas.get? id = some row → row.status = .active
  relations : ∀ id relation, w.relations.get? id = some relation → relation.status = .active

/-- The row passes the checks of a creation under its version. -/
structure EntityValid (cx : Context) (schemas : Schemas) (row : EntityRow) (version : SchemaRecord) :
    Prop where
  stored : schemas.get? row.schemaId = some version
  valid : ∃ t, resolveEntityType version.definition row.entityType = .ok t ∧
    validateData cx.validator t row.data = .ok ()

/-- The relation passes the checks of a creation. -/
structure RelationValid (store : EntityStore) (relation : RelationRecord)
    (source target : EntityRow) : Prop where
  hsource : store.rows.get? relation.sourceId = some source
  htarget : store.rows.get? relation.targetId = some target
  typed : validateRelationType store source target relation.relationType = .ok ()
  properties : relation.properties ≠ .null

/-- **What is stored passes the checks again.** -/
theorem Coherent.entityValid (h : Coherent cx kinds w readings) (hsettled : Settled w) {k : Uuid}
    {row : EntityRow} (hrow : w.store.rows.get? k = some row) :
    ∃ version, EntityValid cx w.store.tables.schemas row version := by
  obtain ⟨⟨version, hversion, -⟩, hsound⟩ := h.entities.rows k row hrow
  obtain ⟨t, ht, hvalid⟩ := conforms_iff.mp
    (hsound ⟨version, hversion, hsettled.active _ version hversion⟩)
  rw [typeOf_of_get? hversion] at ht
  exact ⟨version, hversion, t, resolveEntityType_eq_ok.mpr ht,
    (validateData_eq_ok_iff (h.versions.valid _ version hversion) ht row.data).mpr hvalid⟩

theorem Coherent.relationValid (h : Coherent cx kinds w readings) (hsettled : Settled w)
    {l : Uuid} {relation : RelationRecord} (hrelation : w.relations.get? l = some relation) :
    ∃ source target, RelationValid w.store relation source target := by
  obtain ⟨source, target, hrelated⟩ := h.relations l relation hrelation
  obtain ⟨hbelongs, -⟩ := h.entities.rows _ source hrelated.hsource
  have hstored := hbelongs
  obtain ⟨version, hversion, -⟩ := hstored
  refine ⟨source, target, hrelated.hsource, hrelated.htarget, ?_, hrelated.properties⟩
  rcases hrelated.typed with ⟨schema, definition, htyped⟩ | hinactive | ⟨snap, hsnap, hentity, hne⟩
  · exact validateRelationType_eq_ok.mpr ⟨schema, definition, htyped⟩
  · exact absurd ⟨version, hversion, hsettled.active _ version hversion⟩ hinactive
  -- another version that the source has been on would be stored, under the same name
  · obtain ⟨entityType, hsnapBelongs, -⟩ := h.entities.snapshots snap hsnap
    rw [hentity] at hsnapBelongs
    have hother := hsnapBelongs
    obtain ⟨version', hversion', -⟩ := hother
    exact absurd (hsettled.single _ _ version' version hversion' hversion
      (hsnapBelongs.name_eq hbelongs hversion' hversion)) hne

end Yorishiro.Transfer
