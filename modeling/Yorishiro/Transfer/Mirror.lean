import Yorishiro.Transfer.Export

/-!
# What an import makes of an export

An import re-creates what it reads, line by line, and remembers under which new identifier.
`Mirror` says of the lines read so far what is in the workspace because of them, and that nothing
else is. A line is `Ready` when what it refers to has been read, and the lines of an export come in
such an order (`ready_exportRows`). So the workspace after an import mirrors the whole export
(`mirror_importText`).
-/

set_option autoImplicit false

namespace Yorishiro.Transfer

open Yorishiro.Lib Yorishiro.Lib.JsonSchema Yorishiro.Metaschema Yorishiro.Entity
open Yorishiro.Schema hiding deleteFork

/-! ## Lines in order -/

/-- What the line refers to has been read, and the line itself has not. -/
def Ready (done : List ExportRow) : ExportRow → Prop
  | .schema id _ => ∀ row, .schema id row ∉ done
  | .entity id row => (∀ row, .entity id row ∉ done) ∧
      ∃ version, .schema row.schemaId version ∈ done
  | .relation id row => (∀ row, .relation id row ∉ done) ∧
      (∃ source, .entity row.sourceId source ∈ done) ∧ ∃ target, .entity row.targetId target ∈ done

/-- Schemas, then entities, then relations. -/
def ExportRow.rank : ExportRow → Nat
  | .schema _ _ => 0
  | .entity _ _ => 1
  | .relation _ _ => 2

/-- Entities and relations refer to what is stored. -/
structure Closed (s : WorkspaceState) : Prop where
  versions : ∀ k row, s.store.rows.get? k = some row →
    ∃ version, s.store.tables.schemas.get? row.schemaId = some version
  ends : ∀ l relation, s.relations.get? l = some relation →
    (∃ source, s.store.rows.get? relation.sourceId = some source) ∧
      ∃ target, s.store.rows.get? relation.targetId = some target

section Order

variable {κ : Type} [LinearOrder κ] {w : Wire κ} {s : WorkspaceState}

@[simp] theorem schema_mem_exportRows {id : Uuid} {row : SchemaRecord} :
    .schema id row ∈ exportRows w s ↔ s.store.tables.schemas.get? id = some row := by
  simp [exportRows, schemaRows, Table.get?, ← OrderedMap.mem_entries_iff]

@[simp] theorem entity_mem_exportRows {id : Uuid} {row : EntityRow} :
    .entity id row ∈ exportRows w s ↔ s.store.rows.get? id = some row := by
  simp [exportRows, ← OrderedMap.mem_entries_iff]

@[simp] theorem relation_mem_exportRows {id : Uuid} {row : RelationRecord} :
    .relation id row ∈ exportRows w s ↔ s.relations.get? id = some row := by
  simp [exportRows, Table.get?, ← OrderedMap.mem_entries_iff]

theorem exportRows_ranked : (exportRows w s).Pairwise fun a b => a.rank ≤ b.rank := by
  unfold exportRows
  rw [List.pairwise_append, List.pairwise_append]
  refine ⟨⟨?_, ?_, ?_⟩, ?_, ?_⟩
  · exact List.pairwise_map.mpr (List.pairwise_of_forall fun _ _ => le_rfl)
  · exact List.pairwise_map.mpr (List.pairwise_of_forall fun _ _ => le_rfl)
  · intro a ha b hb
    obtain ⟨_, -, rfl⟩ := List.mem_map.mp ha
    obtain ⟨_, -, rfl⟩ := List.mem_map.mp hb
    exact Nat.zero_le 1
  · exact List.pairwise_map.mpr (List.pairwise_of_forall fun _ _ => le_rfl)
  · intro a ha b hb
    obtain ⟨_, -, rfl⟩ := List.mem_map.mp hb
    rcases List.mem_append.mp ha with ha | ha
    · obtain ⟨_, -, rfl⟩ := List.mem_map.mp ha
      exact Nat.zero_le 2
    · obtain ⟨_, -, rfl⟩ := List.mem_map.mp ha
      exact Nat.le_succ 1

theorem exportRows_nodup : (exportRows w s).Nodup := by
  have hentries : ∀ {α : Type} (m : OrderedMap Uuid α), m.entries.Nodup :=
    fun m => m.nodup_keys.of_map
  have hschemas : (schemaRows w s).Nodup :=
    (List.perm_insertionSort _ _).nodup_iff.mpr (hentries _)
  unfold exportRows
  rw [List.nodup_append, List.nodup_append]
  refine ⟨⟨?_, ?_, ?_⟩, ?_, ?_⟩
  · exact hschemas.map fun a b h => by
      obtain ⟨hid, hrow⟩ := ExportRow.schema.inj h
      exact Prod.ext hid hrow
  · exact (hentries _).map fun a b h => by
      obtain ⟨hid, hrow⟩ := ExportRow.entity.inj h
      exact Prod.ext hid hrow
  · intro a ha b hb
    obtain ⟨_, -, rfl⟩ := List.mem_map.mp ha
    obtain ⟨_, -, rfl⟩ := List.mem_map.mp hb
    exact nofun
  · exact (hentries _).map fun a b h => by
      obtain ⟨hid, hrow⟩ := ExportRow.relation.inj h
      exact Prod.ext hid hrow
  · intro a ha b hb
    obtain ⟨_, -, rfl⟩ := List.mem_map.mp hb
    rcases List.mem_append.mp ha with ha | ha
    · obtain ⟨_, -, rfl⟩ := List.mem_map.mp ha
      exact nofun
    · obtain ⟨_, -, rfl⟩ := List.mem_map.mp ha
      exact nofun

/-- **In an export, what a line refers to comes before it.** -/
theorem ready_exportRows (hclosed : Closed s) {done rest : List ExportRow} {x : ExportRow}
    (hrows : exportRows w s = done ++ x :: rest) : Ready done x := by
  have hx : x ∈ exportRows w s := by
    rw [hrows]
    exact List.mem_append_right done List.mem_cons_self
  have hdone : ∀ {y}, y ∈ done → y ∈ exportRows w s := fun hy => by
    rw [hrows]
    exact List.mem_append_left _ hy
  have hnew : x ∉ done := by
    have hnodup := exportRows_nodup (w := w) (s := s)
    rw [hrows] at hnodup
    intro hmem
    exact (List.nodup_append.mp hnodup).2.2 x hmem x List.mem_cons_self rfl
  -- a line of a lower rank comes before
  have hbefore : ∀ {y}, y ∈ exportRows w s → y.rank < x.rank → y ∈ done := by
    intro y hy hlt
    have hranked := exportRows_ranked (w := w) (s := s)
    rw [hrows] at hy hranked
    rcases List.mem_append.mp hy with hy | hy
    · exact hy
    rcases List.mem_cons.mp hy with rfl | hy
    · exact absurd hlt (lt_irrefl _)
    · obtain ⟨-, htail, -⟩ := List.pairwise_append.mp hranked
      exact absurd ((List.pairwise_cons.mp htail).1 y hy) (not_le_of_gt hlt)
  cases x with
  | schema id row =>
      intro row' hrow'
      have hrow := schema_mem_exportRows.mp hx
      rw [schema_mem_exportRows.mp (hdone hrow')] at hrow
      cases hrow
      exact hnew hrow'
  | entity id row =>
      have hrow := entity_mem_exportRows.mp hx
      refine ⟨fun row' hrow' => ?_, ?_⟩
      · rw [entity_mem_exportRows.mp (hdone hrow')] at hrow
        cases hrow
        exact hnew hrow'
      · obtain ⟨version, hversion⟩ := hclosed.versions id row hrow
        exact ⟨version, hbefore (schema_mem_exportRows.mpr hversion) Nat.zero_lt_one⟩
  | relation id row =>
      have hrow := relation_mem_exportRows.mp hx
      obtain ⟨⟨source, hsource⟩, ⟨target, htarget⟩⟩ := hclosed.ends id row hrow
      refine ⟨fun row' hrow' => ?_, ⟨source, ?_⟩, ⟨target, ?_⟩⟩
      · rw [relation_mem_exportRows.mp (hdone hrow')] at hrow
        cases hrow
        exact hnew hrow'
      · exact hbefore (entity_mem_exportRows.mpr hsource) (Nat.lt_succ_self 1)
      · exact hbefore (entity_mem_exportRows.mpr htarget) (Nat.lt_succ_self 1)

end Order

/-! ## What is there because of the lines -/

/-- The definition of a line for a version of the name. -/
def ExportRow.definitionOf (name : String) : ExportRow → Option MetaSchemaDefinition
  | .schema _ row => if row.definition.name = name then some row.definition else none
  | .entity _ _ => none
  | .relation _ _ => none

/-- The definition of the last line for a version of the name. -/
def lastDefinition (done : List ExportRow) (name : String) : Option MetaSchemaDefinition :=
  (done.filterMap (ExportRow.definitionOf name)).getLast?

/-- A version of the name is active with this definition. -/
def ActiveDefinition (schemas : Schemas) (name : String) (definition : MetaSchemaDefinition) :
    Prop :=
  ∃ id row, schemas.get? id = some row ∧ row.name = name ∧ row.status = .active ∧
    row.definition = definition

/-- The versions are those of the schema lines, and the last of a name is the active one. -/
structure VersionsMirror (done : List ExportRow) (w : WorkspaceState) (p : ImportProgress) :
    Prop where
  names : ∀ id row, .schema id row ∈ done →
    p.schemaNameByOldId.get? id = some row.definition.name
  active : ∀ name definition, ActiveDefinition w.store.tables.schemas name definition ↔
    lastDefinition done name = some definition
  back : ∀ id version, w.store.tables.schemas.get? id = some version →
    version.name = version.definition.name ∧
      ∃ old row, .schema old row ∈ done ∧ row.definition = version.definition
  pending : ∀ id row, .schema id row ∈ done → w.store.tables.workspace.schemaPending = false

/-- The entity has the type and the data of the row, on a version of the same name. -/
structure EntityCopy (done : List ExportRow) (schemas : Schemas) (row copy : EntityRow) : Prop where
  type : copy.entityType = row.entityType
  data : copy.data = row.data
  version : ∃ old new, .schema row.schemaId old ∈ done ∧ schemas.get? copy.schemaId = some new ∧
    new.name = old.definition.name

/-- The entities are copies of those of the entity lines, each under its own identifier. -/
structure EntitiesMirror (done : List ExportRow) (w : WorkspaceState) (p : ImportProgress) :
    Prop where
  copied : ∀ k row, .entity k row ∈ done → ∃ l copy, p.entityIdMap.get? k = some l ∧
    w.store.rows.get? l = some copy ∧ EntityCopy done w.store.tables.schemas row copy
  back : ∀ l copy, w.store.rows.get? l = some copy → ∃ k, p.entityIdMap.get? k = some l
  read : ∀ k l, p.entityIdMap.get? k = some l → l ∈ w.issued ∧ ∃ row, .entity k row ∈ done
  injective : ∀ j k l, p.entityIdMap.get? j = some l → p.entityIdMap.get? k = some l → j = k

/-- The relation is an active one between the copies of the ends. -/
def RelationCopy (ids : OrderedMap Uuid Uuid) (row copy : RelationRecord) : Prop :=
  ∃ source target, ids.get? row.sourceId = some source ∧ ids.get? row.targetId = some target ∧
    copy = createdRelation source target row.relationType row.properties

/-- The relations are copies of those of the relation lines. -/
structure RelationsMirror (done : List ExportRow) (w : WorkspaceState) (p : ImportProgress) :
    Prop where
  copied : ∀ id row, .relation id row ∈ done → ∃ l copy, w.relations.get? l = some copy ∧
    RelationCopy p.entityIdMap row copy
  back : ∀ l copy, w.relations.get? l = some copy → ∃ id row, .relation id row ∈ done ∧
    RelationCopy p.entityIdMap row copy

/-- The workspace is what the import made of the lines. -/
structure Mirror (done : List ExportRow) (w : WorkspaceState) (p : ImportProgress) : Prop where
  versions : VersionsMirror done w p
  entities : EntitiesMirror done w p
  relations : RelationsMirror done w p

/-- Nothing that an import writes is there. -/
structure Blank (d : WorkspaceState) : Prop where
  schemas : ∀ id, d.store.tables.schemas.get? id = none
  rows : ∀ id, d.store.rows.get? id = none
  relations : ∀ id, d.relations.get? id = none

theorem mirror_start {d : WorkspaceState} (h : Blank d) : Mirror [] d .start where
  versions := by
    refine ⟨fun _ _ hmem => absurd hmem List.not_mem_nil, fun name definition => ?_, ?_,
      fun _ _ hmem => absurd hmem List.not_mem_nil⟩
    · refine ⟨?_, fun hlast => by cases hlast⟩
      rintro ⟨id, row, hrow, -⟩
      rw [h.schemas id] at hrow
      cases hrow
    · intro id version hversion
      rw [h.schemas id] at hversion
      cases hversion
  entities := by
    refine ⟨fun _ _ hmem => absurd hmem List.not_mem_nil, fun l copy hcopy => ?_,
      fun _ _ hk => (by cases hk), fun _ _ _ hj => by cases hj⟩
    rw [h.rows l] at hcopy
    cases hcopy
  relations := by
    refine ⟨fun _ _ hmem => absurd hmem List.not_mem_nil, fun l copy hcopy => ?_⟩
    rw [h.relations l] at hcopy
    cases hcopy

/-! ## One line -/

section Line

variable {cx : Context} {args : ImportArgs} {done : List ExportRow} {w w' : WorkspaceState}
  {p : ImportProgress} {id : Uuid} {stamp : Stamp}

theorem lastDefinition_schema (done : List ExportRow) (id : Uuid) (row : SchemaRecord)
    (name : String) :
    lastDefinition (done ++ [.schema id row]) name =
      if row.definition.name = name then some row.definition else lastDefinition done name := by
  unfold lastDefinition
  rw [List.filterMap_append]
  split_ifs with hname
  · simp [ExportRow.definitionOf, hname]
  · simp [ExportRow.definitionOf, hname]

theorem lastDefinition_entity (done : List ExportRow) (id : Uuid) (row : EntityRow) :
    lastDefinition (done ++ [.entity id row]) = lastDefinition done := by
  funext name
  simp [lastDefinition, ExportRow.definitionOf]

theorem lastDefinition_relation (done : List ExportRow) (id : Uuid) (row : RelationRecord) :
    lastDefinition (done ++ [.relation id row]) = lastDefinition done := by
  funext name
  simp [lastDefinition, ExportRow.definitionOf]

/-- After a creation the new version is the active one of its name. -/
theorem activeDefinition_inserted {a b : Schemas} {row : SchemaRecord}
    (h : Inserted (retire row.name) a b id row) (hactive : row.status = .active) (name : String)
    (definition : MetaSchemaDefinition) :
    ActiveDefinition b name definition ↔
      if row.name = name then row.definition = definition
      else ActiveDefinition a name definition := by
  split_ifs with hname
  · constructor
    · rintro ⟨l, version, hversion, hsame, hstatus, rfl⟩
      rcases h.cases hversion with ⟨-, rfl⟩ | ⟨old, hold, rfl⟩
      · rfl
      · rw [retire_name] at hsame
        exact absurd (hsame.trans hname.symm) (retire_eq_active hstatus).2
    · intro hdefinition
      exact ⟨id, row, h.get?_self, hname, hactive, hdefinition⟩
  · constructor
    · rintro ⟨l, version, hversion, hsame, hstatus, rfl⟩
      rcases h.cases hversion with ⟨-, rfl⟩ | ⟨old, hold, rfl⟩
      · exact absurd hsame hname
      · rw [retire_name] at hsame
        rw [retire_definition]
        exact ⟨l, old, hold, hsame, (retire_eq_active hstatus).1, rfl⟩
    · rintro ⟨l, old, hold, hsame, hstatus, rfl⟩
      refine ⟨l, retire row.name old, h.get?_old hold, ?_, ?_, ?_⟩
      · rw [retire_name, hsame]
      -- the old version has another name, so it stays active
      · have hother : isActive row.name old = false := by
          simp [isActive, hsame, Ne.symm hname]
        simp [retire, hother, hstatus]
      · rw [retire_definition]

/-- Entities stay as they are while other lines are read. -/
theorem EntitiesMirror.frame (h : EntitiesMirror done w p) {done' : List ExportRow}
    {p' : ImportProgress} (hdone : done ⊆ done')
    (hback : ∀ k row, .entity k row ∈ done' → .entity k row ∈ done)
    (hkept : Extends w.store.tables.schemas w'.store.tables.schemas)
    (hrows : w'.store.rows = w.store.rows) (hissued : w'.issued = w.issued)
    (hids : p'.entityIdMap = p.entityIdMap) : EntitiesMirror done' w' p' := by
  constructor
  case copied =>
    intro k row hrow
    obtain ⟨l, copy, hl, hcopy, hsame⟩ := h.copied k row (hback k row hrow)
    obtain ⟨old, new, hold, hnew, hname⟩ := hsame.version
    obtain ⟨new', hnew', hname', -⟩ := hkept _ new hnew
    rw [hids, hrows]
    exact ⟨l, copy, hl, hcopy, hsame.type, hsame.data, old, new', hdone hold, hnew',
      hname'.trans hname⟩
  case back =>
    rw [hids, hrows]
    exact h.back
  case read =>
    intro k l hk
    rw [hids] at hk
    rw [hissued]
    obtain ⟨hl, row, hrow⟩ := h.read k l hk
    exact ⟨hl, row, hdone hrow⟩
  case injective =>
    rw [hids]
    exact h.injective

theorem RelationCopy.mono {ids ids' : OrderedMap Uuid Uuid}
    (hids : ∀ k l, ids.get? k = some l → ids'.get? k = some l) {row copy : RelationRecord}
    (h : RelationCopy ids row copy) : RelationCopy ids' row copy := by
  obtain ⟨source, target, hsource, htarget, hcopy⟩ := h
  exact ⟨source, target, hids _ source hsource, hids _ target htarget, hcopy⟩

/-- Relations stay as they are while other lines are read. -/
theorem RelationsMirror.frame (h : RelationsMirror done w p) {done' : List ExportRow}
    {p' : ImportProgress} (hdone : done ⊆ done')
    (hback : ∀ id row, .relation id row ∈ done' → .relation id row ∈ done)
    (hrelations : w'.relations = w.relations)
    (hids : ∀ k l, p.entityIdMap.get? k = some l → p'.entityIdMap.get? k = some l) :
    RelationsMirror done' w' p' := by
  constructor
  case copied =>
    intro l row hrow
    obtain ⟨m, copy, hcopy, hsame⟩ := h.copied l row (hback l row hrow)
    rw [hrelations]
    exact ⟨m, copy, hcopy, hsame.mono hids⟩
  case back =>
    intro m copy hcopy
    rw [hrelations] at hcopy
    obtain ⟨l, row, hrow, hsame⟩ := h.back m copy hcopy
    exact ⟨l, row, hdone hrow, hsame.mono hids⟩

/-- Versions stay as they are while other lines are read. -/
theorem VersionsMirror.frame (h : VersionsMirror done w p) {done' : List ExportRow}
    {p' : ImportProgress} (hdone : done ⊆ done')
    (hback : ∀ id row, .schema id row ∈ done' → .schema id row ∈ done)
    (hlast : lastDefinition done' = lastDefinition done)
    (htables : w'.store.tables = w.store.tables)
    (hnames : p'.schemaNameByOldId = p.schemaNameByOldId) : VersionsMirror done' w' p' := by
  constructor
  case names =>
    intro l row hrow
    rw [hnames]
    exact h.names l row (hback l row hrow)
  case active =>
    rw [htables, hlast]
    exact h.active
  case back =>
    intro l version hversion
    rw [htables] at hversion
    obtain ⟨hname, k, row, hrow, hfrom⟩ := h.back l version hversion
    exact ⟨hname, k, row, hdone hrow, hfrom⟩
  case pending =>
    intro l row hrow
    rw [htables]
    exact h.pending l row (hback l row hrow)

/-- A schema line adds a version, which becomes the active one of its name. -/
theorem Mirror.schema (h : Mirror done w p) {oldId : Uuid} {row : SchemaRecord}
    (hnew : ∀ row, .schema oldId row ∉ done)
    {created : Schemas × Workspace × SchemaRecord × VersioningDiff}
    (hcreated : createSchema cx.validator.env cx.showBound w.store.tables.schemas
      w.store.tables.workspace args.tenantId row.definition none none id stamp.now = .ok created)
    {p' : ImportProgress}
    (hnames : p'.schemaNameByOldId = p.schemaNameByOldId.insert oldId row.definition.name)
    (hids : p'.entityIdMap = p.entityIdMap) :
    Mirror (done ++ [.schema oldId row]) (w.withSchemas created.1 created.2.1) p' := by
  obtain ⟨hinserted, hworkspace, hname, hactive⟩ := createSchema_eq_ok hcreated
  obtain ⟨-, hdefinition⟩ := createSchema_definition hcreated
  have hdone : done ⊆ done ++ [.schema oldId row] := List.subset_append_left _ _
  constructor
  case versions =>
    constructor
    case names =>
      intro l version hversion
      rw [hnames, OrderedMap.get?_insert]
      rcases List.mem_append.mp hversion with hread | hread
      · rw [if_neg, h.versions.names l version hread]
        rintro rfl
        exact hnew version hread
      · cases List.mem_singleton.mp hread
        rw [if_pos rfl]
    case active =>
      intro name definition
      rw [← hname] at hinserted
      rw [lastDefinition_schema]
      refine (activeDefinition_inserted hinserted hactive name definition).trans ?_
      rw [hname, hdefinition]
      split_ifs
      · rw [Option.some.injEq]
      · exact h.versions.active name definition
    case back =>
      intro l version hversion
      rcases hinserted.cases hversion with ⟨-, rfl⟩ | ⟨old, hold, rfl⟩
      · rw [hname, hdefinition]
        exact ⟨rfl, oldId, row, List.mem_append_right _ List.mem_cons_self, rfl⟩
      · rw [retire_name, retire_definition]
        obtain ⟨hsame, k, read, hread, hfrom⟩ := h.versions.back l old hold
        exact ⟨hsame, k, read, hdone hread, hfrom⟩
    case pending => exact fun _ _ _ => congrArg Workspace.schemaPending hworkspace
  case entities =>
    exact h.entities.frame hdone (by simp) (createSchema_extends hcreated) rfl rfl hids
  case relations =>
    refine h.relations.frame hdone (by simp) rfl fun k l hk => ?_
    rw [hids]
    exact hk

/-- An entity line adds a copy, on the active version of the name it was read with. -/
theorem Mirror.entity (h : Mirror done w p) {oldId : Uuid} {row : EntityRow} {old : SchemaRecord}
    (hnew : ∀ row, .entity oldId row ∉ done) (hold : .schema row.schemaId old ∈ done)
    {input : CreateEntityInput} (hname : input.schemaName = old.definition.name)
    (htype : input.entityType = row.entityType) (hdata : input.data = row.data)
    (hcreated : createWithQuota cx w input args.importedBy args.entityQuota id stamp = .ok w')
    {p' : ImportProgress} (hnames : p'.schemaNameByOldId = p.schemaNameByOldId)
    (hids : p'.entityIdMap = p.entityIdMap.insert oldId id) :
    Mirror (done ++ [.entity oldId row]) w' p' := by
  obtain ⟨schema, hcheck, hfree, rfl⟩ := createWithQuota_eq_ok.mp hcreated
  obtain ⟨-, -, hactive, -⟩ := checkCreate_eq_ok.mp hcheck
  obtain ⟨hstored, hschema, -⟩ := getActiveSchema_eq_ok hactive
  have hdone : done ⊆ done ++ [.entity oldId row] := List.subset_append_left _ _
  have hunread : p.entityIdMap.get? oldId = none := by
    by_contra hsome
    obtain ⟨l, hl⟩ := Option.ne_none_iff_exists'.mp hsome
    obtain ⟨-, read, hread⟩ := h.entities.read oldId l hl
    exact hnew read hread
  have hfreeRow : w.store.rows.get? id = none := by
    by_contra hsome
    obtain ⟨copy, hcopy⟩ := Option.ne_none_iff_exists'.mp hsome
    obtain ⟨k, hk⟩ := h.entities.back id copy hcopy
    exact hfree (h.entities.read k id hk).1
  have hkept : ∀ k l, p.entityIdMap.get? k = some l → p'.entityIdMap.get? k = some l := by
    intro k l hk
    rw [hids]
    exact OrderedMap.get?_insert_of_absent hunread id hk
  constructor
  case versions =>
    exact h.versions.frame hdone (by simp) (lastDefinition_entity done oldId row) rfl hnames
  case entities =>
    constructor
    case copied =>
      intro k read hread
      rcases List.mem_append.mp hread with hread | hread
      · obtain ⟨l, copy, hl, hcopy, hsame⟩ := h.entities.copied k read hread
        obtain ⟨version, new, hversion, hnewVersion⟩ := hsame.version
        exact ⟨l, copy, hkept k l hl, OrderedMap.get?_insert_of_absent hfreeRow _ hcopy, hsame.type,
          hsame.data, version, new, hdone hversion, hnewVersion⟩
      · cases List.mem_singleton.mp hread
        rw [hids]
        exact ⟨id, _, OrderedMap.get?_insert_self _ _ _, OrderedMap.get?_insert_self _ _ _, htype,
          hdata, old, schema.2, hdone hold, hstored, hschema.trans hname⟩
    case back =>
      intro l copy hcopy
      rcases OrderedMap.get?_insert_eq_some hcopy with ⟨rfl, -⟩ | ⟨-, hcopy⟩
      · rw [hids]
        exact ⟨oldId, OrderedMap.get?_insert_self _ _ _⟩
      · obtain ⟨k, hk⟩ := h.entities.back l copy hcopy
        exact ⟨k, hkept k l hk⟩
    case read =>
      intro k l hk
      rw [hids] at hk
      rcases OrderedMap.get?_insert_eq_some hk with ⟨rfl, rfl⟩ | ⟨-, hk⟩
      · exact ⟨List.mem_cons_self, row, List.mem_append_right _ List.mem_cons_self⟩
      · obtain ⟨hl, read, hread⟩ := h.entities.read k l hk
        exact ⟨List.mem_cons_of_mem id hl, read, hdone hread⟩
    case injective =>
      intro j k l hj hk
      rw [hids] at hj hk
      rcases OrderedMap.get?_insert_eq_some hj with ⟨rfl, rfl⟩ | ⟨-, hold⟩
      · rcases OrderedMap.get?_insert_eq_some hk with ⟨rfl, -⟩ | ⟨-, hold⟩
        · rfl
        · exact absurd (h.entities.read k l hold).1 hfree
      · rcases OrderedMap.get?_insert_eq_some hk with ⟨rfl, rfl⟩ | ⟨-, hold'⟩
        · exact absurd (h.entities.read j l hold).1 hfree
        · exact h.entities.injective j k l hold hold'
  case relations => exact h.relations.frame hdone (by simp) rfl hkept

/-- A relation line adds a relation between the copies of its ends. -/
theorem Mirror.relation (h : Mirror done w p) {oldId : Uuid} {row : RelationRecord}
    {source target : Uuid} (hsource : p.entityIdMap.get? row.sourceId = some source)
    (htarget : p.entityIdMap.get? row.targetId = some target)
    (hcreated : createRelation w source target row.relationType row.properties id = .ok w')
    {p' : ImportProgress} (hnames : p'.schemaNameByOldId = p.schemaNameByOldId)
    (hids : p'.entityIdMap = p.entityIdMap) :
    Mirror (done ++ [.relation oldId row]) w' p' := by
  obtain ⟨_, _, relations, -, -, -, hinsert, rfl⟩ := createRelation_eq_ok.mp hcreated
  have hdone : done ⊆ done ++ [.relation oldId row] := List.subset_append_left _ _
  constructor
  case versions =>
    exact h.versions.frame hdone (by simp) (lastDefinition_relation done oldId row) rfl hnames
  case entities => exact h.entities.frame hdone (by simp) (Extends.refl _) rfl rfl hids
  case relations =>
    constructor
    case copied =>
      intro l read hread
      rw [hids]
      rcases List.mem_append.mp hread with hread | hread
      · obtain ⟨m, copy, hcopy, hsame⟩ := h.relations.copied l read hread
        exact ⟨m, copy, Table.get?_insert_of_some hinsert hcopy, hsame⟩
      · cases List.mem_singleton.mp hread
        exact ⟨id, _, (Table.get?_insert hinsert id).trans (if_pos rfl), source, target, hsource,
          htarget, rfl⟩
    case back =>
      intro m copy hcopy
      rw [hids]
      rw [Table.get?_insert hinsert m] at hcopy
      split_ifs at hcopy
      · cases hcopy
        exact ⟨oldId, row, List.mem_append_right _ List.mem_cons_self, source, target, hsource,
          htarget, rfl⟩
      · obtain ⟨l, read, hread, hsame⟩ := h.relations.back m copy hcopy
        exact ⟨l, read, hdone hread, hsame⟩

/-- **What a line adds.** -/
theorem Mirror.step (h : Mirror done w p) {x : ExportRow} (hready : Ready done x)
    {r : WorkspaceState × ImportProgress}
    (himport : importRecord cx args w p id stamp x.record = .ok r) :
    Mirror (done ++ [x]) r.1 r.2 := by
  cases x with
  | schema oldId row =>
      obtain ⟨created, hcreated, himport⟩ := Except.bind_eq_ok.mp himport
      cases himport
      exact h.schema hready hcreated rfl rfl
  | entity oldId row =>
      obtain ⟨hnew, version, hversion⟩ := hready
      obtain ⟨resolved, hresolved, himport⟩ := Except.bind_eq_ok.mp himport
      obtain ⟨w', hcreated, himport⟩ := Except.bind_eq_ok.mp himport
      cases himport
      unfold resolveSchemaName at hresolved
      rw [h.versions.names _ version hversion] at hresolved
      cases hresolved
      exact h.entity hnew hversion rfl rfl rfl hcreated rfl rfl
  | relation oldId row =>
      obtain ⟨hnew, ⟨source, hsource⟩, target, htarget⟩ := hready
      obtain ⟨w', hcreated, himport⟩ := Except.bind_eq_ok.mp himport
      cases himport
      obtain ⟨l, -, hl, -⟩ := h.entities.copied _ source hsource
      obtain ⟨m, -, hm, -⟩ := h.entities.copied _ target htarget
      rw [hl, hm] at hcreated
      exact h.relation hl hm hcreated rfl rfl

end Line

/-! ## The whole import -/

section Import

variable {cx : Context} {args : ImportArgs} {given : Nat → Uuid × Stamp}

/-- **What an import is of the lines it has read.** -/
theorem Mirror.foldlM {done rows : List ExportRow} {state r : WorkspaceState × ImportProgress}
    (h : Mirror done state.1 state.2)
    (hready : ∀ read x rest, rows = read ++ x :: rest → Ready (done ++ read) x) {n : Nat}
    (himport : ((rows.map fun row => ImportLine.record row.record).zipIdx n).foldlM
      (importLine cx args given) state = .ok r) : Mirror (done ++ rows) r.1 r.2 := by
  induction rows generalizing done state n with
  | nil =>
      cases himport
      rw [List.append_nil]
      exact h
  | cons x rows ih =>
      rw [List.map_cons, List.zipIdx_cons, List.foldlM_cons] at himport
      obtain ⟨state', hline, himport⟩ := Except.bind_eq_ok.mp himport
      have hx := hready [] x rows rfl
      rw [List.append_nil] at hx
      have h' := h.step hx (Except.mapError_eq_ok hline)
      rw [List.append_cons]
      refine ih h' (fun read y rest hrows => ?_) himport
      rw [List.append_assoc]
      exact hready (x :: read) y rest (by rw [hrows, List.cons_append])

/-- **The workspace after the import of an export mirrors the export.** -/
theorem mirror_importText {κ : Type} [LinearOrder κ] {w : Wire κ}
    (hcollate : Function.Injective w.collate) {s : WorkspaceState} (hclosed : Closed s)
    (hreads : w.ReadsBack (exportRows w s)) {text : String} (hexport : exportJsonl w s = .ok text)
    {d : WorkspaceState} (hblank : Blank d) {r : WorkspaceState × ImportProgress}
    (himport : importText w cx args given d text = .ok r) :
    Mirror (exportRows w s) r.1 r.2 := by
  rw [importText_export hcollate hreads hexport] at himport
  have hready : ∀ read x rest, exportRows w s = read ++ x :: rest → Ready ([] ++ read) x :=
    fun _ _ _ hrows => ready_exportRows hclosed hrows
  have hmirror := (mirror_start hblank).foldlM hready himport
  rw [List.nil_append] at hmirror
  exact hmirror

end Import

end Yorishiro.Transfer
