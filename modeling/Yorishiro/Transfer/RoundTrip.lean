import Mathlib.Algebra.Order.BigOperators.Group.List
import Mathlib.Data.Set.Function
import Yorishiro.Transfer.GraphRuns
import Yorishiro.Transfer.Mirror

/-!
# Reproducing a graph

The import of an export goes through, if the workspace is settled (`Settled`): each name has one
version, an active one, and all relations are active. What was valid when it was stored is valid
for the version that the import re-creates, and new identifiers stand for the old ones. The
workspace it makes is the old one up to identifiers (`Reproduces`), which is the result
(`import_reproduces`).
-/

set_option autoImplicit false

namespace Yorishiro.Transfer

open Yorishiro.Lib Yorishiro.Lib.JsonSchema Yorishiro.Metaschema Yorishiro.Entity
open Yorishiro.Lib.Transition Yorishiro.Inference
open Yorishiro.Schema hiding deleteFork

/-! ## Identifiers for an import -/

/-- The workspace has no limit on entities, and what line `n` and those after it are given, up to
the last line, is not taken. -/
structure Accepting (given : Nat → Uuid × Stamp) (last n : Nat) (w : WorkspaceState) : Prop where
  unlimited : w.store.tables.workspace.maxEntities = none
  schemas : ∀ m, n ≤ m → m ≤ last → w.store.tables.schemas.get? (given m).1 = none
  issued : ∀ m, n ≤ m → m ≤ last → (given m).1 ∉ w.issued
  relations : ∀ m, n ≤ m → m ≤ last → w.relations.get? (given m).1 = none

theorem Blank.accepting {d : WorkspaceState} (h : Blank d)
    (hunlimited : d.store.tables.workspace.maxEntities = none) {given : Nat → Uuid × Stamp}
    {last : Nat} (hnew : ∀ n ≤ last, (given n).1 ∉ d.issued) (n : Nat) : Accepting given last n d :=
  ⟨hunlimited, fun _ _ _ => h.schemas _, fun m _ => hnew m, fun _ _ _ => h.relations _⟩

/-- A line takes its own identifier. -/
theorem Accepting.step {cx : Context} {args : ImportArgs} {given : Nat → Uuid × Stamp}
    {last n : Nat} {w : WorkspaceState} {p : ImportProgress} (h : Accepting given last n w)
    (hgiven : Set.InjOn (fun m => (given m).1) (Set.Iic last)) (hn : n ≤ last) {stamp : Stamp}
    {record : ExportRecord} {r : WorkspaceState × ImportProgress}
    (himport : importRecord cx args w p (given n).1 stamp record = .ok r) :
    Accepting given last (n + 1) r.1 := by
  have hne : ∀ m, n + 1 ≤ m → m ≤ last → (given m).1 ≠ (given n).1 := by
    intro m hm hlast heq
    have hsame : m = n := hgiven hlast hn heq
    omega
  cases record with
  | schema oldId definition =>
      obtain ⟨created, hcreated, himport⟩ := Except.bind_eq_ok.mp himport
      cases himport
      obtain ⟨hinserted, hworkspace, -⟩ := createSchema_eq_ok hcreated
      refine ⟨?_, fun m hm hlast => ?_, fun m hm => h.issued m (Nat.le_of_succ_le hm),
        fun m hm => h.relations m (Nat.le_of_succ_le hm)⟩
      · exact (congrArg Workspace.maxEntities hworkspace).trans h.unlimited
      · refine (hinserted.get?_eq _).trans ?_
        rw [if_neg (hne m hm hlast), h.schemas m (Nat.le_of_succ_le hm) hlast]
        rfl
  | entity oldId schemaId entityType data =>
      obtain ⟨resolved, -, himport⟩ := Except.bind_eq_ok.mp himport
      obtain ⟨w', hcreated, himport⟩ := Except.bind_eq_ok.mp himport
      cases himport
      obtain ⟨schema, -, -, rfl⟩ := createWithQuota_eq_ok.mp hcreated
      refine ⟨h.unlimited, fun m hm => h.schemas m (Nat.le_of_succ_le hm), fun m hm hlast => ?_,
        fun m hm => h.relations m (Nat.le_of_succ_le hm)⟩
      exact List.not_mem_cons_of_ne_of_not_mem (hne m hm hlast)
        (h.issued m (Nat.le_of_succ_le hm) hlast)
  | relation sourceId targetId relationType properties =>
      obtain ⟨w', hcreated, himport⟩ := Except.bind_eq_ok.mp himport
      cases himport
      obtain ⟨_, _, relations, -, -, -, hinsert, rfl⟩ := createRelation_eq_ok.mp hcreated
      refine ⟨h.unlimited, fun m hm => h.schemas m (Nat.le_of_succ_le hm),
        fun m hm => h.issued m (Nat.le_of_succ_le hm), fun m hm hlast => ?_⟩
      refine (Table.get?_insert hinsert _).trans ?_
      rw [if_neg (hne m hm hlast), h.relations m (Nat.le_of_succ_le hm) hlast]

/-! ## Every line goes through -/

/-- With a line for the name, there is a last one. -/
theorem lastDefinition_total {done : List ExportRow} {id : Uuid} {row : SchemaRecord}
    (h : .schema id row ∈ done) :
    ∃ definition, lastDefinition done row.definition.name = some definition := by
  have hmem : row.definition ∈ done.filterMap (ExportRow.definitionOf row.definition.name) :=
    List.mem_filterMap.mpr ⟨_, h, if_pos rfl⟩
  exact ⟨_, List.getLast?_eq_some_getLast (List.ne_nil_of_mem hmem)⟩

theorem Coherent.closed {cx : Context} {kinds : Kinds} {s : WorkspaceState}
    {readings : List InferReading} (h : Coherent cx kinds s readings) : Closed s where
  versions := by
    intro k row hrow
    obtain ⟨⟨version, hversion, -⟩, -⟩ := h.entities.rows k row hrow
    exact ⟨version, hversion⟩
  ends := by
    intro l relation hrelation
    obtain ⟨source, target, hrelated⟩ := h.relations l relation hrelation
    exact ⟨⟨source, hrelated.hsource⟩, target, hrelated.htarget⟩

/-- What is kept says nothing about which workspace it is. -/
theorem Coherent.into {cx : Context} {kinds : Kinds} {s : WorkspaceState}
    {readings : List InferReading} (h : Coherent cx kinds s readings) (workspaceId : Uuid) :
    Coherent { cx with workspaceId := workspaceId } kinds s readings where
  issued := h.issued
  versions := ⟨h.versions.named, h.versions.valid, h.versions.oneActive⟩
  entities := h.entities
  relations := h.relations
  readings := h.readings

section Total

variable {κ : Type} [LinearOrder κ] {w : Wire κ} {cx : Context} {kinds : Kinds}
  {readings : List InferReading} {s d : WorkspaceState} {done : List ExportRow}
  {p : ImportProgress} {args : ImportArgs} {id : Uuid} {stamp : Stamp}

/-- Of the lines read, one is for a name. -/
theorem Coherent.version_eq (h : Coherent cx kinds s readings) (hsettled : Settled s)
    (hdone : done ⊆ exportRows w s) {a b : Uuid} {x y : SchemaRecord} (ha : .schema a x ∈ done)
    (hb : .schema b y ∈ done) (hname : x.definition.name = y.definition.name) : a = b ∧ x = y := by
  have hx := schema_mem_exportRows.mp (hdone ha)
  have hy := schema_mem_exportRows.mp (hdone hb)
  obtain rfl := hsettled.single a b x y hx hy
    (((h.versions.named a x hx).trans hname).trans (h.versions.named b y hy).symm)
  exact ⟨rfl, Option.some.inj (hx.symm.trans hy)⟩

/-- A stored version has the definition of the line for its name. -/
theorem Mirror.definition_eq (hmirror : Mirror done d p) (h : Coherent cx kinds s readings)
    (hsettled : Settled s) (hdone : done ⊆ exportRows w s) {a b : Uuid} {x y : SchemaRecord}
    (ha : d.store.tables.schemas.get? a = some x) (hb : .schema b y ∈ done)
    (hname : x.name = y.definition.name) : x.definition = y.definition := by
  obtain ⟨hnamed, old, row, hrow, hdefinition⟩ := hmirror.versions.back a x ha
  rw [← hdefinition] at hnamed
  obtain ⟨-, rfl⟩ := h.version_eq hsettled hdone hrow hb (hnamed.symm.trans hname)
  exact hdefinition.symm

/-- The version of a schema line is the first of its name. -/
theorem Mirror.schema_total (hmirror : Mirror done d p) (h : Coherent cx kinds s readings)
    (hsettled : Settled s) (hdone : done ⊆ exportRows w s) {oldId : Uuid} {row : SchemaRecord}
    (hready : Ready done (.schema oldId row))
    (hrow : s.store.tables.schemas.get? oldId = some row)
    (hfree : d.store.tables.schemas.get? id = none) :
    ∃ r, importRecord cx args d p id stamp (ExportRow.schema oldId row).record = .ok r := by
  refine exists_bind ?_ fun created _ => ⟨_, rfl⟩
  refine createSchema_total _ _ _ _ (h.versions.valid oldId row hrow) hfree ?_ _ _
  intro l version hversion hname
  -- a version of the name would come from another line
  obtain ⟨hnamed, old, read, hread, hdefinition⟩ := hmirror.versions.back l version hversion
  have hstored := schema_mem_exportRows.mp (hdone hread)
  have hsame : read.name = row.name := by
    rw [h.versions.named old read hstored, h.versions.named oldId row hrow, hdefinition, ← hnamed,
      hname]
  obtain rfl := hsettled.single old oldId read row hstored hrow hsame
  exact absurd hread (hready read)

/-- The data of an entity line is valid for the version of its name. -/
theorem Mirror.entity_total (hmirror : Mirror done d p) (h : Coherent cx kinds s readings)
    (hsettled : Settled s) (hdone : done ⊆ exportRows w s) {oldId : Uuid} {row : EntityRow}
    (hready : Ready done (.entity oldId row)) (hrow : s.store.rows.get? oldId = some row)
    (hquota : args.entityQuota = none)
    (hunlimited : d.store.tables.workspace.maxEntities = none) (hfree : id ∉ d.issued) :
    ∃ r, importRecord cx args d p id stamp (ExportRow.entity oldId row).record = .ok r := by
  obtain ⟨-, version, hversion⟩ := hready
  obtain ⟨stored, hvalid⟩ := h.entityValid hsettled hrow
  obtain rfl : stored = version := by
    have hget := schema_mem_exportRows.mp (hdone hversion)
    exact Option.some.inj (hvalid.stored.symm.trans hget)
  have hresolve : resolveSchemaName d.store.tables.schemas p row.schemaId =
      .ok (stored.definition.name, p.schemaNameById) := by
    unfold resolveSchemaName
    rw [hmirror.versions.names _ stored hversion]
  -- the active version of the name has the definition of the line
  obtain ⟨definition, hlast⟩ := lastDefinition_total hversion
  obtain ⟨l, new, hnew, hname, hactive, -⟩ := (hmirror.versions.active _ _).mpr hlast
  obtain ⟨active, hfound⟩ := getActiveSchema_total hnew hactive
  rw [hname] at hfound
  obtain ⟨hget, hactiveName, -⟩ := getActiveSchema_eq_ok hfound
  have hdefinition := hmirror.definition_eq h hsettled hdone hget hversion hactiveName
  obtain ⟨t, htype, hdata⟩ := hvalid.valid
  have hcheck : checkCreate cx d.store
      { schemaName := stored.definition.name, entityType := row.entityType, data := row.data }
      args.entityQuota = .ok active := by
    refine checkCreate_eq_ok.mpr ⟨?_, hmirror.versions.pending _ _ hversion, hfound, t, ?_, hdata⟩
    · unfold checkEntityQuota
      rw [hquota, hunlimited]
      rfl
    · rw [hdefinition]
      exact htype
  refine exists_bind ⟨_, hresolve⟩ fun resolved hresolved => ?_
  rw [hresolve] at hresolved
  cases hresolved
  exact exists_bind ⟨_, createWithQuota_eq_ok.mpr ⟨active, hcheck, hfree, rfl⟩⟩
    fun w' _ => ⟨_, rfl⟩

/-- The type of a relation line is defined by the version of its source, and no relation has the
same ends and type. -/
theorem Mirror.relation_total (hmirror : Mirror done d p) (h : Coherent cx kinds s readings)
    (hsettled : Settled s) (hdone : done ⊆ exportRows w s) {oldId : Uuid} {row : RelationRecord}
    (hready : Ready done (.relation oldId row)) (hrow : s.relations.get? oldId = some row)
    (hfree : d.relations.get? id = none) :
    ∃ r, importRecord cx args d p id stamp (ExportRow.relation oldId row).record = .ok r := by
  obtain ⟨hnew, ⟨source, hsource⟩, target, htarget⟩ := hready
  obtain ⟨source', target', hvalid⟩ := h.relationValid hsettled hrow
  obtain rfl : source' = source := Option.some.inj
    (hvalid.hsource.symm.trans (entity_mem_exportRows.mp (hdone hsource)))
  obtain rfl : target' = target := Option.some.inj
    (hvalid.htarget.symm.trans (entity_mem_exportRows.mp (hdone htarget)))
  obtain ⟨l, copy, hl, hcopy, hsame⟩ := hmirror.entities.copied _ source' hsource
  obtain ⟨m, copy', hm, hcopy', hsame'⟩ := hmirror.entities.copied _ target' htarget
  have htyped : validateRelationType d.store copy copy' row.relationType = .ok () := by
    obtain ⟨version, definition, hversion, hdefinition, hends⟩ :=
      validateRelationType_eq_ok.mp hvalid.typed
    obtain ⟨old, new, hold, hstored, hname⟩ := hsame.version
    obtain rfl : version = old := Option.some.inj
      (hversion.symm.trans (schema_mem_exportRows.mp (hdone hold)))
    have hread := hmirror.definition_eq h hsettled hdone hstored hold hname
    refine validateRelationType_eq_ok.mpr ⟨new, definition, hstored, ?_, ?_⟩
    · rw [hread]
      exact hdefinition
    · rw [hsame.type, hsame'.type]
      exact hends
  have hsymm : ∀ a b, RelationRecord.clash a b = RelationRecord.clash b a :=
    fun a b => by simp [RelationRecord.clash, eq_comm]
  obtain ⟨relations, hinsert⟩ : ∃ relations,
      d.relations.insert id (createdRelation l m row.relationType row.properties) = .ok relations := by
    refine Table.insert_total hsymm hfree fun k other hother => ?_
    rw [Bool.eq_false_iff]
    intro hclash
    -- the relation it is a copy of would clash with this one
    obtain ⟨old, read, hread, sourceId, targetId, hsourceId, htargetId, rfl⟩ :=
      hmirror.relations.back k other hother
    simp only [RelationRecord.clash, createdRelation, Bool.and_eq_true] at hclash
    obtain ⟨⟨hsourceClash, htargetClash⟩, htypeClash⟩ := hclash
    obtain rfl : l = sourceId := of_decide_eq_true hsourceClash
    obtain rfl : m = targetId := of_decide_eq_true htargetClash
    have htype := of_decide_eq_true htypeClash
    have hsourceEq := hmirror.entities.injective _ _ _ hl hsourceId
    have htargetEq := hmirror.entities.injective _ _ _ hm htargetId
    have hne : oldId ≠ old := by
      rintro rfl
      exact hnew read hread
    have hunique := Table.clash_eq_false hsymm hne hrow
      (relation_mem_exportRows.mp (hdone hread))
    simp [RelationRecord.clash, hsourceEq, htargetEq, htype] at hunique
  refine exists_bind ⟨{ d with relations := relations }, ?_⟩ fun w' _ => ⟨_, rfl⟩
  rw [hl, hm]
  exact createRelation_eq_ok.mpr ⟨copy, copy', relations, hcopy, hcopy', htyped, hinsert, rfl⟩

/-- **Every line goes through.** -/
theorem Mirror.total (hmirror : Mirror done d p) (h : Coherent cx kinds s readings)
    (hsettled : Settled s) (hdone : done ⊆ exportRows w s) {x : ExportRow} (hready : Ready done x)
    (hx : x ∈ exportRows w s) (hquota : args.entityQuota = none) {given : Nat → Uuid × Stamp}
    {last n : Nat} (haccepting : Accepting given last n d) (hn : n ≤ last) :
    ∃ r, importRecord cx args d p (given n).1 stamp x.record = .ok r := by
  cases x with
  | schema oldId row =>
      exact hmirror.schema_total h hsettled hdone hready (schema_mem_exportRows.mp hx)
        (haccepting.schemas n le_rfl hn)
  | entity oldId row =>
      exact hmirror.entity_total h hsettled hdone hready (entity_mem_exportRows.mp hx) hquota
        haccepting.unlimited (haccepting.issued n le_rfl hn)
  | relation oldId row =>
      exact hmirror.relation_total h hsettled hdone hready (relation_mem_exportRows.mp hx)
        (haccepting.relations n le_rfl hn)

theorem Mirror.foldlM_total (hmirror : Mirror done d p) (h : Coherent cx kinds s readings)
    (hsettled : Settled s) {rows : List ExportRow} (hrows : exportRows w s = done ++ rows)
    (hquota : args.entityQuota = none) {given : Nat → Uuid × Stamp}
    {last : Nat} (hgiven : Set.InjOn (fun m => (given m).1) (Set.Iic last)) {n : Nat}
    (hlast : n + rows.length = last + 1) (haccepting : Accepting given last n d) :
    ∃ r, ((rows.map fun row => ImportLine.record row.record).zipIdx n).foldlM
      (importLine cx args given) (d, p) = .ok r := by
  induction rows generalizing done d p n with
  | nil => exact ⟨(d, p), rfl⟩
  | cons x rows ih =>
      have hdone : done ⊆ exportRows w s := by
        rw [hrows]
        exact List.subset_append_left _ _
      have hx : x ∈ exportRows w s := by
        rw [hrows]
        exact List.mem_append_right _ List.mem_cons_self
      have hready := ready_exportRows h.closed hrows
      rw [List.length_cons] at hlast
      have hn : n ≤ last := by omega
      obtain ⟨next, himport⟩ := hmirror.total h hsettled hdone hready hx hquota haccepting hn
      have hline : importLine cx args given (d, p) (ImportLine.record x.record, n) = .ok next :=
        (congrArg (Except.mapError (annotateLine n)) himport).trans rfl
      rw [List.map_cons, List.zipIdx_cons, List.foldlM_cons, hline]
      refine ih (hmirror.step hready himport) ?_ ?_ (haccepting.step hgiven hn himport)
      · rw [hrows, List.append_cons]
      · omega

end Total

/-! ## The same graph -/

/-- The same type and data, on versions of the same name. -/
structure SameEntity (a b : Schemas) (row copy : EntityRow) : Prop where
  type : copy.entityType = row.entityType
  data : copy.data = row.data
  schemaName : ∃ old new, a.get? row.schemaId = some old ∧ b.get? copy.schemaId = some new ∧
    new.name = old.name

def entityIds (s : WorkspaceState) : Set Uuid := {k | ∃ row, s.store.rows.get? k = some row}

def relationIds (s : WorkspaceState) : Set Uuid := {l | ∃ row, s.relations.get? l = some row}

/-- Up to identifiers, `d` has the entities and relations of `s`: `f` takes the entities of the one
to those of the other, and `g` the relations. -/
structure Reproduces (f g : Uuid → Uuid) (s d : WorkspaceState) : Prop where
  entities : Set.BijOn f (entityIds s) (entityIds d)
  copies : ∀ k row, s.store.rows.get? k = some row → ∃ copy, d.store.rows.get? (f k) = some copy ∧
    SameEntity s.store.tables.schemas d.store.tables.schemas row copy
  relations : Set.BijOn g (relationIds s) (relationIds d)
  links : ∀ l relation, s.relations.get? l = some relation → d.relations.get? (g l) =
    some { relation with sourceId := f relation.sourceId, targetId := f relation.targetId }

/-- The identifier that the import has given for an old one. -/
def newId (p : ImportProgress) (k : Uuid) : Uuid := (p.entityIdMap.get? k).getD k

theorem newId_eq {p : ImportProgress} {k l : Uuid} (h : p.entityIdMap.get? k = some l) :
    newId p k = l := by
  unfold newId
  rw [h]
  rfl

section Same

variable {κ : Type} [LinearOrder κ] {w : Wire κ} {cx : Context} {kinds : Kinds}
  {readings : List InferReading} {s d : WorkspaceState} {p : ImportProgress}

theorem Mirror.mapsTo_newId (h : Mirror (exportRows w s) d p) :
    Set.MapsTo (newId p) (entityIds s) (entityIds d) := by
  rintro k ⟨row, hrow⟩
  obtain ⟨l, copy, hl, hcopy, -⟩ := h.entities.copied k row (entity_mem_exportRows.mpr hrow)
  rw [newId_eq hl]
  exact ⟨copy, hcopy⟩

theorem Mirror.injOn_newId (h : Mirror (exportRows w s) d p) :
    Set.InjOn (newId p) (entityIds s) := by
  have hmapped : ∀ k ∈ entityIds s, p.entityIdMap.get? k = some (newId p k) := by
    rintro k ⟨row, hrow⟩
    obtain ⟨l, -, hl, -⟩ := h.entities.copied k row (entity_mem_exportRows.mpr hrow)
    rw [newId_eq hl, hl]
  intro j hj k hk heq
  have hsame := hmapped j hj
  rw [heq] at hsame
  exact h.entities.injective j k _ hsame (hmapped k hk)

theorem Mirror.surjOn_newId (h : Mirror (exportRows w s) d p) :
    Set.SurjOn (newId p) (entityIds s) (entityIds d) := by
  rintro l ⟨copy, hcopy⟩
  obtain ⟨k, hk⟩ := h.entities.back l copy hcopy
  obtain ⟨-, row, hrow⟩ := h.entities.read k l hk
  exact ⟨k, ⟨row, entity_mem_exportRows.mp hrow⟩, newId_eq hk⟩

theorem Mirror.sameEntity (h : Mirror (exportRows w s) d p) (hs : Coherent cx kinds s readings)
    {k : Uuid} {row : EntityRow} (hrow : s.store.rows.get? k = some row) :
    ∃ copy, d.store.rows.get? (newId p k) = some copy ∧
      SameEntity s.store.tables.schemas d.store.tables.schemas row copy := by
  obtain ⟨l, copy, hl, hcopy, hsame⟩ := h.entities.copied k row (entity_mem_exportRows.mpr hrow)
  obtain ⟨old, new, hold, hnew, hname⟩ := hsame.version
  have hstored := schema_mem_exportRows.mp hold
  rw [newId_eq hl]
  exact ⟨copy, hcopy, hsame.type, hsame.data, old, new, hstored, hnew,
    hname.trans (hs.versions.named _ old hstored).symm⟩

/-- The copy of an active relation is the relation between the new ends. -/
theorem RelationCopy.eq {relation copy : RelationRecord}
    (h : RelationCopy p.entityIdMap relation copy) (hproperties : relation.properties ≠ .null)
    (hactive : relation.status = .active) :
    copy = { relation with
      sourceId := newId p relation.sourceId
      targetId := newId p relation.targetId } := by
  obtain ⟨source, target, hsource, htarget, rfl⟩ := h
  rw [newId_eq hsource, newId_eq htarget, hactive]
  unfold createdRelation
  rw [if_neg hproperties]

/-- **A mirror of all lines is the same graph.** -/
theorem Mirror.reproduces (h : Mirror (exportRows w s) d p) (hs : Coherent cx kinds s readings)
    (hsettled : Settled s) : ∃ f g, Reproduces f g s d := by
  -- the copy of a relation
  have hcopied : ∀ l, ∃ m, ∀ relation, s.relations.get? l = some relation →
      d.relations.get? m = some { relation with
        sourceId := newId p relation.sourceId
        targetId := newId p relation.targetId } := by
    intro l
    cases hrelation : s.relations.get? l with
    | none => exact ⟨l, fun _ hsome => by cases hsome⟩
    | some relation =>
        obtain ⟨m, copy, hcopy, hsame⟩ :=
          h.relations.copied l relation (relation_mem_exportRows.mpr hrelation)
        obtain ⟨_, _, hrelated⟩ := hs.relations l relation hrelation
        rw [hsame.eq hrelated.properties (hsettled.relations l relation hrelation)] at hcopy
        refine ⟨m, fun other hother => ?_⟩
        cases hother
        exact hcopy
  choose g hlinks using hcopied
  have hsymm : ∀ a b, RelationRecord.clash a b = RelationRecord.clash b a :=
    fun a b => by simp [RelationRecord.clash, eq_comm]
  refine ⟨newId p, g, ⟨h.mapsTo_newId, h.injOn_newId, h.surjOn_newId⟩,
    fun k row hrow => h.sameEntity hs hrow, ⟨?_, ?_, ?_⟩, hlinks⟩
  case refine_1 =>
    rintro l ⟨relation, hrelation⟩
    exact ⟨_, hlinks l relation hrelation⟩
  case refine_2 =>
    rintro l ⟨a, ha⟩ m ⟨b, hb⟩ heq
    have hcopy := hlinks l a ha
    rw [heq, hlinks m b hb] at hcopy
    obtain ⟨hsource, htarget, htype, -, -⟩ := RelationRecord.mk.inj (Option.some.inj hcopy)
    obtain ⟨source, target, hrelated⟩ := hs.relations l a ha
    obtain ⟨source', target', hrelated'⟩ := hs.relations m b hb
    have hsourceEq : b.sourceId = a.sourceId :=
      h.injOn_newId ⟨source', hrelated'.hsource⟩ ⟨source, hrelated.hsource⟩ hsource
    have htargetEq : b.targetId = a.targetId :=
      h.injOn_newId ⟨target', hrelated'.htarget⟩ ⟨target, hrelated.htarget⟩ htarget
    by_contra hne
    have hunique := Table.clash_eq_false hsymm hne ha hb
    simp [RelationRecord.clash, hsourceEq, htargetEq, htype] at hunique
  case refine_3 =>
    rintro m ⟨copy, hcopy⟩
    obtain ⟨l, relation, hread, hsame⟩ := h.relations.back m copy hcopy
    have hrelation := relation_mem_exportRows.mp hread
    obtain ⟨_, _, hrelated⟩ := hs.relations l relation hrelation
    rw [hsame.eq hrelated.properties (hsettled.relations l relation hrelation)] at hcopy
    refine ⟨l, ⟨relation, hrelation⟩, ?_⟩
    -- two relations between the same ends would clash
    by_contra hne
    have hunique := Table.clash_eq_false hsymm hne (hlinks l relation hrelation) hcopy
    simp [RelationRecord.clash] at hunique

end Same

/-- **An import reproduces the graph.** -/
theorem import_reproduces {κ : Type} [LinearOrder κ] {w : Wire κ}
    (hcollate : Function.Injective w.collate) (cx : Context) (backend : Backend)
    (maxEntities : Option Int) (ops : List GraphOp) {s : WorkspaceState}
    (hs : s = (run (GraphOp.step cx backend) (.empty maxEntities) ops).workspace)
    (hsettled : Settled s) {text : String} (hexport : exportJsonl w s = .ok text)
    (hreads : w.ReadsBack (exportRows w s)) (into : Uuid) {d : WorkspaceState} (hblank : Blank d)
    (hunlimited : d.store.tables.workspace.maxEntities = none) {args : ImportArgs}
    (hquota : args.entityQuota = none) {given : Nat → Uuid × Stamp}
    (hgiven : Set.InjOn (fun n => (given n).1) (Set.Iic (exportRows w s).length))
    (hnew : ∀ n ≤ (exportRows w s).length, (given n).1 ∉ d.issued) :
    ∃ r, importText w { cx with workspaceId := into } args given d text = .ok r ∧
      ∃ f g, Reproduces f g s r.1 := by
  obtain ⟨kinds, hcoherent⟩ := coherent_run cx backend maxEntities ops
  rw [← hs] at hcoherent
  obtain ⟨r, himport⟩ := (mirror_start hblank).foldlM_total (hcoherent.into into) hsettled
    (List.nil_append (exportRows w s)).symm hquota hgiven (Nat.add_comm 1 _)
    (hblank.accepting hunlimited hnew 1)
  have hdone : importText w { cx with workspaceId := into } args given d text = .ok r := by
    rw [importText_export hcollate hreads hexport]
    exact himport
  exact ⟨r, hdone,
    (mirror_importText hcollate hcoherent.closed hreads hexport hblank hdone).reproduces hcoherent
      hsettled⟩

/-! ## A small graph -/

/-- Persons, who may know each other. -/
def acquaintances : MetaSchemaDefinition where
  name := "people"
  description := none
  entityTypes :=
    OrderedMap.ofList [("person", { description := none, fields := OrderedMap.empty })]
  relationTypes :=
    OrderedMap.ofList [("knows", { source := "person", target := "person", description := none })]

/-- An operation on schemas and entities. -/
def plainOp (op : Op) (h : op.isPlain = true) : GraphOp := .review ⟨.plain ⟨op, h⟩, rfl⟩

/-- Two persons are created, and the first knows the second. -/
def acquaint : List GraphOp :=
  let person : CreateEntityInput :=
    { schemaName := "people", entityType := "person", data := .object [] }
  [ plainOp (.createSchema 0 acquaintances none none 1 8) rfl,
    plainOp (.create person none none 7 ⟨10, "first"⟩) rfl,
    plainOp (.create person none none 8 ⟨11, "second"⟩) rfl,
    .relate 7 8 "knows" .null 9 ]

/-- The workspace after the operations. -/
def graphAfter (ops : List GraphOp) : WorkspaceState :=
  (run (GraphOp.step peopleContext .postgres) (.empty none) ops).workspace

/-- A text in quotes; no name or id of the small graph has a character that is escaped. -/
def quoted (s : String) : List Char := '"' :: s.toList ++ ['"']

/-- An identifier in quotes, as `Uuid.toString` prints it. -/
def quotedId (id : Uuid) : List Char := '"' :: Uuid.hyphenate (Uuid.hexDigits 32 id.val) ++ ['"']

/-- A JSON object with the given members. -/
def objectOf (members : List (String × List Char)) : List Char :=
  '\x7b' :: ((members.map fun m => quoted m.1 ++ ':' :: m.2).intersperse [',']).flatten ++ ['\x7d']

/-- The text of a value that may be null. -/
def orNull (s : Option (List Char)) : List Char := s.getD "null".toList

/-- The text of a definition whose types have no fields. -/
def definitionText (d : MetaSchemaDefinition) : List Char :=
  objectOf
    [ ("name", quoted d.name), ("description", orNull (d.description.map quoted)),
      ("entity_types", objectOf (d.entityTypes.entries.map fun e => (e.1, objectOf
        [("description", orNull (e.2.description.map quoted)), ("fields", objectOf [])]))),
      ("relation_types", objectOf (d.relationTypes.entries.map fun e => (e.1, objectOf
        [ ("source", quoted e.2.source), ("target", quoted e.2.target),
          ("description", orNull (e.2.description.map quoted)) ]))) ]

def schemaStatusText : SchemaStatus → String
  | .active => "active"
  | .archived => "archived"

def relationStatusText : RelationStatus → String
  | .active => "active"
  | .deprecated => "deprecated"
  | .archived => "archived"

def ExportRow.kind : ExportRow → String
  | .schema _ _ => "schema"
  | .entity _ _ => "entity"
  | .relation _ _ => "relation"

/-- The members of a record of the small graph: its data are empty, nobody is named as the author,
nothing is linked to a template, and everything is of one time. -/
def ExportRow.members : ExportRow → List (String × List Char)
  | .schema id row =>
      [ ("id", quotedId id), ("tenant_id", quotedId row.tenantId),
        ("workspace_id", quotedId 0), ("name", quoted row.name),
        ("version", (toString row.version).toList), ("definition", definitionText row.definition),
        ("status", quoted (schemaStatusText row.status)), ("origin_template_id", orNull none),
        ("origin_status", quoted "detached"), ("origin_snapshot", orNull none),
        ("origin_updated_at", orNull none), ("created_at", quoted "1970-01-01T00:00:00Z") ]
  | .entity id row =>
      [ ("id", quotedId id), ("workspace_id", quotedId 0),
        ("schema_id", quotedId row.schemaId),
        ("schema_version", (toString row.schemaVersion).toList),
        ("entity_type", quoted row.entityType), ("data", objectOf []),
        ("created_at", quoted "1970-01-01T00:00:00Z"),
        ("updated_at", quoted "1970-01-01T00:00:00Z"), ("created_by", orNull none),
        ("updated_by", orNull none) ]
  | .relation id row =>
      [ ("id", quotedId id), ("workspace_id", quotedId 0),
        ("source_id", quotedId row.sourceId), ("target_id", quotedId row.targetId),
        ("relation_type", quoted row.relationType), ("properties", objectOf []),
        ("status", quoted (relationStatusText row.status)),
        ("created_at", quoted "1970-01-01T00:00:00Z") ]

/-- The characters of the line of a record. -/
def ExportRow.text (row : ExportRow) : List Char :=
  objectOf [("kind", quoted row.kind), ("record", objectOf row.members)]

/-- The line of a record. -/
def ExportRow.line (row : ExportRow) : String := String.ofList row.text

/-- The record of the row that a line was written for. -/
def readBy (rows : List ExportRow) (line : String) : Except String ExportRecord :=
  match rows.find? fun row => decide (row.text = line.toList) with
  | some row => .ok row.record
  | none => .error "expected value at line 1 column 1"

/-- Names in the order of their characters, and lines that are read by looking them up. -/
def linesOf (rows : List ExportRow) : Wire String where
  collate := fun name => name
  encode := ExportRow.line
  decode := readBy rows

/-- The lines of a workspace, in the order of the export. -/
def wireOf (s : WorkspaceState) : Wire String := linesOf (exportRows (linesOf []) s)

theorem readsBack_wireOf {s : WorkspaceState}
    (hdistinct : ((exportRows (linesOf []) s).map ExportRow.text).Nodup)
    (honeLine : ∀ row ∈ exportRows (linesOf []) s, '\n' ∉ row.text) :
    (wireOf s).ReadsBack (exportRows (wireOf s) s) := by
  have hrows : exportRows (wireOf s) s = exportRows (linesOf []) s := rfl
  rw [hrows]
  constructor
  case decode =>
    intro row hrow
    have hfound : (exportRows (linesOf []) s).find?
        (fun r => decide (r.text = row.line.toList)) = some row := by
      rw [ExportRow.line, String.toList_ofList]
      refine List.find?_eq_some_iff_append.mpr ⟨by simp, ?_⟩
      obtain ⟨before, after, hsplit⟩ := List.append_of_mem hrow
      refine ⟨before, after, hsplit, fun other hother => ?_⟩
      rw [hsplit, List.map_append, List.nodup_append] at hdistinct
      have hne := hdistinct.2.2 other.text (List.mem_map_of_mem hother) row.text List.mem_cons_self
      simpa using hne
    change readBy (exportRows (linesOf []) s) row.line = .ok row.record
    unfold readBy
    rw [hfound]
  case oneLine =>
    intro row hrow hmem
    change '\n' ∈ (String.ofList row.text).toList at hmem
    rw [String.toList_ofList] at hmem
    exact honeLine row hrow hmem
  case object => exact fun row _ => ⟨_, String.toList_ofList⟩

/-- The identifiers that a database gives out one after the other. -/
def consecutive (n : Nat) : Uuid × Stamp := (⟨n % 2 ^ 128, Uuid.mod_lt n⟩, ⟨20, "new"⟩)

/-- The document with the lines of a workspace. -/
def textOf (s : WorkspaceState) : String :=
  String.join ((exportRows (linesOf []) s).map fun row => row.line ++ "\n")

/-- A character takes at most four bytes. -/
theorem utf8ByteSize_ofList_le (cs : List Char) : (String.ofList cs).utf8ByteSize ≤ 4 * cs.length := by
  induction cs with
  | nil => exact Nat.le_refl 0
  | cons c cs ih =>
      rw [← List.singleton_append, String.ofList_append, String.utf8ByteSize_append,
        show String.ofList [c] = String.singleton c from rfl, String.utf8ByteSize_singleton,
        List.singleton_append, List.length_cons]
      have := c.utf8Size_le_four
      omega

/-- A workspace that is far from the limits is exported. -/
theorem exportJsonl_textOf {s : WorkspaceState}
    (hrecords : (exportRows (linesOf []) s).length ≤ maxExportRecords)
    (hbytes : ((exportRows (linesOf []) s).map fun row => 4 * row.text.length + 1).sum ≤
      maxExportBytes) : exportJsonl (wireOf s) s = .ok (textOf s) := by
  have hsum : ((exportRows (linesOf []) s).map fun row =>
      ((wireOf s).encode row).utf8ByteSize + 1).sum ≤ maxExportBytes := by
    refine le_trans (List.sum_le_sum fun row _ => ?_) hbytes
    exact Nat.add_le_add_right (utf8ByteSize_ofList_le row.text) 1
  have hempty : ExportBuffer.empty.text.utf8ByteSize = 0 := rfl
  rw [exportJsonl_eq (fun _ _ h => h)]
  change ((exportRows (linesOf []) s).foldlM (append (wireOf s)) .empty).map _ = _
  rw [foldlM_append_eq ((Nat.zero_add _).trans_le hrecords) (by rw [hempty, Nat.zero_add]; exact hsum)]
  exact congrArg Except.ok (String.empty_append (s := textOf s))

theorem settled_acquaint : Settled (graphAfter acquaint) := by
  have hone : ∀ e ∈ (graphAfter acquaint).store.tables.schemas.rows.entries,
      e.1 = 1 ∧ e.2.status = .active := by decide
  have hactive : ∀ e ∈ (graphAfter acquaint).relations.rows.entries, e.2.status = .active := by
    decide
  constructor
  · intro a b x y hx hy _
    have ha := (hone _ ((OrderedMap.mem_entries_iff _ _ _).mpr hx)).1
    exact ha.trans (hone _ ((OrderedMap.mem_entries_iff _ _ _).mpr hy)).1.symm
  · intro id row hrow
    exact (hone _ ((OrderedMap.mem_entries_iff _ _ _).mpr hrow)).2
  · intro id relation hrelation
    exact hactive _ ((OrderedMap.mem_entries_iff _ _ _).mpr hrelation)

/-- The lines of the small graph differ, and are far from the limit together. -/
theorem texts_acquaint :
    ((exportRows (linesOf []) (graphAfter acquaint)).map ExportRow.text).Nodup ∧
      (∀ row ∈ exportRows (linesOf []) (graphAfter acquaint), '\n' ∉ row.text) ∧
      ((exportRows (linesOf []) (graphAfter acquaint)).map fun row =>
        4 * row.text.length + 1).sum ≤ maxExportBytes := by
  set_option maxRecDepth 4096 in
  decide

theorem readsBack_acquaint :
    (wireOf (graphAfter acquaint)).ReadsBack
      (exportRows (wireOf (graphAfter acquaint)) (graphAfter acquaint)) :=
  readsBack_wireOf texts_acquaint.1 texts_acquaint.2.1

theorem consecutive_injOn {last : Nat} (hlast : last < 2 ^ 128) :
    Set.InjOn (fun n => (consecutive n).1) (Set.Iic last) := by
  intro m hm n hn heq
  have hval : m % 2 ^ 128 = n % 2 ^ 128 := congrArg Fin.val heq
  rw [Nat.mod_eq_of_lt (lt_of_le_of_lt hm hlast), Nat.mod_eq_of_lt (lt_of_le_of_lt hn hlast)]
    at hval
  exact hval

theorem blank_empty (maxEntities : Option Int) : Blank (.empty maxEntities) :=
  ⟨fun _ => rfl, fun _ => rfl, fun _ => rfl⟩

/-- The small graph, in another workspace. -/
theorem import_reproduces_acquaint :
    ∃ r, importText (wireOf (graphAfter acquaint)) { peopleContext with workspaceId := 1 }
        { tenantId := 2, importedBy := none, entityQuota := none } consecutive (.empty none)
        (textOf (graphAfter acquaint)) = .ok r ∧
      ∃ f g, Reproduces f g (graphAfter acquaint) r.1 := by
  have hlength : (exportRows (wireOf (graphAfter acquaint)) (graphAfter acquaint)).length = 4 := by
    decide
  have hexport := exportJsonl_textOf (s := graphAfter acquaint) (by decide)
    texts_acquaint.2.2
  refine import_reproduces (fun _ _ h => h) peopleContext .postgres none acquaint rfl
    settled_acquaint hexport readsBack_acquaint 1 (blank_empty none) rfl rfl
    (consecutive_injOn ?_) fun _ _ => List.not_mem_nil
  exact lt_of_eq_of_lt hlength (by decide)

end Yorishiro.Transfer
