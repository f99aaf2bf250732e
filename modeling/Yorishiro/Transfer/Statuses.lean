import Yorishiro.Transfer.RoundTrip

/-!
# Statuses across an import

An import re-creates what it reads, and a creation chooses the status itself: every relation is
active afterwards, and of each schema name the version that was read last, which in an export is
the highest. `import_statuses` is the result. So an archived relation does not stay archived, nor
does a name without an active version.
-/

set_option autoImplicit false

namespace Yorishiro.Transfer

open Yorishiro.Lib Yorishiro.Lib.Keyset Yorishiro.Lib.JsonSchema Yorishiro.Metaschema
open Yorishiro.Entity Yorishiro.Lib.Transition Yorishiro.Inference
open Yorishiro.Schema hiding deleteFork

/-! ## The highest version -/

/-- The highest version of the name has this definition. -/
def HighestDefinition (schemas : Schemas) (name : String) (definition : MetaSchemaDefinition) :
    Prop :=
  ∃ id row, schemas.get? id = some row ∧ row.name = name ∧ row.definition = definition ∧
    ∀ other row', schemas.get? other = some row' → row'.name = name → row'.version ≤ row.version

theorem HighestDefinition.unique {schemas : Schemas} {name : String}
    {a b : MetaSchemaDefinition} (ha : HighestDefinition schemas name a)
    (hb : HighestDefinition schemas name b) : a = b := by
  obtain ⟨id, row, hrow, hname, rfl, hhighest⟩ := ha
  obtain ⟨id', row', hrow', hname', rfl, hhighest'⟩ := hb
  have hversion : row.version = row'.version :=
    le_antisymm (hhighest' id row hrow hname) (hhighest id' row' hrow' hname')
  have hsymm : ∀ x y, SchemaRecord.clash x y = SchemaRecord.clash y x :=
    fun x y => by simp [SchemaRecord.clash, eq_comm]
  obtain rfl : id = id' := by
    by_contra hne
    have hunique := Table.clash_eq_false hsymm hne hrow hrow'
    simp [SchemaRecord.clash, hname, hname', hversion] at hunique
  rw [Option.some.inj (hrow.symm.trans hrow')]

section Highest

variable {κ : Type} [LinearOrder κ] {w : Wire κ} {s : WorkspaceState}

/-- The versions of a name, in the order of the export. -/
def versionsOf (w : Wire κ) (s : WorkspaceState) (name : String) : List (Uuid × SchemaRecord) :=
  (schemaRows w s).filter fun e => decide (e.2.definition.name = name)

theorem lastDefinition_exportRows (name : String) :
    lastDefinition (exportRows w s) name =
      ((versionsOf w s name).getLast?).map fun e => e.2.definition := by
  have hversions : ∀ es : List (Uuid × SchemaRecord),
      (es.map fun e => ExportRow.schema e.1 e.2).filterMap (ExportRow.definitionOf name) =
        (es.filter fun e => decide (e.2.definition.name = name)).map fun e => e.2.definition := by
    intro es
    induction es with
    | nil => rfl
    | cons e es ih =>
        by_cases hname : e.2.definition.name = name
        · simp [ExportRow.definitionOf, hname, ih]
        · simp [ExportRow.definitionOf, hname, ih]
  have hentities : ∀ es : List (Uuid × EntityRow),
      (es.map fun e => ExportRow.entity e.1 e.2).filterMap (ExportRow.definitionOf name) = [] := by
    intro es
    rw [List.filterMap_map]
    exact List.filterMap_eq_nil_iff.mpr fun _ _ => rfl
  have hrelations : ∀ es : List (Uuid × RelationRecord),
      (es.map fun e => ExportRow.relation e.1 e.2).filterMap (ExportRow.definitionOf name) =
        [] := by
    intro es
    rw [List.filterMap_map]
    exact List.filterMap_eq_nil_iff.mpr fun _ _ => rfl
  unfold lastDefinition exportRows versionsOf
  rw [List.filterMap_append, List.filterMap_append, hversions, hentities, hrelations,
    List.append_nil, List.append_nil, List.getLast?_map]

/-- Of the versions of a name, the one exported last is the highest. -/
theorem version_le_of_last {name : String}
    (hnamed : ∀ id row, s.store.tables.schemas.get? id = some row →
      row.name = row.definition.name) {e : Uuid × SchemaRecord}
    (he : (versionsOf w s name).getLast? = some e) {id : Uuid} {row : SchemaRecord}
    (hrow : s.store.tables.schemas.get? id = some row) (hname : row.name = name) :
    row.version ≤ e.2.version := by
  have hstored : ∀ d ∈ versionsOf w s name, d.2.name = name := by
    intro d hd
    obtain ⟨hd, hsame⟩ := List.mem_filter.mp hd
    have hget : s.store.tables.schemas.get? d.1 = some d.2 :=
      (OrderedMap.mem_entries_iff _ _ _).mp (mem_ordered.mp hd)
    exact (hnamed d.1 d.2 hget).trans (of_decide_eq_true hsame)
  have hmem : (id, row) ∈ versionsOf w s name := by
    refine List.mem_filter.mpr ⟨mem_ordered.mpr ((OrderedMap.mem_entries_iff _ _ _).mpr hrow), ?_⟩
    exact decide_eq_true ((hnamed id row hrow).symm.trans hname)
  have hsorted : (versionsOf w s name).Pairwise fun a b => versionKey w a ≤ versionKey w b :=
    (List.pairwise_insertionSort _ _).filter _
  obtain ⟨before, hbefore⟩ := List.getLast?_eq_some_iff.mp he
  have hlast := hstored e (hbefore ▸ List.mem_append_right _ List.mem_cons_self)
  rw [hbefore] at hmem hsorted
  rcases List.mem_append.mp hmem with hmem | hmem
  · have hle := (List.pairwise_append.mp hsorted).2.2 _ hmem e List.mem_cons_self
    unfold versionKey at hle
    rw [Prod.Lex.toLex_le_toLex, hlast] at hle
    dsimp only at hle
    rw [hname] at hle
    rcases hle with hlt | ⟨-, hle⟩
    · exact absurd hlt (lt_irrefl _)
    · exact hle
  · rw [← List.mem_singleton.mp hmem]

theorem lastDefinition_iff (hnamed : ∀ id row, s.store.tables.schemas.get? id = some row →
      row.name = row.definition.name) (name : String) (definition : MetaSchemaDefinition) :
    lastDefinition (exportRows w s) name = some definition ↔
      HighestDefinition s.store.tables.schemas name definition := by
  have hlast : ∀ d, lastDefinition (exportRows w s) name = some d →
      HighestDefinition s.store.tables.schemas name d := by
    intro d hd
    rw [lastDefinition_exportRows] at hd
    obtain ⟨e, he, rfl⟩ := Option.map_eq_some_iff.mp hd
    obtain ⟨hmem, hsame⟩ := List.mem_filter.mp (List.mem_of_getLast? he)
    have hget : s.store.tables.schemas.get? e.1 = some e.2 :=
      (OrderedMap.mem_entries_iff _ _ _).mp (mem_ordered.mp hmem)
    exact ⟨e.1, e.2, hget, (hnamed e.1 e.2 hget).trans (of_decide_eq_true hsame), rfl,
      fun _ _ hrow hname => version_le_of_last hnamed he hrow hname⟩
  refine ⟨hlast definition, fun h => ?_⟩
  have hhighest := h
  obtain ⟨id, row, hrow, hname, -, -⟩ := h
  have hread : ExportRow.schema id row ∈ exportRows w s := schema_mem_exportRows.mpr hrow
  obtain ⟨d, hd⟩ := lastDefinition_total hread
  rw [← hnamed id row hrow, hname] at hd
  rw [hd, (hlast d hd).unique hhighest]

end Highest

/-! ## What an import keeps -/

/-- `copy` is the relation between the new identifiers of the ends. -/
def SameLink (p : ImportProgress) (relation copy : RelationRecord) : Prop :=
  copy.sourceId = newId p relation.sourceId ∧ copy.targetId = newId p relation.targetId ∧
    copy.relationType = relation.relationType

/-- Archived relations are archived and active ones active. -/
def KeepsRelations (s d : WorkspaceState) (p : ImportProgress) : Prop :=
  ∀ l relation m copy, s.relations.get? l = some relation → d.relations.get? m = some copy →
    SameLink p relation copy →
    (relation.status = .archived → copy.status = .archived) ∧
      (relation.status = .active → copy.status = .active)

/-- The active definitions are the same. -/
def KeepsDefinitions (a b : Schemas) : Prop :=
  ∀ name definition, ActiveDefinition b name definition ↔ ActiveDefinition a name definition

/-- **The statuses that an import chooses.** Every relation comes back, as an active one, and of
each name the highest version is the active one. -/
theorem import_statuses {κ : Type} [LinearOrder κ] {w : Wire κ}
    (hcollate : Function.Injective w.collate) (cx : Context) (backend : Backend)
    (maxEntities : Option Int) (ops : List GraphOp) {s : WorkspaceState}
    (hs : s = (run (GraphOp.step cx backend) (.empty maxEntities) ops).workspace)
    {text : String} (hexport : exportJsonl w s = .ok text) (hreads : w.ReadsBack (exportRows w s))
    {cx' : Context} {args : ImportArgs} {given : Nat → Uuid × Stamp} {d : WorkspaceState}
    (hblank : Blank d) {r : WorkspaceState × ImportProgress}
    (himport : importText w cx' args given d text = .ok r) :
    (∀ l relation, s.relations.get? l = some relation → ∃ m copy,
        r.1.relations.get? m = some copy ∧ SameLink r.2 relation copy) ∧
      (∀ m copy, r.1.relations.get? m = some copy → copy.status = .active) ∧
      (∀ name definition, ActiveDefinition r.1.store.tables.schemas name definition ↔
        HighestDefinition s.store.tables.schemas name definition) ∧
      ∀ name, (∀ id row, s.store.tables.schemas.get? id = some row → row.name = name →
          ∃ other active, s.store.tables.schemas.get? other = some active ∧ active.name = name ∧
            active.status = .active ∧ row.version ≤ active.version) →
        ∀ definition, ActiveDefinition r.1.store.tables.schemas name definition ↔
          ActiveDefinition s.store.tables.schemas name definition := by
  obtain ⟨kinds, hcoherent⟩ := coherent_run cx backend maxEntities ops
  rw [← hs] at hcoherent
  have hmirror := mirror_importText hcollate hcoherent.closed hreads hexport hblank himport
  have hdefinitions : ∀ name definition,
      ActiveDefinition r.1.store.tables.schemas name definition ↔
        HighestDefinition s.store.tables.schemas name definition := by
    intro name definition
    rw [hmirror.versions.active, lastDefinition_iff hcoherent.versions.named]
  refine ⟨fun l relation hrelation => ?_, fun m copy hcopy => ?_, hdefinitions,
    fun name hhighest definition => ?_⟩
  · obtain ⟨m, copy, hcopy, source, target, hsource, htarget, rfl⟩ :=
      hmirror.relations.copied l relation (relation_mem_exportRows.mpr hrelation)
    exact ⟨m, _, hcopy, (newId_eq hsource).symm, (newId_eq htarget).symm, rfl⟩
  · obtain ⟨_, _, -, _, _, -, -, rfl⟩ := hmirror.relations.back m copy hcopy
    rfl
  -- the one active version of the name is not below any other
  · have hactive : ∀ id row, s.store.tables.schemas.get? id = some row → row.name = name →
        row.status = .active → ∀ other row', s.store.tables.schemas.get? other = some row' →
        row'.name = name → row'.version ≤ row.version := by
      intro id row hrow hname hstatus other row' hrow' hname'
      obtain ⟨a, active, hget, hsame, hisActive, hle⟩ := hhighest other row' hrow' hname'
      obtain rfl := hcoherent.versions.oneActive a id active row hget hrow
        (hsame.trans hname.symm) hisActive hstatus
      rw [hget] at hrow
      cases hrow
      exact hle
    rw [hdefinitions]
    constructor
    · intro hdefinition
      have hhas := hdefinition
      obtain ⟨id, row, hrow, hname, -⟩ := hhas
      obtain ⟨a, active, hget, hsame, hisActive, -⟩ := hhighest id row hrow hname
      have hof : HighestDefinition s.store.tables.schemas name active.definition :=
        ⟨a, active, hget, hsame, rfl, hactive a active hget hsame hisActive⟩
      exact ⟨a, active, hget, hsame, hisActive, hof.unique hdefinition⟩
    · rintro ⟨id, row, hrow, hname, hstatus, rfl⟩
      exact ⟨id, row, hrow, hname, rfl, hactive id row hrow hname hstatus⟩

/-- The relation of the small graph is archived, and the version of its schema. -/
def fallOut : List GraphOp := acquaint ++ [.setStatus 9 .archived, plainOp (.archive 1) rfl]

/-- The import of the small graph into an empty workspace. -/
def importOf (ops : List GraphOp) : Except YorishiroError (WorkspaceState × ImportProgress) :=
  importText (wireOf (graphAfter ops)) { peopleContext with workspaceId := 1 }
    { tenantId := 2, importedBy := none, entityQuota := none } consecutive (.empty none)
    (textOf (graphAfter ops))

theorem texts_fallOut :
    ((exportRows (linesOf []) (graphAfter fallOut)).map ExportRow.text).Nodup ∧
      (∀ row ∈ exportRows (linesOf []) (graphAfter fallOut), '\n' ∉ row.text) ∧
      ((exportRows (linesOf []) (graphAfter fallOut)).map fun row =>
        4 * row.text.length + 1).sum ≤ maxExportBytes := by
  set_option maxRecDepth 4096 in
  decide

theorem exportJsonl_fallOut :
    exportJsonl (wireOf (graphAfter fallOut)) (graphAfter fallOut) =
      .ok (textOf (graphAfter fallOut)) :=
  exportJsonl_textOf (by decide) texts_fallOut.2.2

theorem readsBack_fallOut :
    (wireOf (graphAfter fallOut)).ReadsBack
      (exportRows (wireOf (graphAfter fallOut)) (graphAfter fallOut)) :=
  readsBack_wireOf texts_fallOut.1 texts_fallOut.2.1

/-- What the import makes of the relation and of the version. -/
theorem importOf_fallOut : ∃ r, importOf fallOut = .ok r ∧
    r.1.relations.get? 4 = some (createdRelation 2 3 "knows" (.object [])) ∧
    newId r.2 7 = 2 ∧ newId r.2 8 = 3 ∧
    (r.1.store.tables.schemas.get? 1).any (isActive "people") = true := by
  have himported : (importOf fallOut).toOption.any (fun r =>
      decide (r.1.relations.get? 4 = some (createdRelation 2 3 "knows" (.object [])) ∧
        newId r.2 7 = 2 ∧ newId r.2 8 = 3 ∧
        (r.1.store.tables.schemas.get? 1).any (isActive "people") = true)) = true := by
    unfold importOf
    rw [importText_export (fun _ _ h => h) readsBack_fallOut exportJsonl_fallOut]
    decide
  cases himport : importOf fallOut with
  | ok r =>
      rw [himport] at himported
      exact ⟨r, rfl, of_decide_eq_true himported⟩
  | error err =>
      rw [himport] at himported
      cases himported

/-- **An import changes statuses.** The archived relation comes back active, and so does the
version of a name that had no active one. -/
theorem not_keepsStatuses_fallOut :
    ∃ r, importOf fallOut = .ok r ∧ ¬KeepsRelations (graphAfter fallOut) r.1 r.2 ∧
      ¬KeepsDefinitions (graphAfter fallOut).store.tables.schemas r.1.store.tables.schemas := by
  obtain ⟨r, himport, hcopy, hsource, htarget, hactive⟩ := importOf_fallOut
  refine ⟨r, himport, fun hkeeps => ?_, fun hkeeps => ?_⟩
  · have hstored : (graphAfter fallOut).relations.get? 9 =
        some { createdRelation 7 8 "knows" (.object []) with status := .archived } := by
      decide
    have hlink : SameLink r.2 { createdRelation 7 8 "knows" (.object []) with status := .archived }
        (createdRelation 2 3 "knows" (.object [])) := ⟨hsource.symm, htarget.symm, rfl⟩
    exact RelationStatus.noConfusion ((hkeeps 9 _ 4 _ hstored hcopy hlink).1 rfl)
  · obtain ⟨version, hversion, hisActive⟩ := (Option.any_eq_true _ _).mp hactive
    simp only [isActive, Bool.and_eq_true, decide_eq_true_eq] at hisActive
    obtain ⟨id, row, hrow, -, hstatus, -⟩ := (hkeeps "people" version.definition).mp
      ⟨1, version, hversion, hisActive.1, hisActive.2, rfl⟩
    have harchived : ∀ e ∈ (graphAfter fallOut).store.tables.schemas.rows.entries,
        e.2.status = .archived := by decide
    have := harchived _ ((OrderedMap.mem_entries_iff _ _ _).mpr hrow)
    rw [hstatus] at this
    cases this

/-- Every relation of the other workspace is active. -/
theorem import_statuses_fallOut :
    ∃ r, importOf fallOut = .ok r ∧
      ∀ m copy, r.1.relations.get? m = some copy → copy.status = .active := by
  obtain ⟨r, himport, -⟩ := importOf_fallOut
  exact ⟨r, himport, (import_statuses (fun _ _ h => h) peopleContext .postgres none fallOut rfl
    exportJsonl_fallOut readsBack_fallOut (blank_empty none) himport).2.1⟩

end Yorishiro.Transfer
