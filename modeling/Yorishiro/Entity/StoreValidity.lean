import Mathlib.Logic.Function.Basic
import Yorishiro.Entity.Validity
import Yorishiro.Entity.Workspace

/-!
# Validity of the entity store

Which states of a workspace can be reached by its operations, one after the other?
All of them have valid entities (`RowsValid`), with one exception: `fill_defaults`
adds fields of the active version to entities that stay on their own version, and
does not look at what that version says about the fields. `store_rowsValid` says
that every run keeps validity in which each fill adds only fields that fit, and
`not_rowsValid_afterFill` is a run of four operations that does not.
-/

set_option autoImplicit false

namespace Yorishiro.Entity

open Yorishiro.Lib Yorishiro.Lib.JsonSchema Yorishiro.Metaschema Yorishiro.Schema

/-! ## Fills that fit -/

/-- The fields that a fill from `active` adds to the row fit what the row's own version
declares under their names. -/
def rowFits (env : Dialect) (schemas : Schemas) (active : SchemaRecord) (row : EntityRow) :
    Bool :=
  match active.definition.entityTypes.get? row.entityType,
      typeOf schemas row.schemaId row.entityType, row.data with
  | some t, some own, .object obj => fits env t.trees own.trees obj
  | _, _, _ => true

/-- So it is for every entity that a fill visits. -/
def fillFits (env : Dialect) (store : EntityStore) (args : FillDefaultsArgs) : Bool :=
  match getActiveSchema store.tables.schemas args.schemaName with
  | .error _ => true
  | .ok active => store.rows.entries.all fun e =>
      !isBehind args active.1 store.tables e.1 e.2 ||
        rowFits env store.tables.schemas active.2 e.2

/-- An operation that is a fill is one that fits. -/
def Op.fits (cx : Context) (s : WorkspaceState) : Op → Bool
  | .run (.fillDefaults args) _ => fillFits cx.validator.env s.store args
  | _ => true

/-! ## Other schemas -/

section Extends

variable {env : Dialect} {a b : Schemas}

theorem typeOf_extends (h : Extends a b) {schemaId : Uuid} {entityType : String}
    {t : EntityTypeDef} (ht : typeOf a schemaId entityType = some t) :
    typeOf b schemaId entityType = some t := by
  obtain ⟨schema, hschema, htype⟩ := Option.bind_eq_some_iff.mp ht
  obtain ⟨schema', hschema', -, hdef⟩ := h schemaId schema hschema
  rw [typeOf_of_get? hschema', hdef]
  exact htype

theorem conforms_extends (h : Extends a b) {schemaId : Uuid} {entityType : String} {data : Json}
    (hd : conforms env a schemaId entityType data = true) :
    conforms env b schemaId entityType data = true := by
  obtain ⟨t, ht, hvalid⟩ := conforms_iff.mp hd
  exact conforms_iff.mpr ⟨t, typeOf_extends h ht, hvalid⟩

theorem within_extends (h : Extends a b) {types : Uuid → Option String} {store : EntityStore}
    (hstore : store.Within (validRows env a types)) (workspace : Workspace) :
    ({ store with tables := { store.tables with schemas := b, workspace := workspace } } :
      EntityStore).Within (validRows env b types) := by
  refine ⟨fun k x hx => ?_, rfl, fun snap hsnap => ?_⟩
  -- a stored version never changes its definition, so what conformed still does
  · obtain ⟨htype, hconforms⟩ := hstore.1 k x hx
    exact ⟨htype, conforms_extends h hconforms⟩
  · obtain ⟨entityType, htype, hconforms⟩ := hstore.2.2 snap hsnap
    exact ⟨entityType, htype, conforms_extends h hconforms⟩

end Extends

/-! ## The invariant -/

/-- Every entity and snapshot is valid for the type its identifier was issued for. -/
def StoreInv (env : Dialect) (s : WorkspaceState) : Prop :=
  ∃ types : Uuid → Option String, (∀ k entityType, types k = some entityType → k ∈ s.issued) ∧
    s.store.Within (validRows env s.store.tables.schemas types)

section Invariant

variable {cx : Context} {s s' : WorkspaceState}

theorem storeInv_empty (env : Dialect) (maxEntities : Option Int) :
    StoreInv env (.empty maxEntities) := by
  refine ⟨fun _ => none, fun k entityType h => (by cases h), fun k x hx => (by cases hx), rfl, ?_⟩
  intro snap hsnap
  cases hsnap

theorem storeInv_withSchemas (h : StoreInv cx.validator.env s) {schemas : Schemas}
    (hextends : Extends s.store.tables.schemas schemas) (workspace : Workspace) :
    StoreInv cx.validator.env (s.withSchemas schemas workspace) := by
  obtain ⟨types, hissued, hstore⟩ := h
  exact ⟨types, hissued, within_extends hextends hstore workspace⟩

/-- A created entity is valid, and its identifier is new. -/
theorem storeInv_createWithQuota (h : StoreInv cx.validator.env s) {input : CreateEntityInput}
    {createdBy : Option Uuid} {quota : Option Int} {id : Uuid} {stamp : Stamp}
    (hcreate : createWithQuota cx s input createdBy quota id stamp = .ok s') :
    StoreInv cx.validator.env s' := by
  obtain ⟨types, hissued, hrows, hschemas, hsnaps⟩ := h
  obtain ⟨schema, hcheck, hid, rfl⟩ := createWithQuota_eq_ok.mp hcreate
  obtain ⟨-, -, hactive, t, htype, hvalid⟩ := checkCreate_eq_ok.mp hcheck
  have hconforms : conforms cx.validator.env s.store.tables.schemas schema.1 input.entityType
      input.data = true :=
    conforms_of_validateData (get?_of_getActiveSchema hactive) (resolveEntityType_eq_ok.mp htype)
      hvalid
  -- the new identifier was not issued before, so no snapshot speaks about it
  have hold : ∀ k entityType, types k = some entityType → k ≠ id := by
    rintro k entityType hk rfl
    exact hid (hissued k entityType hk)
  refine ⟨Function.update types id (some input.entityType), ?_, ?_, hschemas, ?_⟩
  · intro k entityType hk
    by_cases hkid : k = id
    · exact hkid ▸ List.mem_cons_self
    · rw [Function.update_of_ne hkid] at hk
      exact List.mem_cons_of_mem _ (hissued k entityType hk)
  · intro k x hx
    simp only [OrderedMap.get?_insert] at hx
    split_ifs at hx with hkid
    · cases hx
      refine ⟨?_, hconforms⟩
      rw [hkid, Function.update_self]
      rfl
    · obtain ⟨htype, hx⟩ := hrows k x hx
      exact ⟨by rw [Function.update_of_ne hkid, htype], hx⟩
  · intro snap hsnap
    obtain ⟨entityType, htype, hsnap⟩ := hsnaps snap hsnap
    refine ⟨entityType, ?_, hsnap⟩
    rw [Function.update_of_ne (hold _ _ htype), htype]

theorem storeInv_createRelation (h : StoreInv cx.validator.env s) {sourceId targetId : Uuid}
    {relationType : String} {properties : Json} {id : Uuid}
    (hcreate : createRelation s sourceId targetId relationType properties id = .ok s') :
    StoreInv cx.validator.env s' := by
  obtain ⟨_, _, _, -, -, -, -, rfl⟩ := createRelation_eq_ok.mp hcreate
  -- relations are no part of the invariant
  exact h

/-! ## Import -/

theorem storeInv_importRecord (h : StoreInv cx.validator.env s) {args : ImportArgs}
    {p : ImportProgress} {id : Uuid} {stamp : Stamp} {record : ExportRecord}
    {r : WorkspaceState × ImportProgress}
    (himport : importRecord cx args s p id stamp record = .ok r) :
    StoreInv cx.validator.env r.1 := by
  cases record with
  | schema oldId definition =>
      obtain ⟨created, hcreated, himport⟩ := Except.bind_eq_ok.mp himport
      cases himport
      exact storeInv_withSchemas h (createSchema_extends hcreated) _
  | entity oldId schemaId entityType data =>
      obtain ⟨resolved, -, himport⟩ := Except.bind_eq_ok.mp himport
      obtain ⟨s', hcreated, himport⟩ := Except.bind_eq_ok.mp himport
      cases himport
      exact storeInv_createWithQuota h hcreated
  | relation sourceId targetId relationType properties =>
      obtain ⟨s', hcreated, himport⟩ := Except.bind_eq_ok.mp himport
      cases himport
      exact storeInv_createRelation h hcreated

/-- The lines of an import, one after the other. -/
theorem storeInv_importLines {args : ImportArgs} {given : Nat → Uuid × Stamp}
    {lines : List (ImportLine × Nat)} {state r : WorkspaceState × ImportProgress}
    (h : StoreInv cx.validator.env state.1)
    (himport : lines.foldlM (importLine cx args given) state = .ok r) :
    StoreInv cx.validator.env r.1 := by
  -- the state moves along the lines, so the invariant is carried from line to line
  induction lines generalizing state with
  | nil =>
      cases himport
      exact h
  | cons line lines ih =>
      rw [List.foldlM_cons] at himport
      obtain ⟨state', hline, himport⟩ := Except.bind_eq_ok.mp himport
      refine ih ?_ himport
      unfold importLine at hline
      split at hline
      · cases hline
        exact h
      · cases hline
      · exact storeInv_importRecord h (Except.mapError_eq_ok hline)

/-! ## Transactions -/

/-- A transaction that runs alone finds every row as it was when it began. -/
def serialContract (store : EntityStore) : EntityContract where
  calm := fun seen wrote k x =>
    k ∉ wrote → store.rows.get? k = some x ∧ ∀ r, (k, r) ∈ seen → r = x
  writes := fun _ _ _ _ _ _ => True

/-- A valid row for which the added fields fit is valid after the fill. -/
theorem conforms_fill {env : Dialect} {schemas : Schemas} {active : SchemaRecord}
    {row : EntityRow} {t : EntityTypeDef}
    (htype : active.definition.entityTypes.get? row.entityType = some t)
    (hrow : conforms env schemas row.schemaId row.entityType row.data = true)
    (hfits : rowFits env schemas active row = true) :
    conforms env schemas row.schemaId row.entityType (fillFieldsInValue t.trees row.data).1 =
      true := by
  obtain ⟨own, hown, hvalid⟩ := conforms_iff.mp hrow
  -- the projection of an entity type accepts objects only
  have hobject : ∃ obj, row.data = .object obj := by
    unfold entityTypeToJsonSchema at hvalid
    rw [validates_propertiesToJsonSchema] at hvalid
    exact hvalid.1
  obtain ⟨obj, hobj⟩ := hobject
  simp only [rowFits, htype, hown, hobj] at hfits
  rw [hobj] at hvalid ⊢
  exact conforms_iff.mpr ⟨own, hown, (validates_fill_iff own t hvalid).mpr hfits⟩

theorem rowFits_of_fillFits {env : Dialect} {store : EntityStore} {args : FillDefaultsArgs}
    (h : fillFits env store args = true) {active : Uuid × SchemaRecord}
    (hactive : getActiveSchema store.tables.schemas args.schemaName = .ok active) {k : Uuid}
    {row : EntityRow} (hrow : store.rows.get? k = some row)
    (hbehind : isBehind args active.1 store.tables k row = true) :
    rowFits env store.tables.schemas active.2 row = true := by
  unfold fillFits at h
  rw [hactive] at h
  have hentry := List.all_eq_true.mp h (k, row) ((OrderedMap.mem_entries_iff _ k row).mpr hrow)
  simpa [hbehind] using hentry

theorem serialContract_obeyed {store : EntityStore} {types : Uuid → Option String} {job : Job}
    (hfits : ∀ args, job = .fillDefaults args → fillFits cx.validator.env store args = true) :
    Obeys (validRows cx.validator.env store.tables.schemas types) (serialContract store) cx
      store.tables.schemas job := by
  apply validRows_obeyed
  · exact fun _ _ _ _ _ _ => trivial
  · intro input existing x _ hcalm
    -- alone, an update writes the very row it has read
    rw [(hcalm List.not_mem_nil).2 existing List.mem_cons_self]
  · intro args seen wrote k record active t x hjob hfilling hx hcalm
    obtain ⟨hrow, hread⟩ := hcalm hfilling.first
    -- nobody else has written the row since the fill read it
    obtain rfl : record = x := hread record hfilling.read
    have hbehind : isBehind args active.1 store.tables k record = true := by
      rw [isBehind, Bool.and_eq_true, decide_eq_true_iff]
      exact hfilling.behind
    exact conforms_fill hfilling.type hx.2
      (rowFits_of_fillFits (hfits args hjob) hfilling.resolved hrow hbehind)

theorem storeInv_run (h : StoreInv cx.validator.env s) {job : Job} {stamps : Nat → Stamp}
    (hfits : ∀ args, job = .fillDefaults args → fillFits cx.validator.env s.store args = true)
    {done : Reply × EntityStore} (hrun : (code cx job).alone stamps 0 s.store = .ok done) :
    StoreInv cx.validator.env
      { s with store := done.2, relations := cascade s.relations job } := by
  obtain ⟨types, hissued, hstore⟩ := h
  have hwp := code_rule validRows_keepsTables (fun _ hb => hb.1)
    (serialContract_obeyed hfits : Obeys (validRows _ _ types) _ _ _ _)
  -- the programs' rules hold here as in any interleaving, with nobody else around
  have hkept : s.store.Untouched s.store [] [] := fun _ _ => ⟨rfl, fun _ hr => by cases hr⟩
  obtain ⟨hdone, -⟩ := alone_sound (fun _ _ _ _ hcalm => hcalm) hwp hstore hkept hrun
  refine ⟨types, hissued, ?_⟩
  rw [hdone.2.1]
  exact hdone

/-! ## Runs -/

/-- One operation. -/
theorem storeInv_step (h : StoreInv cx.validator.env s) {op : Op} (hfits : op.fits cx s = true) :
    StoreInv cx.validator.env (s.step cx op) := by
  unfold WorkspaceState.step
  split
  · rename_i s' hop
    cases op with
    | createSchema tenantId definition originTemplateId originSnapshot id now =>
        obtain ⟨created, hcreated, hop⟩ := Except.bind_eq_ok.mp hop
        cases hop
        exact storeInv_withSchemas h (createSchema_extends hcreated) _
    | archive id =>
        obtain ⟨archived, harchived, hop⟩ := Except.bind_eq_ok.mp hop
        cases hop
        exact storeInv_withSchemas h (archive_extends harchived) _
    | create input createdBy quota id stamp => exact storeInv_createWithQuota h hop
    | importJsonl args lines given =>
        obtain ⟨imported, himported, hop⟩ := Except.bind_eq_ok.mp hop
        cases hop
        exact storeInv_importLines h himported
    | run job stamps =>
        obtain ⟨done, hdone, hop⟩ := Except.bind_eq_ok.mp hop
        cases hop
        refine storeInv_run h ?_ hdone
        -- the step's condition is about fills, and this is one
        rintro args rfl
        exact hfits
    | infer jobs proposals =>
        cases hop
        exact h
  · exact h

end Invariant

/-- **Validity of the entity store.** From an empty workspace, every run whose fills add
only fields that fit reaches only states in which every entity conforms to the version
that its `schema_id` names. -/
theorem store_rowsValid (cx : Context) (maxEntities : Option Int) (ops : List Op)
    (hfits : Transition.StepsMeet (WorkspaceState.step cx) (fun s op => op.fits cx s = true)
      (.empty maxEntities) ops) :
    RowsValid cx.validator.env
      (Transition.run (WorkspaceState.step cx) (.empty maxEntities) ops).store := by
  have hinv := Transition.run_invariant (StoreInv cx.validator.env)
    (fun _ _ h hop => storeInv_step h hop) (storeInv_empty _ maxEntities) hfits
  obtain ⟨types, -, hstore⟩ := hinv
  exact rowsValid_of_within hstore

/-- A workspace with a person of the first version, when the second one arrives and a fill
follows. -/
def fillAfterUpgrade (first second : MetaSchemaDefinition) : List Op :=
  [ .createSchema 0 first none none 1 8,
    .create { schemaName := "people", entityType := "person", data := .object [] } none none 7
      ⟨10, "first"⟩,
    .createSchema 0 second none none 2 11,
    .run (.fillDefaults fillPeople) fun _ => ⟨12, "second"⟩ ]

/-- Control: where both versions agree on the type of the age, the fill leaves a valid
entity. -/
theorem store_rowsValid_fillAfterUpgrade :
    RowsValid peopleContext.validator.env
      (Transition.run (WorkspaceState.step peopleContext) (.empty none)
        (fillAfterUpgrade (people .integer false) (people .integer true))).store ∧
    (Transition.run (WorkspaceState.step peopleContext) (.empty none)
        (fillAfterUpgrade (people .integer false) (people .integer true))).store.rows.get? 7 =
      some (person 1 1 (.object [("age", .number (.int 0))]) 12 "second") :=
  ⟨store_rowsValid peopleContext none _ (by decide), by decide⟩

/-- **A fill can leave an invalid entity.** The first version has an age in words, and the
fill adds a number to an entity that stays on the first version. -/
theorem not_rowsValid_afterFill :
    ¬ RowsValid peopleContext.validator.env
      (Transition.run (WorkspaceState.step peopleContext) (.empty none)
        (fillAfterUpgrade (people .string false) (people .integer true))).store := by
  intro h
  have hrow := h 7 (person 1 1 (.object [("age", .number (.int 0))]) 12 "second")
    (by decide)
  revert hrow
  decide

end Yorishiro.Entity
