import Yorishiro.Entity.Rules

/-!
# Valid entities

The data of an entity is to validate against the projection, for its entity type, of
the version that its own `schema_id` names (`conforms`). `validRows` is the world of
entities and snapshots for which this holds. `validRows_obeyed` says which jobs stay
within it: `undo_job` and `confirm` always do, `update` where the row it writes is on
the version it was validated for, and `fill_defaults` where the data with the added
fields is still valid.
-/

set_option autoImplicit false

namespace Yorishiro.Entity

open Yorishiro.Lib Yorishiro.Lib.JsonSchema Yorishiro.Metaschema Yorishiro.Schema

/-- The definition of an entity type in a stored version. -/
def typeOf (schemas : Schemas) (schemaId : Uuid) (entityType : String) : Option EntityTypeDef :=
  (schemas.get? schemaId).bind fun schema => schema.definition.entityTypes.get? entityType

/-- The data validates against the projection of the stored version for the entity type. -/
def conforms (env : Dialect) (schemas : Schemas) (schemaId : Uuid) (entityType : String)
    (data : Json) : Bool :=
  (typeOf schemas schemaId entityType).any fun t => validates env (entityTypeToJsonSchema t) data

theorem conforms_iff {env : Dialect} {schemas : Schemas} {schemaId : Uuid} {entityType : String}
    {data : Json} : conforms env schemas schemaId entityType data = true ↔
      ∃ t, typeOf schemas schemaId entityType = some t ∧
        validates env (entityTypeToJsonSchema t) data = true := by
  unfold conforms
  cases typeOf schemas schemaId entityType with
  | none => simp
  | some t => simp

theorem typeOf_of_get? {schemas : Schemas} {schemaId : Uuid} {schema : SchemaRecord}
    {entityType : String} (hschema : schemas.get? schemaId = some schema) :
    typeOf schemas schemaId entityType = schema.definition.entityTypes.get? entityType := by
  rw [typeOf, hschema, Option.bind_some]

/-- Data that `validate_data` accepts for a stored version conforms to it. -/
theorem conforms_of_validateData {cx : Context} {schemas : Schemas} {schemaId : Uuid}
    {schema : SchemaRecord} {entityType : String} {t : EntityTypeDef} {data : Json}
    (hschema : schemas.get? schemaId = some schema)
    (htype : schema.definition.entityTypes.get? entityType = some t)
    (hvalid : validateData cx.validator t data = .ok ()) :
    conforms cx.validator.env schemas schemaId entityType data = true :=
  conforms_iff.mpr ⟨t, (typeOf_of_get? hschema).trans htype, validates_of_validateData hvalid⟩

/-- What `update` checks: the new data conforms to the version of the row it read. -/
theorem conforms_of_checkData {cx : Context} {schemas : Schemas} {existing : EntityRow}
    {data : Json} (h : checkData cx schemas existing data = .ok ()) :
    conforms cx.validator.env schemas existing.schemaId existing.entityType data = true := by
  unfold checkData at h
  obtain ⟨schema, hschema, h⟩ := Except.bind_eq_ok.mp h
  obtain ⟨t, htype, hvalid⟩ := Except.bind_eq_ok.mp h
  exact conforms_of_validateData (getById_eq_ok.mp hschema) (resolveEntityType_eq_ok.mp htype)
    hvalid

/-- Every committed entity conforms to the version that its `schema_id` names. -/
def RowsValid (env : Dialect) (store : EntityStore) : Prop :=
  ∀ k row, store.rows.get? k = some row →
    conforms env store.tables.schemas row.schemaId row.entityType row.data = true

/-! ## The world of valid rows -/

/-- Every entity has the type that its identifier was issued for and conforms to its
version; so does every snapshot; the schemas are fixed. -/
def validRows (env : Dialect) (schemas : Schemas) (types : Uuid → Option String) :
    EntityWorld where
  row := fun k x => types k = some x.entityType ∧
    conforms env schemas x.schemaId x.entityType x.data = true
  table := fun b => b.schemas = schemas ∧ ∀ snap ∈ b.snapshots, ∃ entityType,
    types snap.entityId = some entityType ∧
      conforms env schemas snap.schemaId entityType snap.data = true

section World

variable {env : Dialect} {schemas : Schemas} {types : Uuid → Option String}

theorem validRows_keepsTables : KeepsTables (validRows env schemas types) where
  insertSnapshot := by
    intro entityId jobId look b hlook hb
    unfold insertSnapshot
    cases hrow : look entityId with
    | none => exact hb
    | some row =>
        refine ⟨hb.1, fun snap hsnap => ?_⟩
        rcases List.mem_append.mp hsnap with hsnap | hsnap
        · exact hb.2 snap hsnap
        · -- The new snapshot is a copy of a valid row.
          rw [List.mem_singleton.mp hsnap]
          exact ⟨row.entityType, hlook entityId row hrow⟩
  deleteSnapshot := by
    intro entityId jobId _ b hb
    exact ⟨hb.1, fun snap hsnap => hb.2 snap (List.mem_of_mem_filter hsnap)⟩
  markEntity := fun _ _ _ _ _ hb => hb

theorem validRows_type_eq {k : Uuid} {x y : EntityRow}
    (hx : (validRows env schemas types).row k x) (hy : (validRows env schemas types).row k y) :
    x.entityType = y.entityType :=
  Option.some.inj (hx.1.symm.trans hy.1)

theorem rowsValid_of_within {store : EntityStore} (h : store.Within (validRows env schemas types)) :
    RowsValid env store := by
  intro k row hrow
  rw [h.2.1]
  exact (h.1 k row hrow).2

/-- **Jobs among valid rows.** What `undo_job` and `confirm` write is valid as it is; an
update and a fill have to find a row for which their data is valid. -/
theorem validRows_obeyed {cx : Context} {C : EntityContract} {job : Job}
    (hwrites : ∀ seen wrote k stamp x o, C.writes seen wrote k stamp x o)
    (hupdate : ∀ input existing x, job = .update input →
      C.calm [(input.id, existing)] [] input.id x → existing.schemaId = x.schemaId)
    (hfill : ∀ args seen wrote k record active t x, job = .fillDefaults args →
      Filling schemas args seen wrote k record active t →
      (validRows cx.validator.env schemas types).row k x → C.calm seen wrote k x →
      conforms cx.validator.env schemas x.schemaId x.entityType
        (fillFieldsInValue t.trees record.data).1 = true) :
    Obeys (validRows cx.validator.env schemas types) C cx schemas job where
  update := by
    intro input existing stamp x hjob hexisting hx _ hcheck hcalm
    have hconforms := conforms_of_checkData hcheck
    -- checked against the row that was read, needed for the row that was found
    rw [hupdate input existing x hjob hcalm, validRows_type_eq hexisting hx] at hconforms
    exact .intro (hwrites _ _ _ _ _ _) ⟨hx.1, hconforms⟩
  delete := fun _ _ _ _ _ _ => hwrites _ _ _ _ _ _
  fill := by
    intro args seen wrote k record active t stamp x hjob hfilling _ hx hcalm
    exact .intro (hwrites _ _ _ _ _ _)
      ⟨hx.1, hfill args seen wrote k record active t x hjob hfilling hx hcalm⟩
  undo := by
    intro jobId b snap wrote stamp x _ hb hsnap hx _
    obtain ⟨entityType, htype, hconforms⟩ := hb.2 snap hsnap
    -- the snapshot's version and data are written together, so the pair stays valid
    obtain rfl : x.entityType = entityType := Option.some.inj (hx.1.symm.trans htype)
    exact .intro (hwrites _ _ _ _ _ _) ⟨hx.1, hconforms⟩
  confirm := by
    intro jobId updatedBy seen wrote k existing target data t stamp x _ _ hconfirming hexisting
      hx _ _
    have hconforms := conforms_of_validateData hconfirming.stored hconfirming.type hconfirming.valid
    rw [validRows_type_eq hexisting hx] at hconforms
    exact .intro (hwrites _ _ _ _ _ _) ⟨hx.1, hconforms⟩

end World

end Yorishiro.Entity
