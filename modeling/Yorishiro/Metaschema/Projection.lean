import Yorishiro.Lib.JsonSchema
import Yorishiro.Metaschema.Types

/-!
# Projection of definitions to JSON Schema

`entity_type_to_json_schema` and the two functions it is built from. Nested objects
become nested `properties` and `required`, arrays become `items`; what a field says
about items or properties is projected only when the field has that type.

`validates_fieldToJsonSchema` and `validates_propertiesToJsonSchema` say what the
projected schemas accept, attribute by attribute and level by level. They are all
that the other modules use of the projection.
-/

set_option autoImplicit false

namespace Yorishiro.Metaschema

open Yorishiro.Lib
open Yorishiro.Lib.JsonSchema

/-! ## The projection -/

/-- The `required` keyword of an object with these fields, when any is required. -/
def requiredJson (fields : List (String × FieldTree)) : Option Json :=
  let required := (fields.filter fun e => e.2.attrs.required).map Prod.fst
  if required.isEmpty then none else some (stringsJson required)

/-- The schema of an object, from the schemas of its members. -/
def objectSchema (properties : List (String × Json)) (required : Option Json) : Json :=
  .object (Entries.insertSome
    [ ("type", some (.string "object")),
      ("properties", some (.object properties)),
      ("required", required) ] [])

/-- The keywords of a field's schema, in the order the source inserts them. -/
def FieldAttrs.keywords (a : FieldAttrs) (items properties required : Option Json) :
    List (String × Option Json) :=
  [ ("type", some (.string a.type.name)),
    ("description", a.description.map .string),
    ("enum", a.enumValues.map stringsJson),
    ("format", a.format.map .string),
    ("minimum", a.minimum.map boundJson),
    ("maximum", a.maximum.map boundJson),
    ("minLength", a.minLength.map natJson),
    ("maxLength", a.maxLength.map natJson),
    ("pattern", a.pattern.map .string),
    ("minItems", a.minItems.map natJson),
    ("maxItems", a.maxItems.map natJson),
    ("uniqueItems", flagJson a.uniqueItems),
    ("default", a.default),
    ("items", items),
    ("properties", properties),
    ("required", required) ]

mutual

/-- `field_to_json_schema`. -/
def fieldToJsonSchema : FieldTree → Json
  | .mk a items properties =>
      .object (Entries.insertSome
        (a.keywords
          (if a.type = .array then
            match items with
            | some i => some (itemsSchema i)
            | none => none
          else none)
          (if a.type = .object then
            match properties with
            | some ps => some (.object (fieldSchemas ps))
            | none => none
          else none)
          (if a.type = .object then properties.bind requiredJson else none)) [])

/-- The schema of the items of an array. -/
def itemsSchema : ItemsTree → Json
  | .mk .object (some ps) =>
      -- the source sets `type` of this schema once more, to the value it already has
      objectSchema (fieldSchemas ps) (requiredJson ps)
  | .mk .object none => objectSchema [] none
  | .mk .string _ => .object [("type", .string ArrayItemType.string.name)]

/-- The schemas of the fields, by name. -/
def fieldSchemas : List (String × FieldTree) → List (String × Json)
  | [] => []
  | (name, t) :: fields => (name, fieldToJsonSchema t) :: fieldSchemas fields

end

theorem fieldToJsonSchema_mk (a : FieldAttrs) (i : Option ItemsTree)
    (p : Option (List (String × FieldTree))) :
    fieldToJsonSchema (.mk a i p) =
      .object (Entries.insertSome
        (a.keywords (if a.type = .array then i.map itemsSchema else none)
          (if a.type = .object then p.map fun ps => .object (fieldSchemas ps) else none)
          (if a.type = .object then p.bind requiredJson else none)) []) := by
  cases i <;> cases p <;> rw [fieldToJsonSchema] <;> rfl

/-- `properties_to_json_schema`. -/
def propertiesToJsonSchema (fields : List (String × FieldTree)) : Json :=
  objectSchema (fieldSchemas fields) (requiredJson fields)

/-- `entity_type_to_json_schema`. -/
def entityTypeToJsonSchema (entityType : EntityTypeDef) : Json :=
  propertiesToJsonSchema entityType.trees

/-! ## Keywords on the values the projection gives them -/

section Keywords

variable (env : Dialect) (d : Json)

/-- An optional keyword accepts the value, when it is there. -/
def Holds (k : String) (o : Option Json) : Prop :=
  ∀ x, o = some x → keywordHolds env k x d = true

theorem holds_none (k : String) : Holds env d k none := by
  intro x hx
  cases hx

theorem holds_map {α : Type} (k : String) (f : α → Json) (o : Option α) :
    Holds env d k (o.map f) ↔ ∀ a, o = some a → keywordHolds env k (f a) d = true := by
  cases o with
  | none => simp [Holds]
  | some a => simp [Holds]

theorem holds_type (t : String) :
    Holds env d "type" (some (.string t)) ↔ hasType t d = true := by
  simp [Holds, keywordHolds, asserts]

theorem keywordHolds_enum (vs : List String) :
    keywordHolds env "enum" (stringsJson vs) d = true ↔ ∃ v ∈ vs, d = .string v := by
  have hany : keywordHolds env "enum" (stringsJson vs) d =
      (vs.map Json.string).any (sameValue d) := by
    cases d <;> simp only [keywordHolds, asserts, stringsJson] <;> rfl
  rw [hany, List.any_map, List.any_eq_true]
  simp only [Function.comp_apply, sameValue_string]

theorem keywordHolds_minimum (q : ℚ) :
    keywordHolds env "minimum" (boundJson q) d = true ↔ ∀ n, d = .number n → q ≤ n.toRat := by
  cases d <;> simp [keywordHolds, asserts, boundJson, -Number.toRat_float]
  rfl

theorem keywordHolds_maximum (q : ℚ) :
    keywordHolds env "maximum" (boundJson q) d = true ↔ ∀ n, d = .number n → n.toRat ≤ q := by
  cases d <;> simp [keywordHolds, asserts, boundJson, -Number.toRat_float]
  rfl

theorem keywordHolds_minLength (n : Nat) :
    keywordHolds env "minLength" (natJson n) d = true ↔ ∀ s, d = .string s → n ≤ s.length := by
  cases d <;> simp [keywordHolds, asserts, natJson]

theorem keywordHolds_maxLength (n : Nat) :
    keywordHolds env "maxLength" (natJson n) d = true ↔ ∀ s, d = .string s → s.length ≤ n := by
  cases d <;> simp [keywordHolds, asserts, natJson]

theorem keywordHolds_minItems (n : Nat) :
    keywordHolds env "minItems" (natJson n) d = true ↔ ∀ ds, d = .array ds → n ≤ ds.length := by
  cases d <;> simp [keywordHolds, asserts, natJson]

theorem keywordHolds_maxItems (n : Nat) :
    keywordHolds env "maxItems" (natJson n) d = true ↔ ∀ ds, d = .array ds → ds.length ≤ n := by
  cases d <;> simp [keywordHolds, asserts, natJson]

theorem holds_uniqueItems (b : Bool) :
    Holds env d "uniqueItems" (flagJson b) ↔ (b = true → allDistinct d.elements = true) := by
  cases b with
  | false => simp [Holds, flagJson]
  | true => cases d <;> simp [Holds, flagJson, keywordHolds, asserts, Json.elements, allDistinct]

theorem keywordHolds_items (x : Json) :
    keywordHolds env "items" x d = true ↔ ∀ v ∈ d.elements, validates env x v = true := by
  simp [keywordHolds]

theorem keywordHolds_properties (props : List (String × Json)) :
    keywordHolds env "properties" (.object props) d = true ↔
      ∀ e ∈ props, ∀ v, Entries.get? e.1 d.members = some v → validates env e.2 v = true := by
  simp only [keywordHolds]
  exact validatesProperties_iff env props d.members

theorem holds_required (fields : List (String × FieldTree)) :
    Holds env d "required" (requiredJson fields) ↔
      ∀ ms, d = .object ms → ∀ e ∈ fields, e.2.attrs.required = true →
        (Entries.get? e.1 ms).isSome = true := by
  have hlist : ∀ ms : List (String × Json),
      ((fields.filter fun e => e.2.attrs.required).map Prod.fst).all
          (fun name => hasMember ms (.string name)) = true ↔
        ∀ e ∈ fields, e.2.attrs.required = true → (Entries.get? e.1 ms).isSome = true := by
    intro ms
    simp only [List.all_map, List.all_filter, List.all_eq_true, Function.comp_apply,
      Bool.or_eq_true, Bool.not_eq_true', hasMember]
    refine forall₂_congr fun e _ => ?_
    cases e.2.attrs.required <;> simp
  unfold requiredJson
  -- the keyword is left out when no field is required
  by_cases hempty : ((fields.filter fun e => e.2.attrs.required).map Prod.fst).isEmpty
  · simp only [hempty, if_true]
    refine iff_of_true (holds_none env d _) fun ms _ => (hlist ms).mp ?_
    rw [List.isEmpty_iff.mp hempty]
    rfl
  · simp only [hempty, Bool.false_eq_true, if_false]
    cases d with
    | object ms =>
        rw [show (∀ ms', Json.object ms = .object ms' → ∀ e ∈ fields, e.2.attrs.required = true →
            (Entries.get? e.1 ms').isSome = true) ↔ _ from
          ⟨fun h => h ms rfl, fun h ms' hms => Json.object.inj hms ▸ h⟩, ← hlist ms]
        simp [Holds, keywordHolds, asserts, stringsJson, Function.comp_def]
    | _ => simp [Holds, keywordHolds, asserts, stringsJson]

end Keywords

/-! ## What the projection accepts -/

/-- A value meets the attributes of a field: its type and every constraint on it. -/
structure FieldAttrs.Accepts (env : Dialect) (a : FieldAttrs) (d : Json) : Prop where
  type : hasType a.type.name d = true
  enum : ∀ vs, a.enumValues = some vs → ∃ v ∈ vs, d = .string v
  format : ∀ f, a.format = some f → ∀ s, d = .string s → env.format f s = true
  minimum : ∀ q, a.minimum = some q → ∀ n, d = .number n → q ≤ n.toRat
  maximum : ∀ q, a.maximum = some q → ∀ n, d = .number n → n.toRat ≤ q
  minLength : ∀ n, a.minLength = some n → ∀ s, d = .string s → n ≤ s.length
  maxLength : ∀ n, a.maxLength = some n → ∀ s, d = .string s → s.length ≤ n
  pattern : ∀ p, a.pattern = some p →
    ∀ s, d = .string s → ((env.regex p).map fun m => m s).getD false = true
  minItems : ∀ n, a.minItems = some n → ∀ ds, d = .array ds → n ≤ ds.length
  maxItems : ∀ n, a.maxItems = some n → ∀ ds, d = .array ds → ds.length ≤ n
  uniqueItems : a.uniqueItems = true → allDistinct d.elements = true

/-- An object meets a field map: required members are there, and each member that a
field describes meets the field. Values of other types meet every field map. -/
def FieldsAccept (env : Dialect) (fields : List (String × FieldTree)) (d : Json) : Prop :=
  ∀ ms, d = .object ms → ∀ e ∈ fields,
    (e.2.attrs.required = true → (Entries.get? e.1 ms).isSome = true) ∧
      ∀ v, Entries.get? e.1 ms = some v → validates env (fieldToJsonSchema e.2) v = true

theorem fieldSchemas_eq_map (fields : List (String × FieldTree)) :
    fieldSchemas fields = fields.map fun e => (e.1, fieldToJsonSchema e.2) := by
  induction fields with
  | nil => rfl
  | cons e fields ih => rw [fieldSchemas, List.map_cons, ih]

theorem hasType_object_iff (d : Json) : hasType "object" d = true ↔ ∃ ms, d = .object ms := by
  cases d <;> simp [hasType]

section Meaning

variable (env : Dialect)

/-- The two keywords that a field map becomes accept what the field map accepts. -/
theorem fieldsAccept_iff (fields : List (String × FieldTree)) (d : Json) :
    Holds env d "properties" (some (.object (fieldSchemas fields))) ∧
        Holds env d "required" (requiredJson fields) ↔ FieldsAccept env fields d := by
  have hprops : Holds env d "properties" (some (.object (fieldSchemas fields))) ↔
      ∀ e ∈ fields, ∀ v, Entries.get? e.1 d.members = some v →
        validates env (fieldToJsonSchema e.2) v = true := by
    rw [show Holds env d "properties" (some (.object (fieldSchemas fields))) ↔ _ from
      ⟨fun h => h _ rfl, fun h x hx => Option.some.inj hx ▸ h⟩, keywordHolds_properties,
      fieldSchemas_eq_map, List.forall_mem_map]
  rw [hprops, holds_required]
  constructor
  · rintro ⟨hmember, hreq⟩ ms rfl e he
    exact ⟨hreq ms rfl e he, hmember e he⟩
  · intro h
    -- a value that is no object has no members, so both keywords are silent on it
    refine ⟨fun e he v hv => ?_, fun ms hms e he => (h ms hms e he).1⟩
    cases d with
    | object ms => exact (h ms rfl e he).2 v hv
    | _ => cases hv

/-- **What the schema of an object accepts.** -/
theorem validates_propertiesToJsonSchema (fields : List (String × FieldTree)) (d : Json) :
    validates env (propertiesToJsonSchema fields) d = true ↔
      (∃ ms, d = .object ms) ∧ FieldsAccept env fields d := by
  unfold propertiesToJsonSchema objectSchema
  rw [validates_insertSome env (by simp), ← fieldsAccept_iff, ← hasType_object_iff]
  simp only [List.forall_mem_cons, List.not_mem_nil, false_implies, implies_true, and_true]
  exact and_congr_left fun _ => holds_type env d "object"

theorem FieldAttrs.keywords_nodup (a : FieldAttrs) (i p r : Option Json) :
    ((a.keywords i p r).map Prod.fst).Nodup := by
  have hkeys : (a.keywords i p r).map Prod.fst =
      [ "type", "description", "enum", "format", "minimum", "maximum", "minLength", "maxLength",
        "pattern", "minItems", "maxItems", "uniqueItems", "default", "items", "properties",
        "required" ] := rfl
  rw [hkeys]
  decide

/-- What a schema built from attributes accepts. -/
theorem validates_keywords (a : FieldAttrs) (i p r : Option Json) (d : Json) :
    validates env (.object (Entries.insertSome (a.keywords i p r) [])) d = true ↔
      a.Accepts env d ∧ Holds env d "items" i ∧ Holds env d "properties" p ∧
        Holds env d "required" r := by
  rw [validates_insertSome env (a.keywords_nodup i p r)]
  -- names are distinct, so each keyword is judged by itself
  change (∀ e ∈ a.keywords i p r, Holds env d e.1 e.2) ↔ _
  simp only [FieldAttrs.keywords, List.forall_mem_cons, List.not_mem_nil, false_implies,
    implies_true, and_true, holds_type, keywordHolds_description, holds_map, keywordHolds_enum,
    keywordHolds_format, keywordHolds_minimum, keywordHolds_maximum, keywordHolds_minLength,
    keywordHolds_maxLength, keywordHolds_pattern, keywordHolds_minItems, keywordHolds_maxItems,
    holds_uniqueItems, true_and]
  constructor
  · rintro ⟨htype, henum, hfmt, hmin, hmax, hminL, hmaxL, hpat, hminI, hmaxI, huniq, -, hrest⟩
    exact ⟨⟨htype, henum, hfmt, hmin, hmax, hminL, hmaxL, hpat, hminI, hmaxI, huniq⟩, hrest⟩
  · rintro ⟨h, hrest⟩
    exact ⟨h.type, h.enum, h.format, h.minimum, h.maximum, h.minLength, h.maxLength, h.pattern,
      h.minItems, h.maxItems, h.uniqueItems, fun x _ => keywordHolds_default env d x, hrest⟩

/-- **What the schema of a field accepts**: its attributes, and for an array or an
object what it says about items or properties. -/
theorem validates_fieldToJsonSchema (t : FieldTree) (d : Json) :
    validates env (fieldToJsonSchema t) d = true ↔
      t.attrs.Accepts env d ∧
        (t.attrs.type = .array → ∀ i, t.items = some i →
          ∀ v ∈ d.elements, validates env (itemsSchema i) v = true) ∧
        (t.attrs.type = .object → ∀ ps, t.properties = some ps → FieldsAccept env ps d) := by
  obtain ⟨a, items, properties⟩ := t
  have hprops : ∀ ps, FieldsAccept env ps d ↔ Holds env d "properties"
      (some (.object (fieldSchemas ps))) ∧ Holds env d "required" (requiredJson ps) :=
    fun ps => (fieldsAccept_iff env ps d).symm
  have hitems : ∀ i, Holds env d "items" (some (itemsSchema i)) ↔
      ∀ v ∈ d.elements, validates env (itemsSchema i) v = true := by
    intro i
    rw [← keywordHolds_items]
    exact ⟨fun h => h _ rfl, fun h x hx => Option.some.inj hx ▸ h⟩
  rw [fieldToJsonSchema_mk, validates_keywords]
  refine and_congr_right fun _ => ?_
  -- only the type decides which of the two nested parts is projected
  cases htype : a.type with
  | array =>
      cases items with
      | none => simp [FieldTree.attrs, FieldTree.items, htype, holds_none]
      | some i => simp [FieldTree.attrs, FieldTree.items, htype, holds_none, hitems]
  | object =>
      cases properties with
      | none => simp [FieldTree.attrs, FieldTree.properties, htype, holds_none]
      | some ps => simp [FieldTree.attrs, FieldTree.properties, htype, holds_none, hprops]
  | _ => simp [FieldTree.attrs, htype, holds_none]

theorem itemsSchema_object (properties : Option (List (String × FieldTree))) :
    itemsSchema (.mk .object properties) = propertiesToJsonSchema (properties.getD []) := by
  cases properties <;> rw [itemsSchema] <;> rfl

/-- What the schema of the items of an array accepts. -/
theorem validates_itemsSchema (i : ItemsTree) (d : Json) :
    validates env (itemsSchema i) d = true ↔
      hasType i.type.name d = true ∧
        (i.type = .object → FieldsAccept env (i.properties.getD []) d) := by
  obtain ⟨ty, properties⟩ := i
  cases ty with
  | string =>
      rw [itemsSchema, validates_iff, List.forall_mem_singleton]
      simp [ItemsTree.type, keywordHolds, asserts]
  | object =>
      rw [itemsSchema_object, validates_propertiesToJsonSchema, ← hasType_object_iff]
      simp [ItemsTree.type, ItemsTree.properties, ArrayItemType.name]

end Meaning

end Yorishiro.Metaschema
