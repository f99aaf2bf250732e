import Yorishiro.Lib.SchemaKeywords
import Yorishiro.Metaschema.Changes
import Yorishiro.Metaschema.Projection
import Yorishiro.Metaschema.Validate

/-!
# Which definitions are valid

`validate_definition` collects problems on a walk that stops where something is missing or too
deep. The rules it enforces are said here without the walk: `FieldAttrs.Sound` and `FieldTree.Sound`
for one field, `MetaSchemaDefinition.Sound` for all fields that can be reached through object
properties and item properties, at their levels.

The walk finds no problem exactly when the rules hold (`validateDefinition_eq_ok_iff`). What is
projected from such a definition is a well-formed schema: every keyword is about the type it stands
with and has a value it takes (`wellFormed_entityTypeToJsonSchema`), so that no validator can refuse
it.
-/

set_option autoImplicit false

namespace Yorishiro.Metaschema

open Yorishiro.Lib
open Yorishiro.Lib.JsonSchema

/-! ## The rules -/

/-- A lower bound is at most the upper bound. -/
def BoundsMeet {α : Type} [LE α] (min max : Option α) : Prop :=
  ∀ lo hi, min = some lo → max = some hi → lo ≤ hi

/-- The rules about the attributes of a field. -/
structure FieldAttrs.Sound (env : Dialect) (a : FieldAttrs) : Prop where
  format : ∀ f, a.format = some f → a.type = .string ∧ f ∈ supportedFormats
  numeric : a.minimum.isSome = true ∨ a.maximum.isSome = true →
    a.type = .number ∨ a.type = .integer
  bounds : BoundsMeet a.minimum a.maximum
  text : a.minLength.isSome = true ∨ a.maxLength.isSome = true ∨ a.pattern.isSome = true →
    a.type = .string
  lengths : BoundsMeet a.minLength a.maxLength
  pattern : ∀ p, a.pattern = some p → (env.regex p).isSome = true
  list : a.minItems.isSome = true ∨ a.maxItems.isSome = true ∨ a.uniqueItems = true →
    a.type = .array
  counts : BoundsMeet a.minItems a.maxItems

/-- The rules about one field. -/
structure FieldTree.Sound (env : Dialect) (t : FieldTree) : Prop where
  attrs : t.attrs.Sound env
  items : t.attrs.type = .array → ∃ i, t.items = some i ∧
    (i.type = .object → ∃ ps, i.properties = some ps ∧ ps ≠ [])
  properties : t.attrs.type = .object → ∃ ps, t.properties = some ps ∧ ps ≠ []

/-- The fields nested in a field: the properties of an object, or of the items of an array of
objects. What the type makes irrelevant is not nested. -/
def FieldTree.nested (t : FieldTree) : List (String × FieldTree) :=
  match t.attrs.type with
  | .array => t.itemMap.getD []
  | .object => t.properties.getD []
  | _ => []

/-- The second field is nested in the first, so many levels below it. -/
inductive FieldTree.Reaches : FieldTree → Nat → FieldTree → Prop where
  | here (t : FieldTree) : Reaches t 0 t
  | step {t u : FieldTree} {e : String × FieldTree} {levels : Nat} (he : e ∈ t.nested)
      (h : Reaches e.2 levels u) : Reaches t (levels + 1) u

/-- The definition has the field at the level; the fields of an entity type are at level 1. -/
def MetaSchemaDefinition.Reaches (d : MetaSchemaDefinition) (level : Nat) (u : FieldTree) : Prop :=
  ∃ typeName t, d.entityTypes.get? typeName = some t ∧
    ∃ e ∈ t.trees, ∃ levels, e.2.Reaches levels u ∧ level = levels + 1

/-- The rules about a definition, apart from its name. -/
structure MetaSchemaDefinition.Sound (env : Dialect) (d : MetaSchemaDefinition) : Prop where
  entityTypes : d.entityTypes.entries ≠ []
  relations : ∀ name r, d.relationTypes.get? name = some r →
    (d.entityTypes.get? r.source).isSome = true ∧ (d.entityTypes.get? r.target).isSome = true
  fields : ∀ level u, d.Reaches level u → level ≤ maxObjectDepth ∧ u.Sound env

/-! ## One field -/

section Field

variable {env : Dialect} {display : ℚ → String}

theorem boundsDetail_eq_nil_iff {α : Type} [LinearOrder α] {render : α → String}
    {path minName maxName : String} {min max : Option α} :
    boundsDetail render path minName maxName min max = [] ↔ BoundsMeet min max := by
  unfold BoundsMeet
  cases min with
  | none => simp [boundsDetail]
  | some lo =>
      cases max with
      | none => simp [boundsDetail]
      | some hi => simp [boundsDetail, detailIf_eq_nil]

theorem validateFormat_eq_nil_iff {path : String} {a : FieldAttrs} :
    validateFormat path a = [] ↔
      ∀ f, a.format = some f → a.type = .string ∧ f ∈ supportedFormats := by
  unfold validateFormat
  cases hformat : a.format with
  | none => simp
  | some f =>
      by_cases htype : a.type = .string
      · simp [htype, detailIf_eq_nil]
      · simp [htype]

theorem validatePattern_eq_nil_iff {path : String} {a : FieldAttrs} :
    validatePattern env path a = [] ↔ ∀ p, a.pattern = some p → (env.regex p).isSome = true := by
  refine ⟨fun h p hp => validatePattern_eq_nil h hp, fun h => ?_⟩
  unfold validatePattern
  cases hpattern : a.pattern with
  | none => rfl
  | some p =>
      refine detailIf_eq_nil.mpr ?_
      simp [compiles, compilesAll, h p hpattern]

/-- The attributes have no problem exactly when they meet the rules. -/
theorem validateAttrs_eq_nil_iff {path : String} {a : FieldAttrs} :
    validateAttrs env display path a = [] ↔ a.Sound env := by
  simp only [validateAttrs, List.append_eq_nil_iff, validateFormat_eq_nil_iff, detailIf_eq_nil,
    boundsDetail_eq_nil_iff, validatePattern_eq_nil_iff, ← Bool.not_eq_true, Bool.and_eq_true,
    Bool.or_eq_true, decide_eq_true_eq, not_and]
  constructor
  · rintro ⟨⟨⟨⟨⟨⟨⟨hformat, hnumeric⟩, hbounds⟩, htext⟩, hlengths⟩, hpattern⟩, hlist⟩, hcounts⟩
    refine ⟨hformat, fun h => ?_, hbounds, fun h => ?_, hlengths, hpattern, fun h => ?_, hcounts⟩
    · by_contra hne
      exact hnumeric (not_or.mp hne) h
    · by_contra hne
      exact htext hne (or_assoc.mpr h)
    · by_contra hne
      exact hlist hne (or_assoc.mpr h)
  · intro h
    refine ⟨⟨⟨⟨⟨⟨⟨h.format, fun hne hset => ?_⟩, h.bounds⟩, fun hne hset => ?_⟩, h.lengths⟩,
      h.pattern⟩, fun hne hset => ?_⟩, h.counts⟩
    · exact (h.numeric hset).elim hne.1 hne.2
    · exact hne (h.text (or_assoc.mp hset))
    · exact hne (h.list (or_assoc.mp hset))

/-- The path under which the fields nested in a field are checked. -/
def nestedPath (path : String) (t : FieldTree) : String :=
  if t.attrs.type = .array then path ++ "/items/properties/" else path ++ "/properties/"

theorem FieldTree.nested_array {t : FieldTree} (h : t.attrs.type = .array) :
    t.nested = t.itemMap.getD [] := by
  rw [nested, h]

theorem FieldTree.nested_object {t : FieldTree} (h : t.attrs.type = .object) :
    t.nested = t.properties.getD [] := by
  rw [nested, h]

theorem FieldTree.nested_other {t : FieldTree} (harray : t.attrs.type ≠ .array)
    (hobject : t.attrs.type ≠ .object) : t.nested = [] := by
  rw [nested]
  split
  · exact absurd ‹_› harray
  · exact absurd ‹_› hobject
  · rfl

/-- A map that is there and not empty is checked one level further down. -/
theorem checked_eq_nil_iff {path slash : String} {depth : Nat} {e : String × FieldTree}
    {es : List (String × FieldTree)} :
    (if maxObjectDepth ≤ depth then [depthExceeded path depth]
      else validateFields env display slash (depth + 1) (e :: es)) = [] ↔
      ∀ c ∈ e :: es, depth < maxObjectDepth ∧
        validateField env display (slash ++ escapePointerSegment c.1) (depth + 1) c.2 = [] := by
  split_ifs with hdeep
  · refine iff_of_false (by simp) fun h => ?_
    exact absurd (h e List.mem_cons_self).1 (not_lt.mpr hdeep)
  · rw [validateFields_eq_nil_iff]
    exact forall₂_congr fun c _ => (and_iff_right (not_le.mp hdeep)).symm

theorem validateItems_eq_nil_iff {path : String} {depth : Nat} {i : ItemsTree} :
    validateItems env display path depth i = [] ↔
      i.type = .object → (∃ ps, i.properties = some ps ∧ ps ≠ []) ∧
        ∀ e ∈ i.properties.getD [], depth < maxObjectDepth ∧
          validateField env display (path ++ "/" ++ escapePointerSegment e.1) (depth + 1) e.2 =
            [] := by
  obtain ⟨ty, properties⟩ := i
  cases ty with
  | string => simp [validateItems, ItemsTree.type]
  | object =>
      cases properties with
      | none => simp [validateItems, ItemsTree.type, ItemsTree.properties]
      | some ps =>
          cases ps with
          | nil => simp [validateItems, ItemsTree.type, ItemsTree.properties]
          | cons e es =>
              rw [validateItems, checked_eq_nil_iff]
              exact ⟨fun h _ => ⟨⟨_, rfl, by simp⟩, h⟩, fun h => (h rfl).2⟩

/-- The part of `validate_field` about arrays. -/
theorem validateArray_eq_nil_iff {path : String} {depth : Nat} {items : Option ItemsTree} :
    (match items with
      | some i => validateItems env display (path ++ "/items/properties") depth i
      | none => [missingItems path]) = [] ↔
      (∃ i, items = some i ∧ (i.type = .object → ∃ ps, i.properties = some ps ∧ ps ≠ [])) ∧
        ∀ i, items = some i → i.type = .object → ∀ e ∈ i.properties.getD [],
          depth < maxObjectDepth ∧ validateField env display
            (path ++ "/items/properties/" ++ escapePointerSegment e.1) (depth + 1) e.2 = [] := by
  have hslash : path ++ "/items/properties" ++ "/" = path ++ "/items/properties/" := by
    rw [String.append_assoc]
    rfl
  cases items with
  | none => simp
  | some i =>
      simp only [validateItems_eq_nil_iff, hslash, Option.some.injEq, exists_eq_left', forall_eq']
      exact ⟨fun h => ⟨fun hobject => (h hobject).1, fun hobject => (h hobject).2⟩,
        fun h hobject => ⟨h.1 hobject, h.2 hobject⟩⟩

/-- The part of `validate_field` about objects. -/
theorem validateObject_eq_nil_iff {path : String} {depth : Nat}
    {properties : Option (List (String × FieldTree))} :
    (match properties with
      | some (e :: es) =>
          if maxObjectDepth ≤ depth then [depthExceeded (path ++ "/properties") depth]
          else validateFields env display (path ++ "/properties/") (depth + 1) (e :: es)
      | _ => [emptyProperties path "object field requires non-empty properties"]) = [] ↔
      (∃ ps, properties = some ps ∧ ps ≠ []) ∧ ∀ e ∈ properties.getD [],
        depth < maxObjectDepth ∧ validateField env display
          (path ++ "/properties/" ++ escapePointerSegment e.1) (depth + 1) e.2 = [] := by
  cases properties with
  | none => simp
  | some ps =>
      cases ps with
      | nil => simp
      | cons e es =>
          rw [checked_eq_nil_iff]
          exact ⟨fun h => ⟨⟨_, rfl, by simp⟩, h⟩, fun h => h.2⟩

/-- A field has no problem exactly when it meets the rules and the fields nested in it, which are
not too deep, have none. -/
theorem validateField_eq_nil_iff {path : String} {depth : Nat} {t : FieldTree} :
    validateField env display path depth t = [] ↔
      t.Sound env ∧ ∀ e ∈ t.nested, depth < maxObjectDepth ∧
        validateField env display (nestedPath path t ++ escapePointerSegment e.1) (depth + 1) e.2 =
          [] := by
  obtain ⟨a, items, properties⟩ := t
  rw [validateField_mk, List.append_eq_nil_iff, List.append_eq_nil_iff, validateAttrs_eq_nil_iff]
  by_cases harray : a.type = .array
  · have hobject : a.type ≠ .object := by
      rw [harray]
      decide
    have hnested : (FieldTree.mk a items properties).nested =
        (FieldTree.mk a items properties).itemMap.getD [] := FieldTree.nested_array harray
    have hpath : nestedPath path (.mk a items properties) = path ++ "/items/properties/" :=
      if_pos harray
    have hmem : ∀ e, e ∈ (FieldTree.mk a items properties).itemMap.getD [] ↔
        ∃ i, items = some i ∧ i.type = .object ∧ e ∈ i.properties.getD [] := by
      intro e
      cases items with
      | none => simp [FieldTree.itemMap, FieldTree.items]
      | some i =>
          by_cases hobjects : i.type = .object
          · simp [FieldTree.itemMap, FieldTree.items, hobjects]
          · simp [FieldTree.itemMap, FieldTree.items, hobjects]
    rw [if_pos harray, if_neg hobject, hnested, hpath]
    constructor
    · rintro ⟨⟨hpart, -⟩, hattrs⟩
      obtain ⟨hitems, hfields⟩ := validateArray_eq_nil_iff.mp hpart
      refine ⟨⟨hattrs, fun _ => hitems, fun h => absurd h hobject⟩, fun e he => ?_⟩
      obtain ⟨i, hi, hobjects, he⟩ := (hmem e).mp he
      exact hfields i hi hobjects e he
    · rintro ⟨hsound, hfields⟩
      refine ⟨⟨validateArray_eq_nil_iff.mpr ⟨hsound.items harray, fun i hi hobjects e he => ?_⟩,
        rfl⟩, hsound.attrs⟩
      exact hfields e ((hmem e).mpr ⟨i, hi, hobjects, he⟩)
  · have hpath : nestedPath path (.mk a items properties) = path ++ "/properties/" :=
      if_neg harray
    by_cases hobject : a.type = .object
    · have hnested : (FieldTree.mk a items properties).nested = properties.getD [] :=
        FieldTree.nested_object hobject
      rw [if_neg harray, if_pos hobject, hnested, hpath]
      constructor
      · rintro ⟨⟨-, hpart⟩, hattrs⟩
        obtain ⟨hproperties, hfields⟩ := validateObject_eq_nil_iff.mp hpart
        exact ⟨⟨hattrs, fun h => absurd h harray, fun _ => hproperties⟩, hfields⟩
      · rintro ⟨hsound, hfields⟩
        exact ⟨⟨rfl, validateObject_eq_nil_iff.mpr ⟨hsound.properties hobject, hfields⟩⟩,
          hsound.attrs⟩
    · have hnested : (FieldTree.mk a items properties).nested = [] :=
        FieldTree.nested_other harray hobject
      rw [if_neg harray, if_neg hobject, hnested]
      constructor
      · rintro ⟨-, hattrs⟩
        exact ⟨⟨hattrs, fun h => absurd h harray, fun h => absurd h hobject⟩, by simp⟩
      · rintro ⟨hsound, -⟩
        exact ⟨⟨rfl, rfl⟩, hsound.attrs⟩

theorem FieldTree.mem_children_of_nested {t : FieldTree} {e : String × FieldTree}
    (he : e ∈ t.nested) : e ∈ t.children := by
  by_cases harray : t.attrs.type = .array
  · rw [nested_array harray] at he
    cases hmap : t.itemMap with
    | none => simp [hmap] at he
    | some ps =>
        obtain ⟨i, hi, -, hps⟩ := itemMap_eq_some.mp hmap
        rw [hmap, Option.getD_some, ← hps] at he
        apply List.mem_append_left
        rw [hi]
        exact he
  · by_cases hobject : t.attrs.type = .object
    · rw [nested_object hobject] at he
      exact List.mem_append_right _ he
    · rw [nested_other harray hobject] at he
      cases he

/-- **The walk finds a problem exactly where a rule is broken**: a field within the depth that is
allowed has none when all fields nested in it, at every depth, meet the rules and are not too
deep. -/
theorem validateField_eq_nil_iff_reaches (t : FieldTree) :
    ∀ path depth, depth ≤ maxObjectDepth → (validateField env display path depth t = [] ↔
      ∀ levels u, t.Reaches levels u → depth + levels ≤ maxObjectDepth ∧ u.Sound env) := by
  induction t using FieldTree.rec' with
  | h t ih =>
      intro path depth hdepth
      rw [validateField_eq_nil_iff]
      constructor
      · rintro ⟨hsound, hnested⟩ levels u hreaches
        cases hreaches with
        | here => exact ⟨hdepth, hsound⟩
        | step he hbelow =>
            rename_i e levels
            obtain ⟨hdeep, hfield⟩ := hnested e he
            obtain ⟨hlevel, hu⟩ := (ih e (FieldTree.mem_children_of_nested he) _ _ hdeep).mp hfield
              levels u hbelow
            exact ⟨by omega, hu⟩
      · intro h
        refine ⟨(h 0 t (.here t)).2, fun e he => ?_⟩
        have hdeep : depth + 1 ≤ maxObjectDepth := (h 1 e.2 (.step he (.here e.2))).1
        refine ⟨hdeep, (ih e (FieldTree.mem_children_of_nested he) _ _ hdeep).mpr ?_⟩
        intro levels u hbelow
        obtain ⟨hlevel, hu⟩ := h (levels + 1) u (.step he hbelow)
        exact ⟨by omega, hu⟩

end Field

/-! ## Definitions -/

section Definition

variable {env : Dialect} {display : ℚ → String} {definition : MetaSchemaDefinition}

theorem validateRelation_eq_nil_iff {name : String} {r : RelationTypeDef} :
    validateRelation definition name r = [] ↔
      (definition.entityTypes.get? r.source).isSome = true ∧
        (definition.entityTypes.get? r.target).isSome = true := by
  rw [validateRelation, List.append_eq_nil_iff, detailIf_eq_nil, detailIf_eq_nil]
  simp [Option.isSome_iff_ne_none]

theorem definitionDetails_eq_nil_iff :
    definitionDetails env display definition = [] ↔
      isBlank definition.name = false ∧ definition.Sound env := by
  simp only [definitionDetails, List.append_eq_nil_iff, detailIf_eq_nil, List.flatMap_eq_nil_iff,
    Prod.forall, OrderedMap.mem_entries_iff, validateFields_eq_nil_iff,
    validateRelation_eq_nil_iff, List.isEmpty_eq_false_iff]
  constructor
  · rintro ⟨⟨⟨hname, htypes⟩, hfields⟩, hrelations⟩
    refine ⟨hname, htypes, hrelations, ?_⟩
    rintro _ u ⟨typeName, t, ht, e, he, levels, hreaches, rfl⟩
    obtain ⟨hlevel, hu⟩ := (validateField_eq_nil_iff_reaches e.2 _ 1 (by decide)).mp
      (hfields typeName t ht e.1 e.2 he) levels u hreaches
    exact ⟨by omega, hu⟩
  · rintro ⟨hname, htypes, hrelations, hfields⟩
    refine ⟨⟨⟨hname, htypes⟩, fun typeName t ht name u he => ?_⟩, hrelations⟩
    refine (validateField_eq_nil_iff_reaches u _ 1 (by decide)).mpr fun levels v hreaches => ?_
    obtain ⟨hlevel, hv⟩ := hfields (levels + 1) v ⟨typeName, t, ht, (name, u), he, levels, hreaches,
      rfl⟩
    exact ⟨by omega, hv⟩

/-- **Validation is exact.** -/
theorem validateDefinition_eq_ok_iff :
    validateDefinition env display definition = .ok () ↔
      isBlank definition.name = false ∧ definition.Sound env := by
  rw [← definitionDetails_eq_nil_iff, validateDefinition]
  split_ifs with hempty
  · exact iff_of_true rfl (List.isEmpty_iff.mp hempty)
  · exact iff_of_false (by simp) fun h => hempty (List.isEmpty_iff.mpr h)

end Definition

/-! ## The projection -/

section Projection

variable {env : Dialect}

theorem typeNames_contains (type : FieldTypeName) : typeNames.contains type.name = true := by
  cases type <;> decide

theorem isCount_natJson (n : Nat) : isCount (natJson n) = true := by
  simp [isCount, natJson]

theorem allDistinct_map_string {names : List String} (h : names.Nodup) :
    allDistinct (names.map Json.string) = true := by
  induction names with
  | nil => rfl
  | cons name names ih =>
      obtain ⟨hnot, htail⟩ := List.nodup_cons.mp h
      rw [List.map_cons, allDistinct, Bool.and_eq_true, ih htail]
      refine ⟨List.all_eq_true.mpr ?_, rfl⟩
      rintro _ hmem
      obtain ⟨other, hother, rfl⟩ := List.mem_map.mp hmem
      rw [Bool.not_eq_true', ← Bool.not_eq_true, sameValue_string]
      rintro ⟨⟩
      exact hnot hother

/-- The required members are named once each. -/
theorem fits_requiredJson {fields : List (String × FieldTree)} (hsorted : Entries.Sorted fields)
    {x : Json} (hx : requiredJson fields = some x) : fits env "required" x = true := by
  simp only [requiredJson] at hx
  split_ifs at hx
  cases hx
  have hnodup : ((fields.filter fun e => e.2.attrs.required).map Prod.fst).Nodup := by
    refine List.Nodup.sublist (List.filter_sublist.map Prod.fst) ?_
    exact (List.pairwise_map.mpr hsorted).imp fun h => ne_of_lt h
  simp only [fits, takes, stringsJson, String.reduceEq, if_false, or_self, if_true,
    Bool.and_eq_true, allDistinct_map_string hnodup, and_true]
  simp [List.all_eq_true, isText]

/-- The member schemas are well formed if those of the fields are. -/
theorem fits_fieldSchemas {fields : List (String × FieldTree)}
    (h : ∀ e ∈ fields, wellFormed env (fieldToJsonSchema e.2) = true) :
    fits env "properties" (.object (fieldSchemas fields)) = true := by
  rw [fits, if_neg (by decide), if_pos rfl]
  refine (allWellFormed_iff _).mpr ?_
  rw [fieldSchemas_eq_map]
  exact List.forall_mem_map.mpr h

theorem wellFormed_propertiesToJsonSchema {fields : List (String × FieldTree)}
    (hsorted : Entries.Sorted fields)
    (h : ∀ e ∈ fields, wellFormed env (fieldToJsonSchema e.2) = true) :
    wellFormed env (propertiesToJsonSchema fields) = true := by
  refine wellFormed_insertSome (by simp) List.mem_cons_self ?_
  simp only [List.forall_mem_cons, List.not_mem_nil, false_implies, implies_true, and_true]
  refine ⟨?_, ?_, ?_⟩
  · rintro x ⟨⟩
    exact ⟨by decide, rfl⟩
  · rintro x ⟨⟩
    exact ⟨by decide, fits_fieldSchemas h⟩
  · exact fun x hx => ⟨by decide, fits_requiredJson hsorted hx⟩

theorem wellFormed_itemsSchema {i : ItemsTree}
    (h : i.type = .object →
      wellFormed env (propertiesToJsonSchema (i.properties.getD [])) = true) :
    wellFormed env (itemsSchema i) = true := by
  obtain ⟨ty, properties⟩ := i
  cases ty with
  | string =>
      rw [itemsSchema]
      rfl
  | object =>
      rw [itemsSchema_object]
      exact h rfl

theorem applies_any (type : String) :
    ∀ k ∈ ["type", "description", "enum", "default"], applies type k = true := by
  intro k hk
  have hcontains : ["type", "description", "enum", "default"].contains k = true :=
    List.contains_iff_mem.mpr hk
  simp only [applies, hcontains, Bool.true_or]

theorem applies_text :
    ∀ k ∈ ["format", "minLength", "maxLength", "pattern"], applies "string" k = true := by
  decide

theorem applies_list :
    ∀ k ∈ ["minItems", "maxItems", "uniqueItems", "items"], applies "array" k = true := by
  decide

theorem applies_numeric {type : FieldTypeName} (h : type = .number ∨ type = .integer) :
    ∀ k ∈ ["minimum", "maximum"], applies type.name k = true := by
  rcases h with rfl | rfl
  · decide
  · decide

/-- A schema built from attributes that meet the rules is well formed, if what is nested in it
is. -/
theorem wellFormed_keywords {a : FieldAttrs} (h : a.Sound env)
    {items properties required : Option Json}
    (hitems : ∀ x, items = some x →
      applies a.type.name "items" = true ∧ fits env "items" x = true)
    (hproperties : ∀ x, properties = some x →
      applies a.type.name "properties" = true ∧ fits env "properties" x = true)
    (hrequired : ∀ x, required = some x →
      applies a.type.name "required" = true ∧ fits env "required" x = true) :
    wellFormed env (.object (Entries.insertSome (a.keywords items properties required) [])) =
      true := by
  have htext : a.type = .string → ∀ k ∈ ["format", "minLength", "maxLength", "pattern"],
      applies a.type.name k = true := by
    intro htype
    rw [htype]
    exact applies_text
  have hlist : a.type = .array → ∀ k ∈ ["minItems", "maxItems", "uniqueItems", "items"],
      applies a.type.name k = true := by
    intro htype
    rw [htype]
    exact applies_list
  refine wellFormed_insertSome (a.keywords_nodup _ _ _) List.mem_cons_self ?_
  simp only [FieldAttrs.keywords, List.forall_mem_cons, List.not_mem_nil, false_implies,
    implies_true, and_true]
  -- one keyword after the other, in the order of the projection
  refine ⟨?_, ?_, ?_, ?_, ?_, ?_, ?_, ?_, ?_, ?_, ?_, ?_, ?_, hitems, hproperties, hrequired⟩
  · rintro x ⟨⟩
    exact ⟨applies_any _ _ (by simp), typeNames_contains a.type⟩
  · intro x hx
    obtain ⟨text, -, rfl⟩ := Option.map_eq_some_iff.mp hx
    exact ⟨applies_any _ _ (by simp), rfl⟩
  · intro x hx
    obtain ⟨values, -, rfl⟩ := Option.map_eq_some_iff.mp hx
    exact ⟨applies_any _ _ (by simp), rfl⟩
  · intro x hx
    obtain ⟨f, hf, rfl⟩ := Option.map_eq_some_iff.mp hx
    exact ⟨htext (h.format f hf).1 _ (by simp), rfl⟩
  · intro x hx
    obtain ⟨q, hq, rfl⟩ := Option.map_eq_some_iff.mp hx
    exact ⟨applies_numeric (h.numeric (by simp [hq])) _ (by simp), rfl⟩
  · intro x hx
    obtain ⟨q, hq, rfl⟩ := Option.map_eq_some_iff.mp hx
    exact ⟨applies_numeric (h.numeric (by simp [hq])) _ (by simp), rfl⟩
  · intro x hx
    obtain ⟨n, hn, rfl⟩ := Option.map_eq_some_iff.mp hx
    exact ⟨htext (h.text (by simp [hn])) _ (by simp), isCount_natJson n⟩
  · intro x hx
    obtain ⟨n, hn, rfl⟩ := Option.map_eq_some_iff.mp hx
    exact ⟨htext (h.text (by simp [hn])) _ (by simp), isCount_natJson n⟩
  · intro x hx
    obtain ⟨p, hp, rfl⟩ := Option.map_eq_some_iff.mp hx
    exact ⟨htext (h.text (by simp [hp])) _ (by simp), h.pattern p hp⟩
  · intro x hx
    obtain ⟨n, hn, rfl⟩ := Option.map_eq_some_iff.mp hx
    exact ⟨hlist (h.list (by simp [hn])) _ (by simp), isCount_natJson n⟩
  · intro x hx
    obtain ⟨n, hn, rfl⟩ := Option.map_eq_some_iff.mp hx
    exact ⟨hlist (h.list (by simp [hn])) _ (by simp), isCount_natJson n⟩
  · intro x hx
    unfold flagJson at hx
    split_ifs at hx with hunique
    cases hx
    exact ⟨hlist (h.list (by simp [hunique])) _ (by simp), rfl⟩
  · intro x _
    exact ⟨applies_any _ _ (by simp), rfl⟩

/-- The schema of the items of an array is well formed if those of the fields nested in it are. -/
theorem fits_items {t : FieldTree} (hordered : t.ordered = true) (harray : t.attrs.type = .array)
    (hnested : ∀ e ∈ t.nested, e.2.ordered = true → wellFormed env (fieldToJsonSchema e.2) = true)
    {i : ItemsTree} (hi : t.items = some i) : fits env "items" (itemsSchema i) = true := by
  have hfits : fits env "items" (itemsSchema i) = wellFormed env (itemsSchema i) := if_pos rfl
  rw [hfits]
  refine wellFormed_itemsSchema fun hobjects => ?_
  have hbelow : t.itemMap = some (i.properties.getD []) :=
    FieldTree.itemMap_eq_some.mpr ⟨i, hi, hobjects, rfl⟩
  obtain ⟨hsorted, hbelowOrdered⟩ := FieldTree.orderedFields_itemMap hordered hbelow
  rw [FieldTree.nested_array harray, hbelow, Option.getD_some] at hnested
  exact wellFormed_propertiesToJsonSchema hsorted fun e he => hnested e he (hbelowOrdered e he)

/-- **The schema of a field is well formed** when the field and all that is nested in it meet the
rules. -/
theorem wellFormed_fieldToJsonSchema (t : FieldTree) :
    t.ordered = true → (∀ levels u, t.Reaches levels u → u.Sound env) →
      wellFormed env (fieldToJsonSchema t) = true := by
  induction t using FieldTree.rec' with
  | h t ih =>
      intro hordered hsound
      have hhere : t.Sound env := hsound 0 t (.here t)
      have hnested : ∀ e ∈ t.nested, e.2.ordered = true →
          wellFormed env (fieldToJsonSchema e.2) = true := by
        intro e he hordered
        refine ih e (FieldTree.mem_children_of_nested he) hordered ?_
        exact fun levels u hu => hsound (levels + 1) u (.step he hu)
      obtain ⟨a, items, properties⟩ := t
      have hattrs : a.Sound env := hhere.attrs
      rw [fieldToJsonSchema_mk]
      refine wellFormed_keywords hattrs (fun x hx => ?_) (fun x hx => ?_) fun x hx => ?_
      · split_ifs at hx with harray
        obtain ⟨i, hi, rfl⟩ := Option.map_eq_some_iff.mp hx
        exact ⟨by rw [harray]; decide, fits_items hordered harray hnested hi⟩
      · split_ifs at hx with hobject
        obtain ⟨ps, hps, rfl⟩ := Option.map_eq_some_iff.mp hx
        have hbelow := FieldTree.orderedFields_properties hordered hps
        have hfields : (FieldTree.mk a items properties).nested = properties.getD [] :=
          FieldTree.nested_object hobject
        rw [hfields, hps, Option.getD_some] at hnested
        refine ⟨by rw [hobject]; decide, fits_fieldSchemas fun e he => ?_⟩
        exact hnested e he (hbelow.2 e he)
      · split_ifs at hx with hobject
        obtain ⟨ps, hps, hrequired⟩ := Option.bind_eq_some_iff.mp hx
        have hbelow := FieldTree.orderedFields_properties hordered hps
        exact ⟨by rw [hobject]; decide, fits_requiredJson hbelow.1 hrequired⟩

/-- **What is projected from a definition that meets the rules is well formed.** -/
theorem wellFormed_entityTypeToJsonSchema {definition : MetaSchemaDefinition}
    (h : definition.Sound env) {typeName : String} {t : EntityTypeDef}
    (ht : definition.entityTypes.get? typeName = some t) :
    wellFormed env (entityTypeToJsonSchema t) = true := by
  refine wellFormed_propertiesToJsonSchema t.sorted_trees fun e he => ?_
  refine wellFormed_fieldToJsonSchema e.2 (t.ordered_of_mem he) fun levels u hu => ?_
  exact (h.fields (levels + 1) u ⟨typeName, t, ht, e, he, levels, hu, rfl⟩).2

end Projection

end Yorishiro.Metaschema
