import Yorishiro.Base.Error
import Yorishiro.Lib.JsonSchema
import Yorishiro.Metaschema.Versioning

/-!
# Validation of definitions

`validate_definition` with every problem it reports: the path of the field, the
text, the code, and what was expected and found. Whether a pattern compiles is
asked of the JSON Schema dialect, and how a bound is printed is a parameter.

`validateField_eq_nil` says what a field without problems looks like: an array has
items, an object has properties, their fields have no problems either, and its
pattern compiles.
-/

set_option autoImplicit false

namespace Yorishiro.Metaschema

open Yorishiro.Lib
open Yorishiro.Lib.JsonSchema

/-- `MAX_OBJECT_DEPTH`. -/
def maxObjectDepth : Nat := 5

/-- `escape_pointer_segment`: `~` and `/` are escaped, in that order. -/
def escapePointerSegment (segment : String) : String :=
  let tilde := segment.toList.flatMap fun c => if c = '~' then ['~', '0'] else [c]
  String.ofList (tilde.flatMap fun c => if c = '/' then ['~', '1'] else [c])

/-- White space in the sense of Rust's `char::is_whitespace`. -/
def isWhitespace (c : Char) : Bool :=
  let n := c.toNat
  (9 ≤ n && n ≤ 13) || n == 0x20 || n == 0x85 || n == 0xA0 || n == 0x1680 ||
    (0x2000 ≤ n && n ≤ 0x200A) || n == 0x2028 || n == 0x2029 || n == 0x202F || n == 0x205F ||
    n == 0x3000

/-- `trim().is_empty()`. -/
def isBlank (s : String) : Bool := s.toList.all isWhitespace

/-- The string formats a field may name. -/
def supportedFormats : List String := ["date", "date-time", "uri", "email", "uuid"]

/-- One problem, when the condition holds. -/
def detailIf (c : Bool) (detail : ValidationDetail) : List ValidationDetail :=
  if c then [detail] else []

theorem detailIf_eq_nil {c : Bool} {detail : ValidationDetail} :
    detailIf c detail = [] ↔ c = false := by
  cases c <;> simp [detailIf]

section Validate

variable (env : Dialect) (display : ℚ → String)

/-! ## Fields -/

/-- An attribute that belongs to other types than the field's. -/
def wrongType (path problem : String) (code : ValidationErrorCode) (expected : String)
    (type : FieldTypeName) : ValidationDetail where
  field := path
  problem := problem ++ type.debug
  code := code
  expected := some expected
  actual := some type.debug

/-- A lower bound above the upper bound. -/
def minExceedsMax (path minName maxName min max : String) : ValidationDetail where
  field := path
  problem := minName ++ " (" ++ min ++ ") must not exceed " ++ maxName ++ " (" ++ max ++ ")"
  code := .minExceedsMax
  expected := some ("<= " ++ max)
  actual := some min

/-- The problem with a pair of bounds, when the lower one exceeds the upper one. -/
def boundsDetail {α : Type} [LT α] [DecidableLT α] (render : α → String)
    (path minName maxName : String) (min max : Option α) : List ValidationDetail :=
  match min, max with
  | some lo, some hi =>
      detailIf (decide (hi < lo)) (minExceedsMax path minName maxName (render lo) (render hi))
  | _, _ => []

/-- The checks of `validate_field` on `format`. -/
def validateFormat (path : String) (a : FieldAttrs) : List ValidationDetail :=
  match a.format with
  | none => []
  | some format =>
      -- the format itself is only looked at when the type admits one
      if a.type ≠ .string then
        [wrongType (path ++ "/format")
          "format is only valid for string fields, but field type is " .typeMismatch "string" a.type]
      else
        detailIf (!supportedFormats.contains format)
          { field := path ++ "/format"
            problem := "unsupported string format '" ++ format ++
              "' (expected date / date-time / uri / email / uuid)"
            code := .unsupportedFormat
            expected := some "date / date-time / uri / email / uuid"
            actual := some format }

/-- The check of `validate_field` that a pattern compiles. -/
def validatePattern (path : String) (a : FieldAttrs) : List ValidationDetail :=
  match a.pattern with
  | none => []
  | some pattern =>
      detailIf (!compiles env (.object [("pattern", .string pattern)]))
        { field := path ++ "/pattern"
          problem := "invalid regular expression: '" ++ pattern ++ "'"
          code := .invalidPattern
          expected := some "valid regex"
          actual := some pattern }

/-- The part of `validate_field` that looks at the attributes of the field alone. -/
def validateAttrs (path : String) (a : FieldAttrs) : List ValidationDetail :=
  validateFormat path a ++
  detailIf (decide (a.type ≠ .number ∧ a.type ≠ .integer) &&
      (a.minimum.isSome || a.maximum.isSome))
    (wrongType path "minimum/maximum are only valid for number/integer fields, but field type is "
      .numericOnNonNumeric "number or integer" a.type) ++
  boundsDetail display path "minimum" "maximum" a.minimum a.maximum ++
  detailIf (decide (a.type ≠ .string) &&
      (a.minLength.isSome || a.maxLength.isSome || a.pattern.isSome))
    (wrongType path
      "minLength/maxLength/pattern are only valid for string fields, but field type is "
      .stringConstraintOnNonString "string" a.type) ++
  boundsDetail toString path "minLength" "maxLength" a.minLength a.maxLength ++
  validatePattern env path a ++
  detailIf (decide (a.type ≠ .array) &&
      (a.minItems.isSome || a.maxItems.isSome || a.uniqueItems))
    (wrongType path
      "minItems/maxItems/uniqueItems are only valid for array fields, but field type is "
      .arrayConstraintOnNonArray "array" a.type) ++
  boundsDetail toString path "minItems" "maxItems" a.minItems a.maxItems

/-- Nesting below `path` goes too deep. -/
def depthExceeded (path : String) (depth : Nat) : ValidationDetail where
  field := path
  problem := "object nesting exceeds max depth of " ++ toString maxObjectDepth
  code := .depthExceeded
  expected := some (toString maxObjectDepth)
  actual := some (toString depth)

/-- A property map is missing or empty. -/
def emptyProperties (path problem : String) : ValidationDetail where
  field := path
  problem := problem
  code := .emptyObjectProperties
  expected := some "non-empty properties"
  actual := none

/-- An array does not say what its items are. -/
def missingItems (path : String) : ValidationDetail where
  field := path ++ "/items"
  problem := "array field requires items.type = 'string' or 'object'"
  code := .emptyRequired
  expected := some "items.type"
  actual := none

mutual

/-- `validate_field`: the problems it reports about a field at `path` and `depth`. -/
def validateField (path : String) (depth : Nat) : FieldTree → List ValidationDetail
  | .mk a items properties =>
      (if a.type = .array then
        match items with
        | some i => validateItems (path ++ "/items/properties") depth i
        | none => [missingItems path]
      else []) ++
      (if a.type = .object then
        match properties with
        | some (e :: es) =>
            -- nothing below the limit is looked at any more
            if maxObjectDepth ≤ depth then [depthExceeded (path ++ "/properties") depth]
            else validateFields (path ++ "/properties/") (depth + 1) (e :: es)
        | _ => [emptyProperties path "object field requires non-empty properties"]
      else []) ++
      validateAttrs env display path a

/-- The part of `validate_field` about the items of an array. -/
def validateItems (path : String) (depth : Nat) : ItemsTree → List ValidationDetail
  -- properties of string items are ignored
  | .mk .string _ => []
  | .mk .object (some (e :: es)) =>
      if maxObjectDepth ≤ depth then [depthExceeded path depth]
      else validateFields (path ++ "/") (depth + 1) (e :: es)
  | .mk .object _ =>
      [emptyProperties path "array items.type = 'object' requires non-empty properties"]

/-- `validate_field` on every field of a map; `path` ends in a slash. -/
def validateFields (path : String) (depth : Nat) :
    List (String × FieldTree) → List ValidationDetail
  | [] => []
  | (name, t) :: fields =>
      validateField (path ++ escapePointerSegment name) depth t ++
        validateFields path depth fields

end

theorem validateField_mk (path : String) (depth : Nat) (a : FieldAttrs)
    (items : Option ItemsTree) (properties : Option (List (String × FieldTree))) :
    validateField env display path depth (.mk a items properties) =
      (if a.type = .array then
        match items with
        | some i => validateItems env display (path ++ "/items/properties") depth i
        | none => [missingItems path]
      else []) ++
      (if a.type = .object then
        match properties with
        | some (e :: es) =>
            if maxObjectDepth ≤ depth then [depthExceeded (path ++ "/properties") depth]
            else validateFields env display (path ++ "/properties/") (depth + 1) (e :: es)
        | _ => [emptyProperties path "object field requires non-empty properties"]
      else []) ++
      validateAttrs env display path a := by
  rw [validateField.eq_def]

/-! ## Definitions -/

/-- An end of a relation type that names no entity type. -/
def undefinedEntityType (path which name : String) : ValidationDetail where
  field := path ++ "/" ++ which
  problem := which ++ " entity type '" ++ name ++ "' is not defined in entity_types"
  code := .undefinedEntityType
  expected := some "defined in entity_types"
  actual := some name

/-- The checks on one relation type. -/
def validateRelation (definition : MetaSchemaDefinition) (relationName : String)
    (relation : RelationTypeDef) : List ValidationDetail :=
  let path := "/relation_types/" ++ escapePointerSegment relationName
  detailIf (definition.entityTypes.get? relation.source).isNone
    (undefinedEntityType path "source" relation.source) ++
  detailIf (definition.entityTypes.get? relation.target).isNone
    (undefinedEntityType path "target" relation.target)

/-- Every problem `validate_definition` finds. -/
def definitionDetails (definition : MetaSchemaDefinition) : List ValidationDetail :=
  detailIf (isBlank definition.name)
    { field := "/name"
      problem := "name must not be empty"
      code := .emptyRequired
      expected := none
      actual := none } ++
  detailIf definition.entityTypes.entries.isEmpty
    { field := "/entity_types"
      problem := "at least one entity type is required"
      code := .emptyRequired
      expected := some "1+"
      actual := some "0" } ++
  (definition.entityTypes.entries.flatMap fun e =>
    validateFields env display
      ("/entity_types/" ++ escapePointerSegment e.1 ++ "/fields/") 1 e.2.trees) ++
  (definition.relationTypes.entries.flatMap fun e => validateRelation definition e.1 e.2)

/-- `validate_definition`. -/
def validateDefinition (definition : MetaSchemaDefinition) : Except YorishiroError Unit :=
  let details := definitionDetails env display definition
  if details.isEmpty then .ok ()
  else .error (.validationFailed
    ("metaschema definition '" ++ definition.name ++ "' is invalid") details
    "Check the consistency between entity_types and relation_types")

/-! ## What a definition without problems looks like -/

variable {env display}

theorem validateFields_eq_nil_iff (path : String) (depth : Nat)
    (fields : List (String × FieldTree)) :
    validateFields env display path depth fields = [] ↔
      ∀ e ∈ fields,
        validateField env display (path ++ escapePointerSegment e.1) depth e.2 = [] := by
  induction fields with
  | nil => simp [validateFields]
  | cons e fields ih =>
      obtain ⟨name, t⟩ := e
      rw [validateFields, List.append_eq_nil_iff, ih, List.forall_mem_cons]

/-- Some check of the field, at some place of a definition, found no problem. -/
def FieldTree.Passes (env : Dialect) (display : ℚ → String) (t : FieldTree) : Prop :=
  ∃ path depth, validateField env display path depth t = []

theorem validatePattern_eq_nil {path : String} {a : FieldAttrs}
    (h : validatePattern env path a = []) {p : String} (hp : a.pattern = some p) :
    (env.regex p).isSome = true := by
  unfold validatePattern at h
  rw [hp] at h
  have hcompiles := detailIf_eq_nil.mp h
  simpa [compiles, compilesAll] using hcompiles

theorem validateItems_eq_nil {path : String} {depth : Nat} {i : ItemsTree}
    (h : validateItems env display path depth i = []) (hobject : i.type = .object) :
    ∀ e ∈ i.properties.getD [], e.2.Passes env display := by
  obtain ⟨ty, properties⟩ := i
  obtain rfl : ty = .object := hobject
  cases properties with
  | none =>
      intro e he
      cases he
  | some es =>
      cases es with
      | nil =>
          intro e he
          cases he
      | cons e es =>
          rw [validateItems] at h
          split_ifs at h
          intro e' he'
          exact ⟨_, _, (validateFields_eq_nil_iff _ _ _).mp h e' he'⟩

/-- The part of `validate_field` about the properties of an object. -/
theorem validateProperties_eq_nil {path : String} {depth : Nat}
    {properties : Option (List (String × FieldTree))}
    (h : (match properties with
      | some (e :: es) =>
          if maxObjectDepth ≤ depth then [depthExceeded (path ++ "/properties") depth]
          else validateFields env display (path ++ "/properties/") (depth + 1) (e :: es)
      | _ => [emptyProperties path "object field requires non-empty properties"]) = []) :
    ∃ ps, properties = some ps ∧ ∀ e ∈ ps, e.2.Passes env display := by
  cases properties with
  | none => cases h
  | some es =>
      cases es with
      | nil => cases h
      | cons e es =>
          simp only at h
          split_ifs at h
          refine ⟨_, rfl, fun e' he' => ?_⟩
          exact ⟨_, _, (validateFields_eq_nil_iff _ _ _).mp h e' he'⟩

/-- **A field without problems**: its items or properties are there when its type needs
them, their fields have no problems, and its pattern compiles. -/
theorem FieldTree.Passes.inv {t : FieldTree} (h : t.Passes env display) :
    (t.attrs.type = .array → ∃ i, t.items = some i ∧
      (i.type = .object → ∀ e ∈ i.properties.getD [], e.2.Passes env display)) ∧
    (t.attrs.type = .object → ∃ ps, t.properties = some ps ∧
      ∀ e ∈ ps, e.2.Passes env display) ∧
    ∀ p, t.attrs.pattern = some p → (env.regex p).isSome = true := by
  obtain ⟨path, depth, h⟩ := h
  obtain ⟨a, items, properties⟩ := t
  rw [validateField_mk] at h
  simp only [List.append_eq_nil_iff] at h
  -- the three parts of `validate_field`, each without a problem
  obtain ⟨⟨harray, hobject⟩, hattrs⟩ := h
  refine ⟨?_, ?_, ?_⟩
  · intro (htype : a.type = .array)
    rw [if_pos htype] at harray
    cases items with
    | none => cases harray
    | some i => exact ⟨i, rfl, validateItems_eq_nil harray⟩
  · intro (htype : a.type = .object)
    rw [if_pos htype] at hobject
    exact validateProperties_eq_nil hobject
  · intro p hp
    simp only [validateAttrs, List.append_eq_nil_iff] at hattrs
    exact validatePattern_eq_nil hattrs.1.1.2 hp

/-- A valid definition has no problem with any field of any entity type. -/
theorem validateDefinition_ok {definition : MetaSchemaDefinition}
    (h : validateDefinition env display definition = .ok ()) {typeName : String}
    {t : EntityTypeDef} (ht : definition.entityTypes.get? typeName = some t) :
    ∀ e ∈ t.trees, e.2.Passes env display := by
  -- acceptance is the absence of any problem, the fields' among them
  have hdetails : definitionDetails env display definition = [] := by
    simp only [validateDefinition] at h
    split at h
    case isTrue hempty => exact List.isEmpty_iff.mp hempty
    case isFalse => cases h
  simp only [definitionDetails, List.append_eq_nil_iff] at hdetails
  have hmem := (OrderedMap.mem_entries_iff definition.entityTypes typeName t).mpr ht
  have hfields := List.flatMap_eq_nil_iff.mp hdetails.1.2 (typeName, t) hmem
  intro e he
  exact ⟨_, _, (validateFields_eq_nil_iff _ _ _).mp hfields e he⟩

end Validate

end Yorishiro.Metaschema
