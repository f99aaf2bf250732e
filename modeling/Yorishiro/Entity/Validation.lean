import Yorishiro.Metaschema.Compatibility
import Yorishiro.Metaschema.WellFormed

/-!
# Validation of entity data

`validate_data` builds a validator from the projection of an entity type and asks
it for the problems of a value. The JSON Schema library is a `Validator`: what it
reports is its own, but it reports nothing exactly for the values that the schema
accepts.
-/

set_option autoImplicit false

namespace Yorishiro.Entity

open Yorishiro.Lib Yorishiro.Lib.JsonSchema Yorishiro.Metaschema

/-- A problem the JSON Schema library reports: where in the value it is, the property
that is missing when that is the problem, and the text. -/
structure SchemaError where
  instancePath : String
  missing : Option Json
  message : String

/-- The JSON Schema library: its dialect, the problems it finds, and the text with which
it refuses a schema. -/
structure Validator where
  env : Dialect
  iterErrors : Json → Json → List SchemaError
  refusal : Json → String
  iterErrors_eq_nil : ∀ schema d, iterErrors schema d = [] ↔ validates env schema d = true

/-- `error_field_pointer`. -/
def errorFieldPointer (err : SchemaError) : String :=
  match err.missing.bind Json.asStr with
  | some name => err.instancePath ++ "/" ++ escapePointerSegment name
  | none => err.instancePath

/-- `validate_data`. -/
def validateData (v : Validator) (entityTypeDef : EntityTypeDef) (data : Json) :
    Except YorishiroError Unit :=
  let schema := entityTypeToJsonSchema entityTypeDef
  if compiles v.env schema then
    -- every problem is reported, under the pointer of the field it is about
    let details := (v.iterErrors schema data).map fun err =>
      { field := errorFieldPointer err
        problem := err.message
        code := .other
        expected := none
        actual := none }
    if details.isEmpty then .ok ()
    else .error (.validationFailed "entity data does not conform to its schema" details
      "Check the entity_type field definitions against the submitted data")
  else .error (.internal (.custom (v.refusal schema)))

/-- `resolve_entity_type`. -/
def resolveEntityType (definition : MetaSchemaDefinition) (entityType : String) :
    Except YorishiroError EntityTypeDef :=
  match definition.entityTypes.get? entityType with
  | some entityTypeDef => .ok entityTypeDef
  | none => .error (.notFound
      ("entity_type '" ++ entityType ++ "' is not defined in schema '" ++ definition.name ++ "'"))

theorem resolveEntityType_eq_ok {definition : MetaSchemaDefinition} {entityType : String}
    {t : EntityTypeDef} :
    resolveEntityType definition entityType = .ok t ↔
      definition.entityTypes.get? entityType = some t := by
  unfold resolveEntityType
  cases definition.entityTypes.get? entityType with
  | none => simp
  | some t' => simp

/-- What validation accepts, it accepts because the projection does. -/
theorem validates_of_validateData {v : Validator} {t : EntityTypeDef} {data : Json}
    (h : validateData v t data = .ok ()) :
    validates v.env (entityTypeToJsonSchema t) data = true := by
  simp only [validateData] at h
  split_ifs at h with _ hempty
  rw [← v.iterErrors_eq_nil]
  simpa using hempty

/-- For an entity type of a valid definition, validation accepts exactly what the
projection accepts. -/
theorem validateData_eq_ok_iff {v : Validator} {display : ℚ → String}
    {definition : MetaSchemaDefinition}
    (hdef : validateDefinition v.env display definition = .ok ()) {entityType : String}
    {t : EntityTypeDef} (ht : definition.entityTypes.get? entityType = some t) (data : Json) :
    validateData v t data = .ok () ↔ validates v.env (entityTypeToJsonSchema t) data = true := by
  refine ⟨validates_of_validateData, fun h => ?_⟩
  -- the projection of a validated definition always compiles, so no internal error is left
  have hcompiles := compiles_entityTypeToJsonSchema hdef ht
  simp [validateData, hcompiles, (v.iterErrors_eq_nil _ _).mpr h]

/-! ## Valid definitions and their validators -/

/-- The validator of an entity type of a valid definition is always built. -/
theorem validateData_ne_internal {v : Validator} {display : ℚ → String}
    {definition : MetaSchemaDefinition}
    (hdef : validateDefinition v.env display definition = .ok ()) {entityType : String}
    {t : EntityTypeDef} (ht : definition.entityTypes.get? entityType = some t) (data : Json)
    (cause : DbErr) : validateData v t data ≠ .error (.internal cause) := by
  have hcompiles := compiles_entityTypeToJsonSchema hdef ht
  simp only [validateData, hcompiles, if_true]
  split_ifs
  · simp
  · simp

/-- **Validation of definitions is exact**, and what is projected from a valid definition is a
well-formed schema. A library that refuses none of those builds its validator. -/
theorem valid_definitions (env : Dialect) (display : ℚ → String)
    (definition : MetaSchemaDefinition) :
    (validateDefinition env display definition = .ok () ↔
      isBlank definition.name = false ∧ definition.Sound env) ∧
    (validateDefinition env display definition = .ok () →
      ∀ entityType t, definition.entityTypes.get? entityType = some t →
        wellFormed env (entityTypeToJsonSchema t) = true ∧
          (∀ builds : Json → Bool,
            (∀ schema, wellFormed env schema = true → builds schema = true) →
              builds (entityTypeToJsonSchema t) = true) ∧
          ∀ v : Validator, v.env = env → ∀ data cause,
            validateData v t data ≠ .error (.internal cause)) := by
  refine ⟨validateDefinition_eq_ok_iff, fun hdef entityType t ht => ?_⟩
  have hsound := (validateDefinition_eq_ok_iff.mp hdef).2
  have hschema := wellFormed_entityTypeToJsonSchema hsound ht
  refine ⟨hschema, fun builds hbuilds => hbuilds _ hschema, ?_⟩
  rintro v rfl data cause
  exact validateData_ne_internal hdef ht data cause

/-- A name of white space is not empty, but it is refused, in a definition that breaks no other
rule. -/
theorem not_valid_definitions_blank :
    ({ statusDefinition none with name := " " } : MetaSchemaDefinition).name ≠ "" ∧
      ({ statusDefinition none with name := " " } : MetaSchemaDefinition).Sound lenientDialect ∧
      validateDefinition lenientDialect (fun _ => "") { statusDefinition none with name := " " } ≠
        .ok () := by
  have hvalid :
      validateDefinition lenientDialect (fun _ => "") (statusDefinition none) = .ok () := by
    decide
  have hsound := (validateDefinition_eq_ok_iff.mp hvalid).2
  refine ⟨by decide, ⟨hsound.entityTypes, hsound.relations, hsound.fields⟩, fun h => ?_⟩
  exact absurd (validateDefinition_eq_ok_iff.mp h).1 (by decide)

end Yorishiro.Entity
