import Mathlib.Order.Basic
import Mathlib.Algebra.Order.Ring.Rat
import Yorishiro.Metaschema.Types

/-!
# Comparison of two versions of a definition

`diff` lists, in order and in words, what in a new version of a definition could
invalidate data of the old one. `diffFields` walks two field maps together and
recurses into the items and properties that both versions of a field have.

For each comparison there is a lemma that says what its silence means
(`raisedFloor_eq_false`, `loweredCeiling_eq_false`, `diffConstraints_eq_nil`,
`diffField_eq_nil`, `diffFields_eq_nil`).
-/

set_option autoImplicit false

namespace Yorishiro.Metaschema

open Yorishiro.Lib

/-! ## Bounds -/

/-- `lowered_ceiling`: an upper bound got stricter. -/
def loweredCeiling {α : Type} [LT α] [DecidableLT α] : Option α → Option α → Bool
  | none, some _ => true
  | some _, none => false
  | some old, some new => decide (new < old)
  | none, none => false

/-- `raised_floor`: a lower bound got stricter. -/
def raisedFloor {α : Type} [LT α] [DecidableLT α] : Option α → Option α → Bool
  | none, some _ => true
  | some _, none => false
  | some old, some new => decide (old < new)
  | none, none => false

section Bounds

variable {α : Type} [LinearOrder α] {old new : Option α}

/-- A ceiling that was not lowered still admits what the old one admitted. -/
theorem loweredCeiling_eq_false (h : loweredCeiling old new = false) {P : α → Prop}
    (hmono : ∀ a b, a ≤ b → P a → P b) (hold : ∀ a, old = some a → P a) :
    ∀ b, new = some b → P b := by
  rintro b rfl
  cases old with
  | none => cases h
  | some a =>
      have hle : a ≤ b := not_lt.mp (of_decide_eq_false h)
      exact hmono a b hle (hold a rfl)

/-- A floor that was not raised still admits what the old one admitted. -/
theorem raisedFloor_eq_false (h : raisedFloor old new = false) {P : α → Prop}
    (hanti : ∀ a b, a ≤ b → P b → P a) (hold : ∀ a, old = some a → P a) :
    ∀ b, new = some b → P b := by
  rintro b rfl
  cases old with
  | none => cases h
  | some a =>
      have hle : b ≤ a := not_lt.mp (of_decide_eq_false h)
      exact hanti b a hle (hold a rfl)

end Bounds

/-! ## The comparison -/

/-- A single reason, when the condition holds. -/
def reasonIf (c : Bool) (text : String) : List String := if c then [text] else []

theorem reasonIf_eq_nil {c : Bool} {text : String} : reasonIf c text = [] ↔ c = false := by
  cases c <;> simp [reasonIf]

/-- How Rust's `Debug` writes a field type. -/
def FieldTypeName.debug : FieldTypeName → String
  | .string => "String"
  | .number => "Number"
  | .integer => "Integer"
  | .boolean => "Boolean"
  | .array => "Array"
  | .object => "Object"

/-- A text that must stay the same is new, or differs: the two reasons for it. -/
def changedText (added changed : String) (old new : Option String) : List String :=
  -- a constraint that was dropped is no reason
  if old.isNone && new.isSome then [added]
  else reasonIf (decide (old ≠ new) && old.isSome && new.isSome) changed

/-- The enum values that were removed. -/
def removedEnum (field : String) : Option (List String) → Option (List String) → List String
  -- an enum that only the new version has is not looked at
  | some old, some new =>
      old.flatMap fun value =>
        reasonIf (!new.contains value) (field ++ " enum value '" ++ value ++ "' was removed")
  | _, _ => []

/-- The part of `diff_fields` about the constraints of one field, from the enum on. -/
def diffConstraints (path name : String) (old new : FieldAttrs) : List String :=
  let fp := fun attr : String => "field '" ++ path ++ "." ++ name ++ "' " ++ attr
  removedEnum ("field '" ++ path ++ "." ++ name ++ "'") old.enumValues new.enumValues ++
  changedText (fp "added a format constraint") (fp "changed its format constraint")
    old.format new.format ++
  reasonIf (raisedFloor old.minimum new.minimum) (fp "raised its minimum") ++
  reasonIf (loweredCeiling old.maximum new.maximum) (fp "lowered its maximum") ++
  reasonIf (raisedFloor old.minLength new.minLength) (fp "raised its minLength") ++
  reasonIf (loweredCeiling old.maxLength new.maxLength) (fp "lowered its maxLength") ++
  changedText (fp "added a pattern constraint") (fp "changed its pattern constraint")
    old.pattern new.pattern ++
  reasonIf (raisedFloor old.minItems new.minItems) (fp "raised its minItems") ++
  reasonIf (loweredCeiling old.maxItems new.maxItems) (fp "lowered its maxItems") ++
  reasonIf (!old.uniqueItems && new.uniqueItems) (fp "added uniqueItems constraint")

/-- The part of `diff_fields` about fields that only the new version has. -/
def addedRequired (path : String) (old new : List (String × FieldTree)) : List String :=
  new.flatMap fun e =>
    reasonIf ((Entries.get? e.1 old).isNone && e.2.attrs.required)
      ("new field '" ++ path ++ "." ++ e.1 ++ "' was added as required")

mutual

/-- The part of `diff_fields` about one field that both versions have. -/
def diffField (path name : String) : FieldTree → FieldTree → List String
  | .mk a items properties, new =>
      reasonIf (decide (a.type ≠ new.attrs.type))
        ("field '" ++ path ++ "." ++ name ++ "' changed type from " ++ a.type.debug ++ " to " ++
          new.attrs.type.debug) ++
      reasonIf (!a.required && new.attrs.required)
        ("field '" ++ path ++ "." ++ name ++ "' became required") ++
      -- items and properties are compared where both versions have them
      (match items with
        | some i => (new.items.map fun i' => diffItems (path ++ "." ++ name) i i').getD []
        | none => []) ++
      (match properties with
        | some ps =>
            (new.properties.map fun ps' =>
              diffShared (path ++ "." ++ name) ps ps' ++
                addedRequired (path ++ "." ++ name) ps ps').getD []
        | none => []) ++
      diffConstraints path name a new.attrs

/-- The part of `diff_fields` about the items of one field that both versions have. -/
def diffItems (field : String) : ItemsTree → ItemsTree → List String
  | .mk ty properties, new =>
      if ty ≠ new.type then
        ["field '" ++ field ++ "' array items type changed from '" ++ ty.name ++ "' to '" ++
          new.type.name ++ "'"]
      else if ty = .object then
        -- a missing property map counts as an empty one
        (match properties with
          | some ps =>
              diffShared (field ++ "[]") ps (new.properties.getD []) ++
                addedRequired (field ++ "[]") ps (new.properties.getD [])
          | none => addedRequired (field ++ "[]") [] (new.properties.getD []))
      else []

/-- The first loop of `diff_fields`: every field of the old version. -/
def diffShared (path : String) :
    List (String × FieldTree) → List (String × FieldTree) → List String
  | [], _ => []
  | (name, old) :: rest, new =>
      (match Entries.get? name new with
        | none => ["field '" ++ name ++ "' was removed from '" ++ path ++ "' (or renamed)"]
        | some t => diffField path name old t) ++ diffShared path rest new

end

/-- `diff_fields`: the reasons it pushes for two field maps under `path`. -/
def diffFields (path : String) (old new : List (String × FieldTree)) : List String :=
  diffShared path old new ++ addedRequired path old new

/-- The reasons about a part of a field that both versions have. -/
def whenBoth {α : Type} (f : α → α → List String) : Option α → Option α → List String
  | some old, some new => f old new
  | _, _ => []

theorem diffField_mk (path name : String) (a : FieldAttrs) (items : Option ItemsTree)
    (properties : Option (List (String × FieldTree))) (new : FieldTree) :
    diffField path name (.mk a items properties) new =
      reasonIf (decide (a.type ≠ new.attrs.type))
        ("field '" ++ path ++ "." ++ name ++ "' changed type from " ++ a.type.debug ++ " to " ++
          new.attrs.type.debug) ++
      reasonIf (!a.required && new.attrs.required)
        ("field '" ++ path ++ "." ++ name ++ "' became required") ++
      whenBoth (diffItems (path ++ "." ++ name)) items new.items ++
      whenBoth (diffFields (path ++ "." ++ name)) properties new.properties ++
      diffConstraints path name a new.attrs := by
  obtain ⟨b, items', properties'⟩ := new
  -- the match inside the recursion is `whenBoth` in each of its cases
  cases items <;> cases properties <;> rw [diffField] <;> cases items' <;> cases properties' <;>
    rfl

theorem diffItems_mk (field : String) (ty : ArrayItemType)
    (properties : Option (List (String × FieldTree))) (new : ItemsTree) :
    diffItems field (.mk ty properties) new =
      if ty ≠ new.type then
        ["field '" ++ field ++ "' array items type changed from '" ++ ty.name ++ "' to '" ++
          new.type.name ++ "'"]
      else if ty = .object then
        diffFields (field ++ "[]") (properties.getD []) (new.properties.getD [])
      else [] := by
  cases properties <;> rw [diffItems] <;> rfl

/-- The result of a comparison. -/
structure VersioningDiff where
  isBreaking : Bool
  reasons : List String
deriving DecidableEq, Repr

/-- The reasons about one entity type of the old version. -/
def diffEntityType (new : MetaSchemaDefinition) (typeName : String) (old : EntityTypeDef) :
    List String :=
  match new.entityTypes.get? typeName with
  | none => ["entity_type '" ++ typeName ++ "' was removed"]
  | some newType => diffFields typeName old.trees newType.trees

/-- The reasons about one relation type of the old version. -/
def diffRelationType (new : MetaSchemaDefinition) (relationName : String)
    (old : RelationTypeDef) : List String :=
  match new.relationTypes.get? relationName with
  | none => ["relation_type '" ++ relationName ++ "' was removed"]
  | some newRelation =>
      reasonIf (decide (old.source ≠ newRelation.source ∨ old.target ≠ newRelation.target))
        ("relation_type '" ++ relationName ++ "' source/target changed")

/-- `diff`. -/
def diff (old new : MetaSchemaDefinition) : VersioningDiff :=
  let reasons :=
    (old.entityTypes.entries.flatMap fun e => diffEntityType new e.1 e.2) ++
    (old.relationTypes.entries.flatMap fun e => diffRelationType new e.1 e.2)
  { isBreaking := !reasons.isEmpty, reasons := reasons }

/-! ## What silence means -/

section Silence

/-- `b` constrains a value no more than `a` does, apart from an enum that is new. -/
structure FieldAttrs.NoNarrower (a b : FieldAttrs) : Prop where
  enum : ∀ vs ws, a.enumValues = some vs → b.enumValues = some ws → ∀ v ∈ vs, v ∈ ws
  format : b.format = none ∨ b.format = a.format
  minimum : raisedFloor a.minimum b.minimum = false
  maximum : loweredCeiling a.maximum b.maximum = false
  minLength : raisedFloor a.minLength b.minLength = false
  maxLength : loweredCeiling a.maxLength b.maxLength = false
  pattern : b.pattern = none ∨ b.pattern = a.pattern
  minItems : raisedFloor a.minItems b.minItems = false
  maxItems : loweredCeiling a.maxItems b.maxItems = false
  uniqueItems : b.uniqueItems = true → a.uniqueItems = true

theorem changedText_eq_nil {added changed : String} {old new : Option String}
    (h : changedText added changed old new = []) : new = none ∨ new = old := by
  cases new with
  | none => exact Or.inl rfl
  | some b =>
      cases old with
      | none => cases h
      | some a =>
          have hsame : decide (some a ≠ some b) = false := by
            simpa using reasonIf_eq_nil.mp h
          exact Or.inr (not_not.mp (of_decide_eq_false hsame)).symm

theorem removedEnum_eq_nil {field : String} {old new : Option (List String)}
    (h : removedEnum field old new = []) {vs ws : List String} (hold : old = some vs)
    (hnew : new = some ws) : ∀ v ∈ vs, v ∈ ws := by
  subst hold hnew
  intro v hv
  have := reasonIf_eq_nil.mp (List.flatMap_eq_nil_iff.mp h v hv)
  simpa using this

theorem diffConstraints_eq_nil {path name : String} {a b : FieldAttrs}
    (h : diffConstraints path name a b = []) : a.NoNarrower b := by
  simp only [diffConstraints, List.append_eq_nil_iff, reasonIf_eq_nil] at h
  -- one silent part for each constraint, in the order of the comparison
  obtain ⟨⟨⟨⟨⟨⟨⟨⟨⟨henum, hfmt⟩, hmin⟩, hmax⟩, hminL⟩, hmaxL⟩, hpat⟩, hminI⟩, hmaxI⟩, huniq⟩ := h
  exact
    { enum := fun vs ws hvs hws => removedEnum_eq_nil henum hvs hws
      format := changedText_eq_nil hfmt
      minimum := hmin
      maximum := hmax
      minLength := hminL
      maxLength := hmaxL
      pattern := changedText_eq_nil hpat
      minItems := hminI
      maxItems := hmaxI
      uniqueItems := fun hb => by simpa [hb] using huniq }

theorem addedRequired_eq_nil {path : String} {old new : List (String × FieldTree)}
    (h : addedRequired path old new = []) {name : String} {t : FieldTree}
    (hmem : (name, t) ∈ new) (hold : Entries.get? name old = none) :
    t.attrs.required = false := by
  have := reasonIf_eq_nil.mp (List.flatMap_eq_nil_iff.mp h (name, t) hmem)
  simpa [hold] using this

theorem diffShared_eq_nil_iff (path : String) (old new : List (String × FieldTree)) :
    diffShared path old new = [] ↔
      ∀ e ∈ old, ∃ t, Entries.get? e.1 new = some t ∧ diffField path e.1 e.2 t = [] := by
  induction old with
  | nil => simp [diffShared]
  | cons e rest ih =>
      obtain ⟨name, old⟩ := e
      rw [List.forall_mem_cons, ← ih]
      cases hget : Entries.get? name new with
      | none => simp [diffShared, hget]
      | some t => simp [diffShared, hget]

/-- Silence about two field maps: every old field is still there and compares
silently, and a field that is new is not required. -/
theorem diffFields_eq_nil {path : String} {old new : List (String × FieldTree)}
    (h : diffFields path old new = []) :
    (∀ name t, Entries.get? name old = some t →
      ∃ t', Entries.get? name new = some t' ∧ diffField path name t t' = []) ∧
    ∀ name t', (name, t') ∈ new → Entries.get? name old = none → t'.attrs.required = false := by
  obtain ⟨hshared, hadded⟩ := List.append_eq_nil_iff.mp h
  constructor
  · intro name t hget
    exact (diffShared_eq_nil_iff path old new).mp hshared (name, t) (Entries.mem_of_get? hget)
  · intro name t' hmem hold
    exact addedRequired_eq_nil hadded hmem hold

/-- Silence about a field that both versions have. -/
theorem diffField_eq_nil {path name : String} {old new : FieldTree}
    (h : diffField path name old new = []) :
    old.attrs.type = new.attrs.type ∧
      (new.attrs.required = true → old.attrs.required = true) ∧
      (∀ i i', old.items = some i → new.items = some i' →
        diffItems (path ++ "." ++ name) i i' = []) ∧
      (∀ ps ps', old.properties = some ps → new.properties = some ps' →
        diffFields (path ++ "." ++ name) ps ps' = []) ∧
      old.attrs.NoNarrower new.attrs := by
  obtain ⟨a, items, properties⟩ := old
  rw [diffField_mk] at h
  simp only [List.append_eq_nil_iff, reasonIf_eq_nil] at h
  obtain ⟨⟨⟨⟨htype, hreq⟩, hitems⟩, hprops⟩, hcons⟩ := h
  refine ⟨not_not.mp (of_decide_eq_false htype), fun hb => ?_, ?_, ?_, diffConstraints_eq_nil hcons⟩
  · have := hreq
    rw [hb, Bool.and_true, Bool.not_eq_false'] at this
    exact this
  · rintro i i' rfl hi'
    rwa [hi'] at hitems
  · rintro ps ps' rfl hps'
    rwa [hps'] at hprops

/-- Silence about the items of a field: the same item type, and for objects silence
about their field maps, a missing one being empty. -/
theorem diffItems_eq_nil {field : String} {old new : ItemsTree}
    (h : diffItems field old new = []) :
    old.type = new.type ∧
      (old.type = .object → diffFields (field ++ "[]") (old.properties.getD [])
        (new.properties.getD []) = []) := by
  obtain ⟨ty, properties⟩ := old
  rw [diffItems_mk] at h
  split_ifs at h with htype hobject
  · exact ⟨not_not.mp htype, fun _ => h⟩
  · exact ⟨not_not.mp htype, fun hty => absurd hty hobject⟩

/-- Silence about two definitions: each entity type is still there, with silence
about its fields. -/
theorem diff_entityTypes {old new : MetaSchemaDefinition} (h : (diff old new).reasons = [])
    {typeName : String} {t : EntityTypeDef} (ht : old.entityTypes.get? typeName = some t) :
    ∃ t', new.entityTypes.get? typeName = some t' ∧
      diffFields typeName t.trees t'.trees = [] := by
  have hmem := (OrderedMap.mem_entries_iff old.entityTypes typeName t).mpr ht
  have htype : diffEntityType new typeName t = [] :=
    List.flatMap_eq_nil_iff.mp (List.append_eq_nil_iff.mp h).1 (typeName, t) hmem
  unfold diffEntityType at htype
  cases hget : new.entityTypes.get? typeName with
  | none => simp [hget] at htype
  | some t' => exact ⟨t', rfl, by simpa [hget] using htype⟩

end Silence

end Yorishiro.Metaschema
