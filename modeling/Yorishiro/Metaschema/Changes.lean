import Yorishiro.Metaschema.Versioning

/-!
# What a comparison reports

`diff` walks two definitions together. Here its verdict is said without the walk: a definition is a
tree of field maps, a position names one of them (`mapAt`), and `Changed old new` lists what can
differ between the maps that both definitions have at a position, or between their types.

A comparison is breaking exactly when something has changed in this sense (`isBreaking_iff`). From
that the two promises of the comparison are judged: every narrowing of a shared field is reported,
and silence composes. A new enum on a field that had none is the one narrowing that is not
reported, and what an intermediate version drops escapes both comparisons with it
(`narrowings_reported_iff`).
-/

set_option autoImplicit false

namespace Yorishiro.Metaschema

open Yorishiro.Lib

/-! ## Positions -/

/-- The map of the fields that the items of an array of objects have, a missing one being empty. -/
def FieldTree.itemMap (t : FieldTree) : Option (List (String × FieldTree)) :=
  t.items.bind fun i => if i.type = .object then some (i.properties.getD []) else none

/-- A step from a field map into a map that one of its fields nests. -/
inductive Into where
  | items (name : String)
  | properties (name : String)
deriving DecidableEq, Repr

/-- The field map one step below. -/
def Into.below (fields : List (String × FieldTree)) : Into → Option (List (String × FieldTree))
  | .items name => (Entries.get? name fields).bind FieldTree.itemMap
  | .properties name => (Entries.get? name fields).bind FieldTree.properties

/-- The field map at a position, through nested objects and arrays of objects. -/
def mapAt (fields : List (String × FieldTree)) : List Into → Option (List (String × FieldTree))
  | [] => some fields
  | step :: position => (step.below fields).bind fun m => mapAt m position

/-- The field map at a position of an entity type. -/
def MetaSchemaDefinition.mapAt (d : MetaSchemaDefinition) (typeName : String)
    (position : List Into) : Option (List (String × FieldTree)) :=
  (d.entityTypes.get? typeName).bind fun t => Metaschema.mapAt t.trees position

/-- A field of the map at a position of an entity type. -/
def MetaSchemaDefinition.fieldAt (d : MetaSchemaDefinition) (typeName : String)
    (position : List Into) (name : String) : Option FieldTree :=
  (d.mapAt typeName position).bind (Entries.get? name)

theorem MetaSchemaDefinition.fieldAt_eq_some {d : MetaSchemaDefinition} {typeName name : String}
    {position : List Into} {t : FieldTree} :
    d.fieldAt typeName position name = some t ↔
      ∃ ps, d.mapAt typeName position = some ps ∧ Entries.get? name ps = some t :=
  Option.bind_eq_some_iff

/-! ## Changes -/

/-- There is a bound where there was none, or one beyond the old one. -/
def Tightens {α : Type} (beyond : α → α → Prop) (old new : Option α) : Prop :=
  ∃ b, new = some b ∧ ∀ a, old = some a → beyond a b

/-- `b` narrows what `a` admits: a constraint that `a` lacked, a bound that is tighter, an enum
value that is gone, or a value that has to be there. An enum where there was none is apart
(`GainsEnum`). -/
inductive FieldAttrs.Narrows (a b : FieldAttrs) : Prop where
  | enumValue {vs ws : List String} {v : String} (hold : a.enumValues = some vs)
      (hnew : b.enumValues = some ws) (hv : v ∈ vs) (hgone : v ∉ ws)
  | format (hold : a.format = none) (hnew : b.format.isSome = true)
  | pattern (hold : a.pattern = none) (hnew : b.pattern.isSome = true)
  | minimum (h : Tightens (· < ·) a.minimum b.minimum)
  | maximum (h : Tightens (· > ·) a.maximum b.maximum)
  | minLength (h : Tightens (· < ·) a.minLength b.minLength)
  | maxLength (h : Tightens (· > ·) a.maxLength b.maxLength)
  | minItems (h : Tightens (· < ·) a.minItems b.minItems)
  | maxItems (h : Tightens (· > ·) a.maxItems b.maxItems)
  | uniqueItems (hold : a.uniqueItems = false) (hnew : b.uniqueItems = true)
  | required (hold : a.required = false) (hnew : b.required = true)

/-- `b` has an enum where `a` has none. -/
def FieldAttrs.GainsEnum (a b : FieldAttrs) : Prop :=
  a.enumValues = none ∧ b.enumValues.isSome = true

/-- What a comparison reports about the attributes of a field: what narrows it, and another format
or pattern. -/
inductive FieldAttrs.Changed (a b : FieldAttrs) : Prop where
  | narrowed (h : a.Narrows b)
  | format {x y : String} (hold : a.format = some x) (hnew : b.format = some y) (hne : x ≠ y)
  | pattern {x y : String} (hold : a.pattern = some x) (hnew : b.pattern = some y) (hne : x ≠ y)

/-- What a comparison reports about a field, apart from the maps it nests. -/
inductive FieldTree.Changed (t t' : FieldTree) : Prop where
  | type (h : t.attrs.type ≠ t'.attrs.type)
  | itemType {i i' : ItemsTree} (hold : t.items = some i) (hnew : t'.items = some i')
      (h : i.type ≠ i'.type)
  | attrs (h : t.attrs.Changed t'.attrs)

/-- What a comparison reports about a field map, apart from the maps its fields nest. -/
inductive MapChanged (ps qs : List (String × FieldTree)) : Prop where
  | removed {name : String} {t : FieldTree} (hold : Entries.get? name ps = some t)
      (hnew : Entries.get? name qs = none)
  | added {name : String} {t' : FieldTree} (hold : Entries.get? name ps = none)
      (hnew : Entries.get? name qs = some t') (h : t'.attrs.required = true)
  | changed {name : String} {t t' : FieldTree} (hold : Entries.get? name ps = some t)
      (hnew : Entries.get? name qs = some t') (h : t.Changed t')

/-- What a comparison reports about two definitions. -/
inductive MetaSchemaDefinition.Changed (old new : MetaSchemaDefinition) : Prop where
  | entityType {typeName : String} {t : EntityTypeDef}
      (hold : old.entityTypes.get? typeName = some t) (hnew : new.entityTypes.get? typeName = none)
  | fields {typeName : String} {position : List Into} {ps qs : List (String × FieldTree)}
      (hold : old.mapAt typeName position = some ps) (hnew : new.mapAt typeName position = some qs)
      (h : MapChanged ps qs)
  | relationType {name : String} {r : RelationTypeDef} (hold : old.relationTypes.get? name = some r)
      (hnew : new.relationTypes.get? name = none)
  | endpoints {name : String} {r r' : RelationTypeDef} (hold : old.relationTypes.get? name = some r)
      (hnew : new.relationTypes.get? name = some r')
      (h : r.source ≠ r'.source ∨ r.target ≠ r'.target)

/-! ## Silence, exactly -/

section Bounds

variable {α : Type} [LT α] [DecidableLT α] {old new : Option α}

theorem raisedFloor_eq_true_iff : raisedFloor old new = true ↔ Tightens (· < ·) old new := by
  cases old <;> cases new <;> simp [raisedFloor, Tightens]

theorem loweredCeiling_eq_true_iff : loweredCeiling old new = true ↔ Tightens (· > ·) old new := by
  cases old <;> cases new <;> simp [loweredCeiling, Tightens]

end Bounds

section Fields

variable {path name : String}

theorem changedText_eq_nil_iff {added changed : String} {old new : Option String} :
    changedText added changed old new = [] ↔
      (old = none → new = none) ∧ ∀ x y, old = some x → new = some y → x = y := by
  cases old with
  | none =>
      cases new with
      | none => simp [changedText, reasonIf]
      | some y => simp [changedText]
  | some x =>
      cases new with
      | none => simp [changedText, reasonIf]
      | some y => simp [changedText, reasonIf_eq_nil]

theorem removedEnum_eq_nil_iff {field : String} {old new : Option (List String)} :
    removedEnum field old new = [] ↔
      ∀ vs ws, old = some vs → new = some ws → ∀ v ∈ vs, v ∈ ws := by
  refine ⟨fun h vs ws hold hnew => removedEnum_eq_nil h hold hnew, fun h => ?_⟩
  cases old with
  | none => rfl
  | some vs =>
      cases new with
      | none => rfl
      | some ws =>
          refine List.flatMap_eq_nil_iff.mpr fun v hv => reasonIf_eq_nil.mpr ?_
          simpa using h vs ws rfl rfl v hv

/-- The comparison of the attributes is silent exactly when nothing about them has changed. -/
theorem diffAttrs_eq_nil_iff {a b : FieldAttrs} {text : String} :
    reasonIf (!a.required && b.required) text = [] ∧ diffConstraints path name a b = [] ↔
      ¬a.Changed b := by
  simp only [diffConstraints, List.append_eq_nil_iff, reasonIf_eq_nil, changedText_eq_nil_iff,
    removedEnum_eq_nil_iff, ← Bool.not_eq_true, raisedFloor_eq_true_iff,
    loweredCeiling_eq_true_iff]
  constructor
  · rintro ⟨hreq, hcons⟩ h
    -- one silent part for each constraint, in the order of the comparison
    obtain ⟨⟨⟨⟨⟨⟨⟨⟨⟨henum, hfmt⟩, hmin⟩, hmax⟩, hminL⟩, hmaxL⟩, hpat⟩, hminI⟩, hmaxI⟩, huniq⟩ :=
      hcons
    cases h with
    | format hold hnew hne => exact hne (hfmt.2 _ _ hold hnew)
    | pattern hold hnew hne => exact hne (hpat.2 _ _ hold hnew)
    | narrowed h =>
        cases h with
        | enumValue hold hnew hv hgone => exact hgone (henum _ _ hold hnew _ hv)
        | format hold hnew => simp [hfmt.1 hold] at hnew
        | pattern hold hnew => simp [hpat.1 hold] at hnew
        | minimum h => exact hmin h
        | maximum h => exact hmax h
        | minLength h => exact hminL h
        | maxLength h => exact hmaxL h
        | minItems h => exact hminI h
        | maxItems h => exact hmaxI h
        | uniqueItems hold hnew => simp [hold, hnew] at huniq
        | required hold hnew => simp [hold, hnew] at hreq
  · intro h
    have hnarrow : ¬a.Narrows b := fun hn => h (.narrowed hn)
    refine ⟨?_, ⟨⟨⟨⟨⟨⟨⟨⟨⟨?_, ?_, ?_⟩, ?_⟩, ?_⟩, ?_⟩, ?_⟩, ?_, ?_⟩, ?_⟩, ?_⟩, ?_⟩⟩
    · intro hreq
      rw [Bool.and_eq_true, Bool.not_eq_true'] at hreq
      exact hnarrow (.required hreq.1 hreq.2)
    · intro vs ws hold hnew v hv
      by_contra hgone
      exact hnarrow (.enumValue hold hnew hv hgone)
    · intro hold
      by_contra hnew
      exact hnarrow (.format hold (Option.isSome_iff_ne_none.mpr hnew))
    · intro x y hold hnew
      by_contra hne
      exact h (.format hold hnew hne)
    · exact fun ht => hnarrow (.minimum ht)
    · exact fun ht => hnarrow (.maximum ht)
    · exact fun ht => hnarrow (.minLength ht)
    · exact fun ht => hnarrow (.maxLength ht)
    · intro hold
      by_contra hnew
      exact hnarrow (.pattern hold (Option.isSome_iff_ne_none.mpr hnew))
    · intro x y hold hnew
      by_contra hne
      exact h (.pattern hold hnew hne)
    · exact fun ht => hnarrow (.minItems ht)
    · exact fun ht => hnarrow (.maxItems ht)
    · intro huniq
      rw [Bool.and_eq_true, Bool.not_eq_true'] at huniq
      exact hnarrow (.uniqueItems huniq.1 huniq.2)

theorem FieldTree.itemMap_eq_some {t : FieldTree} {ps : List (String × FieldTree)} :
    t.itemMap = some ps ↔
      ∃ i, t.items = some i ∧ i.type = .object ∧ i.properties.getD [] = ps := by
  simp [itemMap, Option.bind_eq_some_iff]

theorem diffItems_eq_nil_iff {field : String} {i i' : ItemsTree} :
    diffItems field i i' = [] ↔
      i.type = i'.type ∧ (i.type = .object → diffFields (field ++ "[]") (i.properties.getD [])
        (i'.properties.getD []) = []) := by
  refine ⟨diffItems_eq_nil, ?_⟩
  obtain ⟨ty, ms⟩ := i
  rintro ⟨htype, hobjects⟩
  rw [diffItems_mk, if_neg (not_not.mpr (show ty = i'.type from htype))]
  split_ifs with hobject
  · exact hobjects hobject
  · rfl

/-- What is compared where both versions have it is silent exactly when it is silent on the two. -/
theorem whenBoth_eq_nil_iff {α : Type} {f : α → α → List String} {old new : Option α} :
    whenBoth f old new = [] ↔ ∀ x y, old = some x → new = some y → f x y = [] := by
  cases old <;> cases new <;> simp [whenBoth]

/-- The comparison of the items is silent when they have one type and the maps below them are. -/
theorem whenBoth_diffItems_eq_nil_iff {t t' : FieldTree} {field : String} :
    whenBoth (diffItems field) t.items t'.items = [] ↔
      (∀ i i', t.items = some i → t'.items = some i' → i.type = i'.type) ∧
        ∀ ps qs, t.itemMap = some ps → t'.itemMap = some qs →
          diffFields (field ++ "[]") ps qs = [] := by
  simp only [whenBoth_eq_nil_iff, diffItems_eq_nil_iff]
  constructor
  · intro h
    refine ⟨fun i i' hi hi' => (h i i' hi hi').1, fun ps qs hps hqs => ?_⟩
    obtain ⟨i, hi, hobject, rfl⟩ := FieldTree.itemMap_eq_some.mp hps
    obtain ⟨i', hi', -, rfl⟩ := FieldTree.itemMap_eq_some.mp hqs
    exact (h i i' hi hi').2 hobject
  · rintro ⟨htype, hmaps⟩ i i' hi hi'
    have hsame : i.type = i'.type := htype i i' hi hi'
    refine ⟨hsame, fun hobject => hmaps _ _ ?_ ?_⟩
    · exact FieldTree.itemMap_eq_some.mpr ⟨i, hi, hobject, rfl⟩
    · exact FieldTree.itemMap_eq_some.mpr ⟨i', hi', hsame.symm.trans hobject, rfl⟩

/-- The comparison of two fields is silent exactly when nothing about them has changed and the
comparisons of the maps they nest are silent. -/
theorem diffField_eq_nil_iff {t t' : FieldTree} :
    diffField path name t t' = [] ↔
      ¬t.Changed t' ∧
        (∀ ps qs, t.itemMap = some ps → t'.itemMap = some qs →
          diffFields (path ++ "." ++ name ++ "[]") ps qs = []) ∧
        ∀ ps qs, t.properties = some ps → t'.properties = some qs →
          diffFields (path ++ "." ++ name) ps qs = [] := by
  obtain ⟨a, items, properties⟩ := t
  have hattrs : ∀ text, reasonIf (!a.required && t'.attrs.required) text = [] ∧
      diffConstraints path name a t'.attrs = [] ↔ ¬a.Changed t'.attrs := fun _ =>
    diffAttrs_eq_nil_iff
  have hitems : whenBoth (diffItems (path ++ "." ++ name)) items t'.items = [] ↔ _ :=
    whenBoth_diffItems_eq_nil_iff (t := .mk a items properties)
  rw [diffField_mk, List.append_eq_nil_iff, List.append_eq_nil_iff, List.append_eq_nil_iff, hitems,
    whenBoth_eq_nil_iff, List.append_eq_nil_iff, reasonIf_eq_nil]
  constructor
  · rintro ⟨⟨⟨⟨htype, hreq⟩, hitemType, hitemMap⟩, hprops⟩, hcons⟩
    refine ⟨?_, hitemMap, hprops⟩
    rintro (h | ⟨hold, hnew, h⟩ | h)
    · exact of_decide_eq_false htype h
    · exact h (hitemType _ _ hold hnew)
    · exact (hattrs _).mp ⟨hreq, hcons⟩ h
  · rintro ⟨hsame, hitemMap, hprops⟩
    obtain ⟨hreq, hcons⟩ := (hattrs _).mpr fun h => hsame (.attrs h)
    have htype := decide_eq_false fun h => hsame (.type h)
    refine ⟨⟨⟨⟨htype, hreq⟩, fun i i' hold hnew => ?_, hitemMap⟩, hprops⟩, hcons⟩
    by_contra h
    exact hsame (.itemType hold hnew h)

end Fields

/-! ## Silence about field maps -/

/-- At no position that both maps have has anything changed. -/
def Unchanged (old new : List (String × FieldTree)) : Prop :=
  ∀ position ps qs, mapAt old position = some ps → mapAt new position = some qs →
    ¬MapChanged ps qs

/-- A field map in key order, at every depth. -/
def OrderedFields (fields : List (String × FieldTree)) : Prop :=
  Entries.Sorted fields ∧ ∀ e ∈ fields, e.2.ordered = true

theorem FieldTree.orderedFields_properties {t : FieldTree} (h : t.ordered = true)
    {ps : List (String × FieldTree)} (hps : t.properties = some ps) : OrderedFields ps :=
  FieldTree.ordered_properties h hps

theorem FieldTree.orderedFields_itemMap {t : FieldTree} (h : t.ordered = true)
    {ps : List (String × FieldTree)} (hps : t.itemMap = some ps) : OrderedFields ps := by
  obtain ⟨i, hi, -, rfl⟩ := itemMap_eq_some.mp hps
  exact FieldTree.ordered_items h hi

theorem EntityTypeDef.orderedFields (t : EntityTypeDef) : OrderedFields t.trees :=
  ⟨t.sorted_trees, fun _ he => t.ordered_of_mem he⟩

section Below

variable {old new ps qs : List (String × FieldTree)} {name : String} {t t' : FieldTree}

theorem Unchanged.below (h : Unchanged old new) {step : Into} (hold : step.below old = some ps)
    (hnew : step.below new = some qs) : Unchanged ps qs := by
  intro position rs ss hrs hss
  refine h (step :: position) rs ss ?_ ?_
  · rw [mapAt, hold, Option.bind_some, hrs]
  · rw [mapAt, hnew, Option.bind_some, hss]

theorem Unchanged.itemMap (h : Unchanged old new) (ht : Entries.get? name old = some t)
    (ht' : Entries.get? name new = some t') (hps : t.itemMap = some ps)
    (hqs : t'.itemMap = some qs) : Unchanged ps qs := by
  have hold : (Into.items name).below old = some ps := by rw [Into.below, ht, Option.bind_some, hps]
  have hnew : (Into.items name).below new = some qs := by
    rw [Into.below, ht', Option.bind_some, hqs]
  exact h.below hold hnew

theorem Unchanged.properties (h : Unchanged old new) (ht : Entries.get? name old = some t)
    (ht' : Entries.get? name new = some t') (hps : t.properties = some ps)
    (hqs : t'.properties = some qs) : Unchanged ps qs := by
  have hold : (Into.properties name).below old = some ps := by
    rw [Into.below, ht, Option.bind_some, hps]
  have hnew : (Into.properties name).below new = some qs := by
    rw [Into.below, ht', Option.bind_some, hqs]
  exact h.below hold hnew

theorem Unchanged.field (h : Unchanged old new) (ht : Entries.get? name old = some t)
    (ht' : Entries.get? name new = some t') : ¬t.Changed t' :=
  fun hchanged => h [] old new rfl rfl (.changed ht ht' hchanged)

end Below

/-- Silence reaches every position. -/
theorem unchanged_of_diffFields_eq_nil {path : String} {old new : List (String × FieldTree)}
    (h : diffFields path old new = []) : Unchanged old new := by
  intro position
  induction position generalizing path old new with
  | nil =>
      rintro ps qs ⟨⟩ ⟨⟩ hchanged
      obtain ⟨hshared, hadded⟩ := diffFields_eq_nil h
      cases hchanged with
      | removed hold hnew =>
          obtain ⟨t', ht', -⟩ := hshared _ _ hold
          rw [hnew] at ht'
          cases ht'
      | added hold hnew hrequired =>
          rw [hadded _ _ (Entries.mem_of_get? hnew) hold] at hrequired
          cases hrequired
      | changed hold hnew hchanged =>
          obtain ⟨t', ht', hfield⟩ := hshared _ _ hold
          rw [hnew] at ht'
          cases ht'
          exact (diffField_eq_nil_iff.mp hfield).1 hchanged
  | cons step position ih =>
      intro ps qs hps hqs
      obtain ⟨m, hm, hps⟩ := Option.bind_eq_some_iff.mp hps
      obtain ⟨m', hm', hqs⟩ := Option.bind_eq_some_iff.mp hqs
      obtain ⟨name, hbelow⟩ : ∃ path', diffFields path' m m' = [] := by
        cases step with
        | items name =>
            obtain ⟨t, ht, hm⟩ := Option.bind_eq_some_iff.mp hm
            obtain ⟨t', ht', hm'⟩ := Option.bind_eq_some_iff.mp hm'
            obtain ⟨t'', ht'', hfield⟩ := (diffFields_eq_nil h).1 _ _ ht
            cases ht'.symm.trans ht''
            exact ⟨_, (diffField_eq_nil_iff.mp hfield).2.1 _ _ hm hm'⟩
        | properties name =>
            obtain ⟨t, ht, hm⟩ := Option.bind_eq_some_iff.mp hm
            obtain ⟨t', ht', hm'⟩ := Option.bind_eq_some_iff.mp hm'
            obtain ⟨t'', ht'', hfield⟩ := (diffFields_eq_nil h).1 _ _ ht
            cases ht'.symm.trans ht''
            exact ⟨_, (diffField_eq_nil_iff.mp hfield).2.2 _ _ hm hm'⟩
      exact ih hbelow ps qs hps hqs

/-- One level of the converse: where nothing has changed, the comparison is silent, if it is for
every field that both maps have. -/
theorem diffFields_eq_nil_of_unchanged {path : String} {old new : List (String × FieldTree)}
    (hold : Entries.Sorted old) (hnew : Entries.Sorted new) (h : Unchanged old new)
    (hfields : ∀ name t t', Entries.get? name old = some t → Entries.get? name new = some t' →
      diffField path name t t' = []) :
    diffFields path old new = [] := by
  have hroot : ¬MapChanged old new := h [] old new rfl rfl
  refine List.append_eq_nil_iff.mpr ⟨(diffShared_eq_nil_iff path old new).mpr fun e he => ?_,
    List.flatMap_eq_nil_iff.mpr fun e he => reasonIf_eq_nil.mpr ?_⟩
  · have hget : Entries.get? e.1 old = some e.2 := Entries.get?_of_mem hold he
    cases hfound : Entries.get? e.1 new with
    | none => exact absurd (.removed hget hfound) hroot
    | some t' => exact ⟨t', rfl, hfields _ _ _ hget hfound⟩
  · have hget : Entries.get? e.1 new = some e.2 := Entries.get?_of_mem hnew he
    by_contra hadded
    rw [Bool.not_eq_false, Bool.and_eq_true, Option.isNone_iff_eq_none] at hadded
    exact hroot (.added hadded.1 hget hadded.2)

/-- Where nothing has changed at any position, the comparison of a field is silent. -/
theorem diffField_eq_nil_of_unchanged (t : FieldTree) :
    ∀ path name t', t.ordered = true → t'.ordered = true → ¬t.Changed t' →
      (∀ ps qs, t.itemMap = some ps → t'.itemMap = some qs → Unchanged ps qs) →
      (∀ ps qs, t.properties = some ps → t'.properties = some qs → Unchanged ps qs) →
      diffField path name t t' = [] := by
  induction t using FieldTree.rec' with
  | h t ih =>
      intro path name t' hordered hordered' hsame hitems hproperties
      -- both kinds of nested maps are compared alike, their fields being children of the tree
      have hmaps : ∀ path ps qs, OrderedFields ps → OrderedFields qs → Unchanged ps qs →
          (∀ e ∈ ps, e ∈ t.children) → diffFields path ps qs = [] := by
        intro path ps qs hps hqs hunchanged hchildren
        refine diffFields_eq_nil_of_unchanged hps.1 hqs.1 hunchanged fun name u u' hu hu' => ?_
        have hmem : (name, u) ∈ ps := Entries.mem_of_get? hu
        refine ih _ (hchildren _ hmem) path name u' (hps.2 _ hmem)
          (hqs.2 _ (Entries.mem_of_get? hu')) (hunchanged.field hu hu') ?_ ?_
        · exact fun ms ms' hms hms' => hunchanged.itemMap hu hu' hms hms'
        · exact fun ms ms' hms hms' => hunchanged.properties hu hu' hms hms'
      refine diffField_eq_nil_iff.mpr ⟨hsame, fun ps qs hps hqs => ?_, fun ps qs hps hqs => ?_⟩
      · refine hmaps _ ps qs (FieldTree.orderedFields_itemMap hordered hps)
          (FieldTree.orderedFields_itemMap hordered' hqs) (hitems ps qs hps hqs) fun e he => ?_
        obtain ⟨i, hi, -, rfl⟩ := FieldTree.itemMap_eq_some.mp hps
        apply List.mem_append_left
        rw [hi]
        exact he
      · refine hmaps _ ps qs (FieldTree.orderedFields_properties hordered hps)
          (FieldTree.orderedFields_properties hordered' hqs) (hproperties ps qs hps hqs)
          fun e he => ?_
        apply List.mem_append_right
        rw [hps]
        exact he

/-- **A comparison of two field maps is silent exactly when nothing has changed** at the positions
that both have. -/
theorem diffFields_eq_nil_iff {path : String} {old new : List (String × FieldTree)}
    (hold : OrderedFields old) (hnew : OrderedFields new) :
    diffFields path old new = [] ↔ Unchanged old new := by
  refine ⟨unchanged_of_diffFields_eq_nil, fun h => ?_⟩
  refine diffFields_eq_nil_of_unchanged hold.1 hnew.1 h fun name t t' ht ht' => ?_
  refine diffField_eq_nil_of_unchanged t path name t' (hold.2 _ (Entries.mem_of_get? ht))
    (hnew.2 _ (Entries.mem_of_get? ht')) (h.field ht ht') ?_ ?_
  · exact fun ps qs hps hqs => h.itemMap ht ht' hps hqs
  · exact fun ps qs hps hqs => h.properties ht ht' hps hqs

/-! ## Silence about definitions -/

section Definitions

variable {old new : MetaSchemaDefinition} {typeName : String}

theorem MetaSchemaDefinition.mapAt_eq_some {d : MetaSchemaDefinition} {position : List Into}
    {ps : List (String × FieldTree)} :
    d.mapAt typeName position = some ps ↔
      ∃ t, d.entityTypes.get? typeName = some t ∧ Metaschema.mapAt t.trees position = some ps :=
  Option.bind_eq_some_iff

theorem diffEntityType_eq_nil_iff {t : EntityTypeDef} :
    diffEntityType new typeName t = [] ↔
      ∃ t', new.entityTypes.get? typeName = some t' ∧ Unchanged t.trees t'.trees := by
  unfold diffEntityType
  cases hnew : new.entityTypes.get? typeName with
  | none => simp
  | some t' => simp [diffFields_eq_nil_iff t.orderedFields t'.orderedFields]

theorem diffRelationType_eq_nil_iff {name : String} {r : RelationTypeDef} :
    diffRelationType new name r = [] ↔
      ∃ r', new.relationTypes.get? name = some r' ∧ r.source = r'.source ∧
        r.target = r'.target := by
  unfold diffRelationType
  cases hnew : new.relationTypes.get? name with
  | none => simp
  | some r' => simp [reasonIf_eq_nil]

/-- **A comparison of two definitions is silent exactly when nothing has changed.** -/
theorem diff_reasons_eq_nil_iff : (diff old new).reasons = [] ↔ ¬old.Changed new := by
  have hreasons : (diff old new).reasons = [] ↔
      (∀ e ∈ old.entityTypes.entries, diffEntityType new e.1 e.2 = []) ∧
        ∀ e ∈ old.relationTypes.entries, diffRelationType new e.1 e.2 = [] := by
    rw [diff, List.append_eq_nil_iff, List.flatMap_eq_nil_iff, List.flatMap_eq_nil_iff]
  rw [hreasons]
  simp only [diffEntityType_eq_nil_iff, diffRelationType_eq_nil_iff, Prod.forall,
    OrderedMap.mem_entries_iff]
  constructor
  · rintro ⟨hentities, hrelations⟩ hchanged
    cases hchanged with
    | entityType hold hnew =>
        obtain ⟨t', ht', -⟩ := hentities _ _ hold
        rw [hnew] at ht'
        cases ht'
    | fields hold hnew h =>
        obtain ⟨t, ht, hps⟩ := MetaSchemaDefinition.mapAt_eq_some.mp hold
        obtain ⟨t', ht', hqs⟩ := MetaSchemaDefinition.mapAt_eq_some.mp hnew
        obtain ⟨t'', ht'', hunchanged⟩ := hentities _ _ ht
        cases ht'.symm.trans ht''
        exact hunchanged _ _ _ hps hqs h
    | relationType hold hnew =>
        obtain ⟨r', hr', -⟩ := hrelations _ _ hold
        rw [hnew] at hr'
        cases hr'
    | endpoints hold hnew h =>
        obtain ⟨r', hr', hsource, htarget⟩ := hrelations _ _ hold
        cases hnew.symm.trans hr'
        exact h.elim (fun hne => hne hsource) fun hne => hne htarget
  · intro hsame
    refine ⟨fun typeName t ht => ?_, fun name r hr => ?_⟩
    · cases hnew : new.entityTypes.get? typeName with
      | none => exact absurd (.entityType ht hnew) hsame
      | some t' =>
          refine ⟨t', rfl, fun position ps qs hps hqs hchanged => ?_⟩
          have hold : old.mapAt typeName position = some ps :=
            MetaSchemaDefinition.mapAt_eq_some.mpr ⟨t, ht, hps⟩
          exact hsame (.fields hold (MetaSchemaDefinition.mapAt_eq_some.mpr ⟨t', hnew, hqs⟩)
            hchanged)
    · cases hnew : new.relationTypes.get? name with
      | none => exact absurd (.relationType hr hnew) hsame
      | some r' =>
          refine ⟨r', rfl, ?_, ?_⟩
          · by_contra hne
            exact hsame (.endpoints hr hnew (.inl hne))
          · by_contra hne
            exact hsame (.endpoints hr hnew (.inr hne))

/-- **A comparison is breaking exactly when something has changed.** -/
theorem isBreaking_iff : (diff old new).isBreaking = true ↔ old.Changed new := by
  rw [← not_iff_not, ← diff_reasons_eq_nil_iff]
  change ¬(!(diff old new).reasons.isEmpty) = true ↔ _
  rw [Bool.not_eq_true, Bool.not_eq_false', List.isEmpty_iff]

theorem not_isBreaking_iff : (diff old new).isBreaking = false ↔ ¬old.Changed new := by
  rw [← isBreaking_iff, Bool.not_eq_true]

end Definitions

/-! ## Composition -/

/-- What the version in between drops and the last version brings back, with a change against the
first. -/
inductive MetaSchemaDefinition.LostBetween (a b c : MetaSchemaDefinition) : Prop where
  | enumValue {typeName name : String} {position : List Into} {t t' t'' : FieldTree}
      {vs ws : List String} {v : String} (ha : a.fieldAt typeName position name = some t)
      (hb : b.fieldAt typeName position name = some t')
      (hc : c.fieldAt typeName position name = some t'') (hold : t.attrs.enumValues = some vs)
      (hdropped : t'.attrs.enumValues = none) (hnew : t''.attrs.enumValues = some ws) (hv : v ∈ vs)
      (hgone : v ∉ ws)
  | items {typeName name : String} {position : List Into} {t t' t'' : FieldTree}
      {i i'' : ItemsTree} (ha : a.fieldAt typeName position name = some t)
      (hb : b.fieldAt typeName position name = some t')
      (hc : c.fieldAt typeName position name = some t'') (hold : t.items = some i)
      (hdropped : t'.items = none) (hnew : t''.items = some i'') (hne : i.type ≠ i''.type)
  | fields {typeName : String} {position : List Into} {ps rs : List (String × FieldTree)}
      (ha : a.mapAt typeName position = some ps) (hb : b.mapAt typeName position = none)
      (hc : c.mapAt typeName position = some rs) (h : MapChanged ps rs)

/-- A bound that is tighter than the first of two is tighter than the second, or the second than the
first. -/
theorem Tightens.compare {α : Type} {beyond : α → α → Prop} [IsOrderConnected α beyond]
    {a c : Option α} (h : Tightens beyond a c) (b : Option α) :
    Tightens beyond a b ∨ Tightens beyond b c := by
  obtain ⟨z, rfl, hz⟩ := h
  cases b with
  | none => exact .inr ⟨z, rfl, fun _ hy => by cases hy⟩
  | some y =>
      by_cases hyz : beyond y z
      · refine .inr ⟨z, rfl, ?_⟩
        rintro _ ⟨⟩
        exact hyz
      · exact .inl ⟨y, rfl, fun x hx =>
          (IsOrderConnected.conn x y z (hz x hx)).resolve_right hyz⟩

/-- A text that is there between two others that differ differs from one of them. -/
theorem text_between {a b c : Option String} {x z : String} (ha : a = some x) (hc : c = some z)
    (hne : x ≠ z) (hab : ∀ x y, a = some x → b = some y → x = y)
    (hbc : ∀ y z, b = some y → c = some z → y = z) : b = none := by
  cases b with
  | none => rfl
  | some y => exact absurd ((hab x y ha rfl).trans (hbc y z rfl hc)) hne

section Between

variable {a b c : FieldAttrs}

/-- A narrowing over two versions is one of the two steps, unless the version in between has no
enum. -/
theorem FieldAttrs.Narrows.between (h : a.Narrows c) :
    a.Narrows b ∨ b.Narrows c ∨ ∃ vs ws v, a.enumValues = some vs ∧ b.enumValues = none ∧
      c.enumValues = some ws ∧ v ∈ vs ∧ v ∉ ws := by
  cases h with
  | enumValue hold hnew hv hgone =>
      rename_i vs ws v
      cases hb : b.enumValues with
      | none => exact .inr (.inr ⟨vs, ws, v, hold, rfl, hnew, hv, hgone⟩)
      | some us =>
          by_cases hu : v ∈ us
          · exact .inr (.inl (.enumValue hb hnew hu hgone))
          · exact .inl (.enumValue hold hb hv hu)
  | format hold hnew =>
      cases hb : b.format with
      | none => exact .inr (.inl (.format hb hnew))
      | some y => exact .inl (.format hold (by rw [hb]; rfl))
  | pattern hold hnew =>
      cases hb : b.pattern with
      | none => exact .inr (.inl (.pattern hb hnew))
      | some y => exact .inl (.pattern hold (by rw [hb]; rfl))
  | minimum h => exact (h.compare b.minimum).imp .minimum fun h => .inl (.minimum h)
  | maximum h => exact (h.compare b.maximum).imp .maximum fun h => .inl (.maximum h)
  | minLength h => exact (h.compare b.minLength).imp .minLength fun h => .inl (.minLength h)
  | maxLength h => exact (h.compare b.maxLength).imp .maxLength fun h => .inl (.maxLength h)
  | minItems h => exact (h.compare b.minItems).imp .minItems fun h => .inl (.minItems h)
  | maxItems h => exact (h.compare b.maxItems).imp .maxItems fun h => .inl (.maxItems h)
  | uniqueItems hold hnew =>
      cases hb : b.uniqueItems with
      | false => exact .inr (.inl (.uniqueItems hb hnew))
      | true => exact .inl (.uniqueItems hold hb)
  | required hold hnew =>
      cases hb : b.required with
      | false => exact .inr (.inl (.required hb hnew))
      | true => exact .inl (.required hold hb)

theorem FieldAttrs.Changed.between (h : a.Changed c) (hab : ¬a.Changed b) (hbc : ¬b.Changed c) :
    ∃ vs ws v, a.enumValues = some vs ∧ b.enumValues = none ∧ c.enumValues = some ws ∧
      v ∈ vs ∧ v ∉ ws := by
  cases h with
  | narrowed h =>
      rcases h.between with h | h | h
      · exact absurd (.narrowed h) hab
      · exact absurd (.narrowed h) hbc
      · exact h
  | format hold hnew hne =>
      -- a format that is dropped cannot come back unnoticed
      have hb : b.format = none := by
        refine text_between hold hnew hne (fun x y hx hy => ?_) fun y z hy hz => ?_
        · by_contra hxy
          exact hab (.format hx hy hxy)
        · by_contra hyz
          exact hbc (.format hy hz hyz)
      exact absurd (.narrowed (.format hb (by rw [hnew]; rfl))) hbc
  | pattern hold hnew hne =>
      have hb : b.pattern = none := by
        refine text_between hold hnew hne (fun x y hx hy => ?_) fun y z hy hz => ?_
        · by_contra hxy
          exact hab (.pattern hx hy hxy)
        · by_contra hyz
          exact hbc (.pattern hy hz hyz)
      exact absurd (.narrowed (.pattern hb (by rw [hnew]; rfl))) hbc

end Between

/-- What changes between two maps over a third that neither step changes against: a field that all
three have has lost an enum or its items in between. -/
theorem MapChanged.between {ps qs rs : List (String × FieldTree)} (h : MapChanged ps rs)
    (hab : ¬MapChanged ps qs) (hbc : ¬MapChanged qs rs) :
    ∃ name t t' t'', Entries.get? name ps = some t ∧ Entries.get? name qs = some t' ∧
      Entries.get? name rs = some t'' ∧
        ((∃ vs ws v, t.attrs.enumValues = some vs ∧ t'.attrs.enumValues = none ∧
            t''.attrs.enumValues = some ws ∧ v ∈ vs ∧ v ∉ ws) ∨
          ∃ i i'', t.items = some i ∧ t'.items = none ∧ t''.items = some i'' ∧
            i.type ≠ i''.type) := by
  cases h with
  | removed hold hnew =>
      rename_i name t
      cases hmid : Entries.get? name qs with
      | none => exact absurd (.removed hold hmid) hab
      | some t' => exact absurd (.removed hmid hnew) hbc
  | added hold hnew hrequired =>
      rename_i name t''
      cases hmid : Entries.get? name qs with
      | none => exact absurd (.added hmid hnew hrequired) hbc
      | some t' =>
          cases ht' : t'.attrs.required with
          | true => exact absurd (.added hold hmid ht') hab
          | false =>
              have hnarrow : t'.attrs.Narrows t''.attrs := .required ht' hrequired
              exact absurd (.changed hmid hnew (.attrs (.narrowed hnarrow))) hbc
  | changed hold hnew hchanged =>
      rename_i name t t''
      cases hmid : Entries.get? name qs with
      | none => exact absurd (.removed hold hmid) hab
      | some t' =>
          have hab' : ¬t.Changed t' := fun h => hab (.changed hold hmid h)
          have hbc' : ¬t'.Changed t'' := fun h => hbc (.changed hmid hnew h)
          refine ⟨name, t, t', t'', hold, hmid, hnew, ?_⟩
          cases hchanged with
          | type hne =>
              have h₁ : t.attrs.type = t'.attrs.type := not_not.mp fun h => hab' (.type h)
              have h₂ : t'.attrs.type = t''.attrs.type := not_not.mp fun h => hbc' (.type h)
              exact absurd (h₁.trans h₂) hne
          | itemType hi hi'' hne =>
              rename_i i i''
              cases hi' : t'.items with
              | none => exact .inr ⟨i, i'', hi, rfl, hi'', hne⟩
              | some i' =>
                  have h₁ : i.type = i'.type := not_not.mp fun h => hab' (.itemType hi hi' h)
                  have h₂ : i'.type = i''.type := not_not.mp fun h => hbc' (.itemType hi' hi'' h)
                  exact absurd (h₁.trans h₂) hne
          | attrs h =>
              exact .inl (h.between (fun h => hab' (.attrs h)) fun h => hbc' (.attrs h))

section Compose

variable {a b c : MetaSchemaDefinition}

/-- **What escapes two comparisons** is what the version in between drops. -/
theorem MetaSchemaDefinition.changed_iff_lostBetween (hab : ¬a.Changed b) (hbc : ¬b.Changed c) :
    a.Changed c ↔ a.LostBetween b c := by
  constructor
  · intro h
    cases h with
    | entityType hold hnew =>
        rename_i typeName t
        cases hmid : b.entityTypes.get? typeName with
        | none => exact absurd (.entityType hold hmid) hab
        | some t' => exact absurd (.entityType hmid hnew) hbc
    | relationType hold hnew =>
        rename_i name r
        cases hmid : b.relationTypes.get? name with
        | none => exact absurd (.relationType hold hmid) hab
        | some r' => exact absurd (.relationType hmid hnew) hbc
    | endpoints hold hnew hne =>
        rename_i name r r''
        cases hmid : b.relationTypes.get? name with
        | none => exact absurd (.relationType hold hmid) hab
        | some r' =>
            have h₁ : ¬(r.source ≠ r'.source ∨ r.target ≠ r'.target) := fun h =>
              hab (.endpoints hold hmid h)
            have h₂ : ¬(r'.source ≠ r''.source ∨ r'.target ≠ r''.target) := fun h =>
              hbc (.endpoints hmid hnew h)
            rw [not_or, not_not, not_not] at h₁ h₂
            rw [h₁.1, h₁.2, h₂.1, h₂.2] at hne
            exact absurd hne (by simp)
    | fields hold hnew h =>
        rename_i typeName position ps rs
        cases hmid : b.mapAt typeName position with
        | none => exact .fields hold hmid hnew h
        | some qs =>
            obtain ⟨name, t, t', t'', ht, ht', ht'', hlost⟩ :=
              h.between (fun h => hab (.fields hold hmid h)) fun h => hbc (.fields hmid hnew h)
            have ha : a.fieldAt typeName position name = some t :=
              fieldAt_eq_some.mpr ⟨ps, hold, ht⟩
            have hb : b.fieldAt typeName position name = some t' :=
              fieldAt_eq_some.mpr ⟨qs, hmid, ht'⟩
            have hc : c.fieldAt typeName position name = some t'' :=
              fieldAt_eq_some.mpr ⟨rs, hnew, ht''⟩
            rcases hlost with ⟨vs, ws, v, hvs, hdropped, hws, hv, hgone⟩ |
              ⟨i, i'', hi, hi', hi'', hne⟩
            · exact .enumValue ha hb hc hvs hdropped hws hv hgone
            · exact .items ha hb hc hi hi' hi'' hne
  · intro h
    cases h with
    | enumValue ha hb hc hold hdropped hnew hv hgone =>
        obtain ⟨ps, hps, ht⟩ := fieldAt_eq_some.mp ha
        obtain ⟨rs, hrs, ht''⟩ := fieldAt_eq_some.mp hc
        exact .fields hps hrs
          (.changed ht ht'' (.attrs (.narrowed (.enumValue hold hnew hv hgone))))
    | items ha hb hc hold hdropped hnew hne =>
        obtain ⟨ps, hps, ht⟩ := fieldAt_eq_some.mp ha
        obtain ⟨rs, hrs, ht''⟩ := fieldAt_eq_some.mp hc
        exact .fields hps hrs (.changed ht ht'' (.itemType hold hnew hne))
    | fields ha hb hc h => exact .fields ha hc h

end Compose

/-! ## Main result -/

/-- Every field that both definitions have and that the new one narrows makes the comparison
breaking. -/
def NarrowingsReported (old new : MetaSchemaDefinition) : Prop :=
  ∀ typeName position name t t', old.fieldAt typeName position name = some t →
    new.fieldAt typeName position name = some t' →
      t.attrs.GainsEnum t'.attrs ∨ t.attrs.Narrows t'.attrs → (diff old new).isBreaking = true

/-- Two comparisons that are not breaking make one that is not. -/
def SilenceComposes (a b c : MetaSchemaDefinition) : Prop :=
  (diff a b).isBreaking = false → (diff b c).isBreaking = false → (diff a c).isBreaking = false

/-- **What a comparison promises, exactly.** Every narrowing is reported unless a field gains an
enum and nothing else has changed; and silence composes unless the version in between drops what
the last one brings back changed. -/
theorem narrowings_reported_iff (old new a b c : MetaSchemaDefinition) :
    (NarrowingsReported old new ↔
      (∀ typeName position name t t', old.fieldAt typeName position name = some t →
        new.fieldAt typeName position name = some t' → ¬t.attrs.GainsEnum t'.attrs) ∨
          old.Changed new) ∧
      (SilenceComposes a b c ↔ a.Changed b ∨ b.Changed c ∨ ¬a.LostBetween b c) := by
  constructor
  · constructor
    · intro h
      by_cases hchanged : old.Changed new
      · exact .inr hchanged
      · refine .inl fun typeName position name t t' ht ht' hgains => hchanged ?_
        exact isBreaking_iff.mp (h typeName position name t t' ht ht' (.inl hgains))
    · rintro (hno | hchanged) typeName position name t t' ht ht' hnarrowed
      · rcases hnarrowed with hgains | hnarrows
        · exact absurd hgains (hno typeName position name t t' ht ht')
        · obtain ⟨ps, hps, ht⟩ := MetaSchemaDefinition.fieldAt_eq_some.mp ht
          obtain ⟨qs, hqs, ht'⟩ := MetaSchemaDefinition.fieldAt_eq_some.mp ht'
          exact isBreaking_iff.mpr
            (.fields hps hqs (.changed ht ht' (.attrs (.narrowed hnarrows))))
      · exact isBreaking_iff.mpr hchanged
  · rw [SilenceComposes, not_isBreaking_iff, not_isBreaking_iff, not_isBreaking_iff]
    by_cases hab : a.Changed b
    · simp [hab]
    · by_cases hbc : b.Changed c
      · simp [hbc]
      · simp [hab, hbc, MetaSchemaDefinition.changed_iff_lostBetween hab hbc]

/-- A status, which may have an enum. -/
def statusAttrs (values : Option (List String)) : FieldAttrs :=
  { FieldAttrs.ofType .string with enumValues := values }

/-- Tasks with a status. -/
def taskType (values : Option (List String)) : EntityTypeDef where
  description := none
  fields := OrderedMap.empty.insert "status" ⟨.mk (statusAttrs values) none none, rfl⟩

/-- A definition that has only tasks. -/
def statusDefinition (values : Option (List String)) : MetaSchemaDefinition where
  name := "work"
  description := none
  entityTypes := OrderedMap.empty.insert "task" (taskType values)
  relationTypes := .empty

/-- An enum on a status that had none is not reported. Dropped and brought back with a value less,
it escapes both comparisons. -/
theorem not_narrowings_reported :
    ¬NarrowingsReported (statusDefinition none) (statusDefinition (some ["open"])) ∧
      ¬SilenceComposes (statusDefinition (some ["open", "done"])) (statusDefinition none)
        (statusDefinition (some ["open"])) := by
  constructor
  · intro h
    have hbreaking := h "task" [] "status" _ _ rfl rfl (.inl ⟨rfl, rfl⟩)
    exact absurd hbreaking (by decide)
  · intro h
    have hbreaking := h (by decide) (by decide)
    exact absurd hbreaking (by decide)

end Yorishiro.Metaschema
