import Mathlib.Logic.Relation
import Yorishiro.Metaschema.Changes

/-!
# Edits that break nothing

The edits of a definition that only describe it otherwise, or admit more: other descriptions,
defaults, embedding and display hints and unknown attributes, new optional fields, enum values,
entity types and relation types, and constraints that are loosened or dropped, at any depth
(`FieldsEdit`, `MetaSchemaDefinition.Edit`).

What a single edit keeps is said by `Eased`, which composes; it leaves a comparison nothing to
report (`Eased.not_changed`). So no sequence of such edits is ever breaking
(`edits_not_breaking`).
-/

set_option autoImplicit false

namespace Yorishiro.Metaschema

open Yorishiro.Lib

/-! ## Edits -/

/-- A bound that is dropped, or replaced by one that admits as much. -/
def Loosens {α : Type} (within : α → α → Prop) (old new : Option α) : Prop :=
  ∀ y, new = some y → ∃ x, old = some x ∧ within x y

/-- A single edit of the attributes of a field. -/
inductive FieldAttrs.Edit (a : FieldAttrs) : FieldAttrs → Prop where
  | description (text : Option String) : Edit a { a with description := text }
  | default (value : Option Json) : Edit a { a with default := value }
  | xEmbed (flag : Bool) : Edit a { a with xEmbed := flag }
  | xUi (value : Option Json) : Edit a { a with xUi := value }
  | extra (members : Extra) : Edit a { a with extra := members }
  | addEnumValues {vs ws : List String} (hold : a.enumValues = some vs) (hkept : vs ⊆ ws) :
      Edit a { a with enumValues := some ws }
  | dropEnum : Edit a { a with enumValues := none }
  | dropFormat : Edit a { a with format := none }
  | dropPattern : Edit a { a with pattern := none }
  | minimum {bound : Option ℚ} (h : Loosens (· ≥ ·) a.minimum bound) :
      Edit a { a with minimum := bound }
  | maximum {bound : Option ℚ} (h : Loosens (· ≤ ·) a.maximum bound) :
      Edit a { a with maximum := bound }
  | minLength {bound : Option Nat} (h : Loosens (· ≥ ·) a.minLength bound) :
      Edit a { a with minLength := bound }
  | maxLength {bound : Option Nat} (h : Loosens (· ≤ ·) a.maxLength bound) :
      Edit a { a with maxLength := bound }
  | minItems {bound : Option Nat} (h : Loosens (· ≥ ·) a.minItems bound) :
      Edit a { a with minItems := bound }
  | maxItems {bound : Option Nat} (h : Loosens (· ≤ ·) a.maxItems bound) :
      Edit a { a with maxItems := bound }
  | dropUniqueItems : Edit a { a with uniqueItems := false }
  | dropRequired : Edit a { a with required := false }

/-- A single edit of a field map: an optional field more, or an edit of one field, of its
attributes or somewhere in the maps it nests. A missing nested map counts as empty. -/
inductive FieldsEdit : List (String × FieldTree) → List (String × FieldTree) → Prop where
  | add {ps : List (String × FieldTree)} {name : String} {t : FieldTree}
      (hnew : Entries.get? name ps = none) (hoptional : t.attrs.required = false) :
      FieldsEdit ps (Entries.insert name t ps)
  | attrs {ps : List (String × FieldTree)} {name : String} {a b : FieldAttrs}
      {i : Option ItemsTree} {p : Option (List (String × FieldTree))}
      (hold : Entries.get? name ps = some (.mk a i p)) (h : a.Edit b) :
      FieldsEdit ps (Entries.insert name (.mk b i p) ps)
  | properties {ps ms : List (String × FieldTree)} {name : String} {a : FieldAttrs}
      {i : Option ItemsTree} {p : Option (List (String × FieldTree))}
      (hold : Entries.get? name ps = some (.mk a i p)) (h : FieldsEdit (p.getD []) ms) :
      FieldsEdit ps (Entries.insert name (.mk a i (some ms)) ps)
  | items {ps ms : List (String × FieldTree)} {name : String} {a : FieldAttrs}
      {ty : ArrayItemType} {m p : Option (List (String × FieldTree))}
      (hold : Entries.get? name ps = some (.mk a (some (.mk ty m)) p))
      (h : FieldsEdit (m.getD []) ms) :
      FieldsEdit ps (Entries.insert name (.mk a (some (.mk ty (some ms))) p) ps)

/-- A single edit of a definition. -/
inductive MetaSchemaDefinition.Edit (d : MetaSchemaDefinition) : MetaSchemaDefinition → Prop where
  | description (text : Option String) : Edit d { d with description := text }
  | entityTypeDescription {typeName : String} {t : EntityTypeDef}
      (hold : d.entityTypes.get? typeName = some t) (text : Option String) :
      Edit d { d with entityTypes := d.entityTypes.insert typeName { t with description := text } }
  | fields {typeName : String} {t t' : EntityTypeDef} (hold : d.entityTypes.get? typeName = some t)
      (hsame : t'.description = t.description) (h : FieldsEdit t.trees t'.trees) :
      Edit d { d with entityTypes := d.entityTypes.insert typeName t' }
  | addEntityType {typeName : String} (hnew : d.entityTypes.get? typeName = none)
      (t : EntityTypeDef) : Edit d { d with entityTypes := d.entityTypes.insert typeName t }
  | relationTypeDescription {name : String} {r : RelationTypeDef}
      (hold : d.relationTypes.get? name = some r) (text : Option String) :
      Edit d { d with relationTypes := d.relationTypes.insert name { r with description := text } }
  | addRelationType {name : String} (hnew : d.relationTypes.get? name = none)
      (r : RelationTypeDef) : Edit d { d with relationTypes := d.relationTypes.insert name r }

/-! ## What edits keep -/

/-- `b` admits at least what `a` admits. -/
structure FieldAttrs.Widens (a b : FieldAttrs) : Prop where
  type : b.type = a.type
  required : b.required = true → a.required = true
  enumValues : ∀ ws, b.enumValues = some ws → ∃ vs, a.enumValues = some vs ∧ vs ⊆ ws
  format : b.format = none ∨ b.format = a.format
  pattern : b.pattern = none ∨ b.pattern = a.pattern
  minimum : Loosens (· ≥ ·) a.minimum b.minimum
  maximum : Loosens (· ≤ ·) a.maximum b.maximum
  minLength : Loosens (· ≥ ·) a.minLength b.minLength
  maxLength : Loosens (· ≤ ·) a.maxLength b.maxLength
  minItems : Loosens (· ≥ ·) a.minItems b.minItems
  maxItems : Loosens (· ≤ ·) a.maxItems b.maxItems
  uniqueItems : b.uniqueItems = true → a.uniqueItems = true

/-- `t'` admits at least what `t` admits, apart from the maps they nest. -/
structure FieldTree.Eased (t t' : FieldTree) : Prop where
  attrs : t.attrs.Widens t'.attrs
  items : ∀ i, t.items = some i → ∃ i', t'.items = some i' ∧ i'.type = i.type

/-- The fields of the first map are in the second and admit at least as much there; the others are
optional. -/
structure MapEased (ps qs : List (String × FieldTree)) : Prop where
  kept : ∀ name t, Entries.get? name ps = some t →
    ∃ t', Entries.get? name qs = some t' ∧ t.Eased t'
  optional : ∀ name t', Entries.get? name ps = none → Entries.get? name qs = some t' →
    t'.attrs.required = false

/-- At every position of the first map, the second has a map that eases it. -/
def FieldsEased (ps qs : List (String × FieldTree)) : Prop :=
  ∀ position ms, mapAt ps position = some ms → ∃ ns, mapAt qs position = some ns ∧ MapEased ms ns

/-- The new definition admits at least what the old one admits. -/
structure MetaSchemaDefinition.Eased (old new : MetaSchemaDefinition) : Prop where
  entityTypes : ∀ typeName t, old.entityTypes.get? typeName = some t →
    ∃ t', new.entityTypes.get? typeName = some t' ∧ FieldsEased t.trees t'.trees
  relationTypes : ∀ name r, old.relationTypes.get? name = some r →
    ∃ r', new.relationTypes.get? name = some r' ∧ r'.source = r.source ∧ r'.target = r.target

section Bounds

variable {α : Type} {within : α → α → Prop}

theorem Loosens.refl [Std.Refl within] (bound : Option α) : Loosens within bound bound :=
  fun y hy => ⟨y, hy, Std.Refl.refl y⟩

theorem Loosens.trans [IsTrans α within] {a b c : Option α} (hab : Loosens within a b)
    (hbc : Loosens within b c) : Loosens within a c := by
  intro z hz
  obtain ⟨y, hy, hyz⟩ := hbc z hz
  obtain ⟨x, hx, hxy⟩ := hab y hy
  exact ⟨x, hx, IsTrans.trans x y z hxy hyz⟩

theorem Loosens.not_tightens {beyond : α → α → Prop} (h : ∀ x y, within x y → ¬beyond x y)
    {a b : Option α} (hloosens : Loosens within a b) : ¬Tightens beyond a b := by
  rintro ⟨y, hy, hbeyond⟩
  obtain ⟨x, hx, hxy⟩ := hloosens y hy
  exact h x y hxy (hbeyond x hx)

end Bounds

/-- A text that is dropped or kept, twice over. -/
theorem dropped_or_kept_trans {a b c : Option String} (hab : b = none ∨ b = a)
    (hbc : c = none ∨ c = b) : c = none ∨ c = a := by
  rcases hbc with rfl | rfl
  · exact .inl rfl
  · exact hab

namespace FieldAttrs.Widens

variable {a b c : FieldAttrs}

theorem refl (a : FieldAttrs) : a.Widens a where
  type := rfl
  required := id
  enumValues := fun ws hws => ⟨ws, hws, List.Subset.refl ws⟩
  format := .inr rfl
  pattern := .inr rfl
  minimum := .refl _
  maximum := .refl _
  minLength := .refl _
  maxLength := .refl _
  minItems := .refl _
  maxItems := .refl _
  uniqueItems := id

theorem trans (hab : a.Widens b) (hbc : b.Widens c) : a.Widens c where
  type := hbc.type.trans hab.type
  required := hab.required ∘ hbc.required
  enumValues := by
    intro xs hxs
    obtain ⟨ws, hws, hsub⟩ := hbc.enumValues xs hxs
    obtain ⟨vs, hvs, hsub'⟩ := hab.enumValues ws hws
    exact ⟨vs, hvs, List.Subset.trans hsub' hsub⟩
  format := dropped_or_kept_trans hab.format hbc.format
  pattern := dropped_or_kept_trans hab.pattern hbc.pattern
  minimum := hab.minimum.trans hbc.minimum
  maximum := hab.maximum.trans hbc.maximum
  minLength := hab.minLength.trans hbc.minLength
  maxLength := hab.maxLength.trans hbc.maxLength
  minItems := hab.minItems.trans hbc.minItems
  maxItems := hab.maxItems.trans hbc.maxItems
  uniqueItems := hab.uniqueItems ∘ hbc.uniqueItems

/-- What admits as much narrows nothing. -/
theorem not_narrows (h : a.Widens b) : ¬a.Narrows b := by
  intro hnarrows
  cases hnarrows with
  | enumValue hold hnew hv hgone =>
      obtain ⟨vs, hvs, hsub⟩ := h.enumValues _ hnew
      cases hold.symm.trans hvs
      exact hgone (hsub hv)
  | format hold hnew =>
      rcases h.format with hb | hb
      · simp [hb] at hnew
      · simp [hb, hold] at hnew
  | pattern hold hnew =>
      rcases h.pattern with hb | hb
      · simp [hb] at hnew
      · simp [hb, hold] at hnew
  | minimum ht => exact h.minimum.not_tightens (fun _ _ => not_lt.mpr) ht
  | maximum ht => exact h.maximum.not_tightens (fun _ _ => not_lt.mpr) ht
  | minLength ht => exact h.minLength.not_tightens (fun _ _ => not_lt.mpr) ht
  | maxLength ht => exact h.maxLength.not_tightens (fun _ _ => not_lt.mpr) ht
  | minItems ht => exact h.minItems.not_tightens (fun _ _ => not_lt.mpr) ht
  | maxItems ht => exact h.maxItems.not_tightens (fun _ _ => not_lt.mpr) ht
  | uniqueItems hold hnew => simp [h.uniqueItems hnew] at hold
  | required hold hnew => simp [h.required hnew] at hold

theorem not_changed (h : a.Widens b) : ¬a.Changed b := by
  intro hchanged
  cases hchanged with
  | narrowed hnarrows => exact h.not_narrows hnarrows
  | format hold hnew hne =>
      rcases h.format with hb | hb
      · simp [hb] at hnew
      · exact hne (Option.some.inj (hold.symm.trans (hb.symm.trans hnew)))
  | pattern hold hnew hne =>
      rcases h.pattern with hb | hb
      · simp [hb] at hnew
      · exact hne (Option.some.inj (hold.symm.trans (hb.symm.trans hnew)))

end FieldAttrs.Widens

/-- An edit of the attributes admits as much as before: all but one of them stay. -/
theorem FieldAttrs.Edit.widens {a b : FieldAttrs} (h : a.Edit b) : a.Widens b := by
  have hsame := FieldAttrs.Widens.refl a
  cases h with
  | description _ | default _ | xEmbed _ | xUi _ | extra _ => exact { hsame with }
  | addEnumValues hold hkept =>
      exact { hsame with enumValues := by rintro _ ⟨⟩; exact ⟨_, hold, hkept⟩ }
  | dropEnum => exact { hsame with enumValues := fun _ h => by cases h }
  | dropFormat => exact { hsame with format := .inl rfl }
  | dropPattern => exact { hsame with pattern := .inl rfl }
  | minimum h => exact { hsame with minimum := h }
  | maximum h => exact { hsame with maximum := h }
  | minLength h => exact { hsame with minLength := h }
  | maxLength h => exact { hsame with maxLength := h }
  | minItems h => exact { hsame with minItems := h }
  | maxItems h => exact { hsame with maxItems := h }
  | dropUniqueItems => exact { hsame with uniqueItems := fun h => by cases h }
  | dropRequired => exact { hsame with required := fun h => by cases h }

/-! ## Edits ease -/

section Easing

variable {ps qs rs : List (String × FieldTree)} {t t' t'' : FieldTree}

theorem FieldTree.Eased.refl (t : FieldTree) : t.Eased t :=
  ⟨.refl t.attrs, fun i hi => ⟨i, hi, rfl⟩⟩

theorem FieldTree.Eased.trans (h : t.Eased t') (h' : t'.Eased t'') : t.Eased t'' := by
  refine ⟨h.attrs.trans h'.attrs, fun i hi => ?_⟩
  obtain ⟨i', hi', htype⟩ := h.items i hi
  obtain ⟨i'', hi'', htype'⟩ := h'.items i' hi'
  exact ⟨i'', hi'', htype'.trans htype⟩

theorem FieldTree.Eased.not_changed (h : t.Eased t') : ¬t.Changed t' := by
  rintro (hne | ⟨hold, hnew, hne⟩ | hchanged)
  · exact hne h.attrs.type.symm
  · obtain ⟨i', hi', htype⟩ := h.items _ hold
    cases hnew.symm.trans hi'
    exact hne htype.symm
  · exact h.attrs.not_changed hchanged

theorem MapEased.refl (ps : List (String × FieldTree)) : MapEased ps ps where
  kept := fun _ t ht => ⟨t, ht, .refl t⟩
  optional := by
    intro name t' hnone hsome
    rw [hnone] at hsome
    cases hsome

theorem MapEased.trans (h : MapEased ps qs) (h' : MapEased qs rs) : MapEased ps rs where
  kept := by
    intro name t ht
    obtain ⟨t', ht', heased⟩ := h.kept name t ht
    obtain ⟨t'', ht'', heased'⟩ := h'.kept name t' ht'
    exact ⟨t'', ht'', heased.trans heased'⟩
  optional := by
    intro name t'' hnone ht''
    cases hmid : Entries.get? name qs with
    | none => exact h'.optional name t'' hmid ht''
    | some t' =>
        obtain ⟨u, hu, heased⟩ := h'.kept name t' hmid
        cases ht''.symm.trans hu
        have hrequired : t'.attrs.required = false := h.optional name t' hnone hmid
        rw [← Bool.not_eq_true] at hrequired ⊢
        exact fun hb => hrequired (heased.attrs.required hb)

theorem MapEased.not_changed (h : MapEased ps qs) : ¬MapChanged ps qs := by
  intro hchanged
  cases hchanged with
  | removed hold hnew =>
      obtain ⟨t', ht', -⟩ := h.kept _ _ hold
      rw [hnew] at ht'
      cases ht'
  | added hold hnew hrequired => simp [h.optional _ _ hold hnew] at hrequired
  | changed hold hnew hchanged =>
      obtain ⟨t', ht', heased⟩ := h.kept _ _ hold
      cases hnew.symm.trans ht'
      exact heased.not_changed hchanged

theorem FieldsEased.refl (ps : List (String × FieldTree)) : FieldsEased ps ps :=
  fun _ ms hms => ⟨ms, hms, .refl ms⟩

theorem FieldsEased.trans (h : FieldsEased ps qs) (h' : FieldsEased qs rs) : FieldsEased ps rs := by
  intro position ms hms
  obtain ⟨ns, hns, heased⟩ := h position ms hms
  obtain ⟨os, hos, heased'⟩ := h' position ns hns
  exact ⟨os, hos, heased.trans heased'⟩

/-- The maps that the first field nests are eased by those of the second. -/
def FieldTree.NestedEased (t t' : FieldTree) : Prop :=
  (∀ ms, t.itemMap = some ms → ∃ ns, t'.itemMap = some ns ∧ FieldsEased ms ns) ∧
    ∀ ms, t.properties = some ms → ∃ ns, t'.properties = some ns ∧ FieldsEased ms ns

theorem FieldTree.NestedEased.refl (t : FieldTree) : t.NestedEased t :=
  ⟨fun ms hms => ⟨ms, hms, .refl ms⟩, fun ms hms => ⟨ms, hms, .refl ms⟩⟩

/-- Maps are eased at every position if they are at the root and below every field. -/
theorem FieldsEased.of_root (hroot : MapEased ps qs)
    (hnested : ∀ name t t', Entries.get? name ps = some t → Entries.get? name qs = some t' →
      t.NestedEased t') : FieldsEased ps qs := by
  intro position ms hms
  cases position with
  | nil =>
      cases hms
      exact ⟨qs, rfl, hroot⟩
  | cons step position =>
      obtain ⟨below, hbelow, hms⟩ := Option.bind_eq_some_iff.mp hms
      obtain ⟨below', hbelow', heased⟩ :
          ∃ below', step.below qs = some below' ∧ FieldsEased below below' := by
        cases step with
        | items name =>
            obtain ⟨t, ht, hbelow⟩ := Option.bind_eq_some_iff.mp hbelow
            obtain ⟨t', ht', -⟩ := hroot.kept name t ht
            obtain ⟨below', hbelow', heased⟩ := (hnested name t t' ht ht').1 below hbelow
            exact ⟨below', by rw [Into.below, ht', Option.bind_some, hbelow'], heased⟩
        | properties name =>
            obtain ⟨t, ht, hbelow⟩ := Option.bind_eq_some_iff.mp hbelow
            obtain ⟨t', ht', -⟩ := hroot.kept name t ht
            obtain ⟨below', hbelow', heased⟩ := (hnested name t t' ht ht').2 below hbelow
            exact ⟨below', by rw [Into.below, ht', Option.bind_some, hbelow'], heased⟩
      obtain ⟨ns, hns, hmap⟩ := heased position ms hms
      exact ⟨ns, by rw [mapAt, hbelow', Option.bind_some, hns], hmap⟩

/-- A field replaced by one that eases it, and that nests maps that ease its own. -/
theorem FieldsEased.of_replaced {name : String} (hold : Entries.get? name ps = some t)
    (hroot : t.Eased t') (hnested : t.NestedEased t') :
    FieldsEased ps (Entries.insert name t' ps) := by
  refine .of_root ⟨fun l u hu => ?_, fun l u hnone hu => ?_⟩ fun l u u' hu hu' => ?_
  · rw [Entries.get?_insert]
    split_ifs with hl
    · subst hl
      cases hold.symm.trans hu
      exact ⟨t', rfl, hroot⟩
    · exact ⟨u, hu, .refl u⟩
  · rw [Entries.get?_insert] at hu
    split_ifs at hu with hl
    · subst hl
      rw [hold] at hnone
      cases hnone
    · rw [hnone] at hu
      cases hu
  · rw [Entries.get?_insert] at hu'
    split_ifs at hu' with hl
    · subst hl
      cases hold.symm.trans hu
      cases hu'
      exact hnested
    · cases hu.symm.trans hu'
      exact .refl u

/-- An optional field more. -/
theorem FieldsEased.of_added {name : String} (hnew : Entries.get? name ps = none)
    (hoptional : t.attrs.required = false) : FieldsEased ps (Entries.insert name t ps) := by
  have hother : ∀ l u, Entries.get? l ps = some u →
      Entries.get? l (Entries.insert name t ps) = some u := by
    intro l u hu
    rw [Entries.get?_insert, if_neg ?_]
    · exact hu
    · rintro rfl
      rw [hnew] at hu
      cases hu
  refine .of_root ⟨fun l u hu => ⟨u, hother l u hu, .refl u⟩, fun l u hnone hu => ?_⟩
    fun l u u' hu hu' => ?_
  · rw [Entries.get?_insert] at hu
    split_ifs at hu
    · cases hu
      exact hoptional
    · rw [hnone] at hu
      cases hu
  · cases (hother l u hu).symm.trans hu'
    exact .refl u

/-- **An edit of a field map eases it**, wherever in it the edit is. -/
theorem FieldsEdit.eased (h : FieldsEdit ps qs) : FieldsEased ps qs := by
  induction h with
  | add hnew hoptional => exact .of_added hnew hoptional
  | attrs hold hedit =>
      exact .of_replaced hold ⟨hedit.widens, fun i hi => ⟨i, hi, rfl⟩⟩
        ⟨fun ms hms => ⟨ms, hms, .refl ms⟩, fun ms hms => ⟨ms, hms, .refl ms⟩⟩
  | properties hold hedit ih =>
      refine .of_replaced hold ⟨.refl _, fun i hi => ⟨i, hi, rfl⟩⟩
        ⟨fun ms hms => ⟨ms, hms, .refl ms⟩, fun ms hms => ?_⟩
      obtain rfl := (show _ = some ms from hms)
      exact ⟨_, rfl, ih⟩
  | items hold hedit ih =>
      refine .of_replaced hold ⟨.refl _, fun i hi => ?_⟩
        ⟨fun ms hms => ?_, fun ms hms => ⟨ms, hms, .refl ms⟩⟩
      · cases hi
        exact ⟨_, rfl, rfl⟩
      · obtain ⟨i, hi, hobject, rfl⟩ := FieldTree.itemMap_eq_some.mp hms
        cases hi
        exact ⟨_, FieldTree.itemMap_eq_some.mpr ⟨_, rfl, hobject, rfl⟩, ih⟩

end Easing

namespace MetaSchemaDefinition

variable {a b c : MetaSchemaDefinition}

theorem Eased.refl (d : MetaSchemaDefinition) : d.Eased d where
  entityTypes := fun _ t ht => ⟨t, ht, .refl _⟩
  relationTypes := fun _ r hr => ⟨r, hr, rfl, rfl⟩

theorem Eased.trans (hab : a.Eased b) (hbc : b.Eased c) : a.Eased c where
  entityTypes := by
    intro typeName t ht
    obtain ⟨t', ht', heased⟩ := hab.entityTypes typeName t ht
    obtain ⟨t'', ht'', heased'⟩ := hbc.entityTypes typeName t' ht'
    exact ⟨t'', ht'', heased.trans heased'⟩
  relationTypes := by
    intro name r hr
    obtain ⟨r', hr', hsource, htarget⟩ := hab.relationTypes name r hr
    obtain ⟨r'', hr'', hsource', htarget'⟩ := hbc.relationTypes name r' hr'
    exact ⟨r'', hr'', hsource'.trans hsource, htarget'.trans htarget⟩

/-- A definition that is eased is reported nothing about. -/
theorem Eased.not_changed (h : a.Eased b) : ¬a.Changed b := by
  intro hchanged
  cases hchanged with
  | entityType hold hnew =>
      obtain ⟨t', ht', -⟩ := h.entityTypes _ _ hold
      rw [hnew] at ht'
      cases ht'
  | fields hold hnew hmap =>
      obtain ⟨t, ht, hps⟩ := mapAt_eq_some.mp hold
      obtain ⟨t', ht', hqs⟩ := mapAt_eq_some.mp hnew
      obtain ⟨t'', ht'', heased⟩ := h.entityTypes _ _ ht
      cases ht'.symm.trans ht''
      obtain ⟨ns, hns, hmapEased⟩ := heased _ _ hps
      cases hqs.symm.trans hns
      exact hmapEased.not_changed hmap
  | relationType hold hnew =>
      obtain ⟨r', hr', -⟩ := h.relationTypes _ _ hold
      rw [hnew] at hr'
      cases hr'
  | endpoints hold hnew hne =>
      obtain ⟨r', hr', hsource, htarget⟩ := h.relationTypes _ _ hold
      cases hnew.symm.trans hr'
      exact hne.elim (fun hne => hne hsource.symm) fun hne => hne htarget.symm

/-- An entity type put where it eases the one that was there, if there was one. -/
theorem Eased.of_entityType {typeName : String} {t' : EntityTypeDef}
    (h : ∀ t, a.entityTypes.get? typeName = some t → FieldsEased t.trees t'.trees) :
    a.Eased { a with entityTypes := a.entityTypes.insert typeName t' } where
  entityTypes := by
    intro l t ht
    rw [OrderedMap.get?_insert]
    split_ifs with hl
    · subst hl
      exact ⟨t', rfl, h t ht⟩
    · exact ⟨t, ht, .refl _⟩
  relationTypes := fun _ r hr => ⟨r, hr, rfl, rfl⟩

theorem Eased.of_relationType {name : String} {r' : RelationTypeDef}
    (h : ∀ r, a.relationTypes.get? name = some r →
      r'.source = r.source ∧ r'.target = r.target) :
    a.Eased { a with relationTypes := a.relationTypes.insert name r' } where
  entityTypes := fun _ t ht => ⟨t, ht, .refl _⟩
  relationTypes := by
    intro l r hr
    rw [OrderedMap.get?_insert]
    split_ifs with hl
    · subst hl
      exact ⟨r', rfl, h r hr⟩
    · exact ⟨r, hr, rfl, rfl⟩

/-- **An edit eases a definition.** -/
theorem Edit.eased (h : a.Edit b) : a.Eased b := by
  cases h with
  | description text => exact ⟨fun _ t ht => ⟨t, ht, .refl _⟩, fun _ r hr => ⟨r, hr, rfl, rfl⟩⟩
  | entityTypeDescription hold text =>
      refine .of_entityType fun t ht => ?_
      cases hold.symm.trans ht
      exact .refl _
  | fields hold hsame hedit =>
      refine .of_entityType fun t ht => ?_
      cases hold.symm.trans ht
      exact hedit.eased
  | addEntityType hnew t =>
      refine .of_entityType fun t' ht' => ?_
      rw [hnew] at ht'
      cases ht'
  | relationTypeDescription hold text =>
      refine .of_relationType fun r hr => ?_
      cases hold.symm.trans hr
      exact ⟨rfl, rfl⟩
  | addRelationType hnew r =>
      refine .of_relationType fun r' hr' => ?_
      rw [hnew] at hr'
      cases hr'

/-- What edits one after the other keep. -/
theorem eased_of_edits (h : Relation.ReflTransGen Edit a b) : a.Eased b := by
  induction h with
  | refl => exact .refl a
  | tail _ hedit ih => exact ih.trans hedit.eased

end MetaSchemaDefinition

/-! ## Main result -/

/-- **Edits that describe otherwise or admit more are never breaking**, however many of them and
wherever they are. -/
theorem edits_not_breaking (d d' : MetaSchemaDefinition)
    (h : Relation.ReflTransGen MetaSchemaDefinition.Edit d d') :
    (diff d d').reasons = [] ∧ (diff d d').isBreaking = false := by
  have hsame : ¬d.Changed d' := (MetaSchemaDefinition.eased_of_edits h).not_changed
  exact ⟨diff_reasons_eq_nil_iff.mpr hsame, not_isBreaking_iff.mpr hsame⟩

/-- The definition of tasks with a description. -/
def describedDefinition : MetaSchemaDefinition :=
  { statusDefinition (some ["open"]) with description := some "our tasks" }

/-- A description is added, then a value to the enum of the status. -/
theorem edits_not_breaking_status :
    (diff (statusDefinition (some ["open"]))
      { describedDefinition with
        entityTypes := describedDefinition.entityTypes.insert "task"
          (taskType (some ["open", "done"])) }).reasons = [] := by
  have hvalues : (statusAttrs (some ["open"])).Edit
      { statusAttrs (some ["open"]) with enumValues := some ["open", "done"] } :=
    .addEnumValues rfl (by simp)
  have hfields : FieldsEdit (taskType (some ["open"])).trees
      (Entries.insert "status" (.mk (statusAttrs (some ["open", "done"])) none none)
        (taskType (some ["open"])).trees) :=
    .attrs rfl hvalues
  have hdescribed : (statusDefinition (some ["open"])).Edit describedDefinition :=
    .description (some "our tasks")
  have hold : describedDefinition.entityTypes.get? "task" = some (taskType (some ["open"])) := rfl
  have hsame : (taskType (some ["open", "done"])).description =
      (taskType (some ["open"])).description := rfl
  have hadded := MetaSchemaDefinition.Edit.fields hold hsame hfields
  exact (edits_not_breaking _ _ (.tail (.single hdescribed) hadded)).1

end Yorishiro.Metaschema
