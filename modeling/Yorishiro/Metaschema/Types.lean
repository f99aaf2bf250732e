import Yorishiro.Lib.Json

/-!
# Metaschema definitions

The data model of `metaschema/types.rs`. A field definition is a tree: an array
field may describe its items, an object field its properties, and both nest field
definitions. `FieldTree` is that tree with its nested maps as entry lists, and
`FieldDef` is a tree all of whose nested maps are in key order, as the source's
`BTreeMap`s are.

`FieldTree.toJson` is the serialised form. It keeps everything
(`FieldTree.toJson_injective`): attributes that are left out when empty are told
apart from those that are present, and the unknown attributes of `extra` never
carry the name of a known one.
-/

set_option autoImplicit false

namespace Yorishiro.Metaschema

open Yorishiro.Lib

/-! ## Types -/

/-- `FieldTypeName`. -/
inductive FieldTypeName where
  | string
  | number
  | integer
  | boolean
  | array
  | object
deriving DecidableEq, Repr

/-- `ArrayItemType`. -/
inductive ArrayItemType where
  | string
  | object
deriving DecidableEq, Repr

/-- The attribute names `FieldDef` knows, in its own order. -/
def reservedNames : List String :=
  [ "type", "required", "description", "enum", "format", "minimum", "maximum", "minLength",
    "maxLength", "pattern", "minItems", "maxItems", "uniqueItems", "default", "items",
    "properties", "x-embed", "x-ui" ]

/-- Unknown attributes, kept as they are; none of them has a known name. -/
structure Extra where
  members : OrderedMap String Json
  unknown : ∀ k ∈ reservedNames, members.get? k = none

instance : DecidableEq Extra := fun a b =>
  decidable_of_iff (a.members = b.members) (by cases a; cases b; simp)

/-- No unknown attribute. -/
def Extra.none : Extra := ⟨OrderedMap.empty, fun _ _ => rfl⟩

/-- The attributes of a field definition that are not field definitions themselves. -/
structure FieldAttrs where
  type : FieldTypeName
  required : Bool
  description : Option String
  enumValues : Option (List String)
  format : Option String
  minimum : Option ℚ
  maximum : Option ℚ
  minLength : Option Nat
  maxLength : Option Nat
  pattern : Option String
  minItems : Option Nat
  maxItems : Option Nat
  uniqueItems : Bool
  default : Option Json
  xEmbed : Bool
  xUi : Option Json
  extra : Extra
deriving DecidableEq

/-- The attributes of a field of which only the type is given. -/
def FieldAttrs.ofType (type : FieldTypeName) : FieldAttrs where
  type := type
  required := false
  description := none
  enumValues := none
  format := none
  minimum := none
  maximum := none
  minLength := none
  maxLength := none
  pattern := none
  minItems := none
  maxItems := none
  uniqueItems := false
  default := none
  xEmbed := false
  xUi := none
  extra := .none

mutual

/-- A field definition with its nested maps as entry lists. -/
inductive FieldTree where
  | mk (attrs : FieldAttrs) (items : Option ItemsTree)
      (properties : Option (List (String × FieldTree)))

/-- `ArrayItems` with its properties as an entry list. -/
inductive ItemsTree where
  | mk (type : ArrayItemType) (properties : Option (List (String × FieldTree)))

end

namespace FieldTree

/-- The attributes at the root. -/
def attrs : FieldTree → FieldAttrs
  | .mk a _ _ => a

/-- The description of the items, when there is one. -/
def items : FieldTree → Option ItemsTree
  | .mk _ i _ => i

/-- The properties, when there are any. -/
def properties : FieldTree → Option (List (String × FieldTree))
  | .mk _ _ p => p

end FieldTree

/-- The type of the items. -/
def ItemsTree.type : ItemsTree → ArrayItemType
  | .mk t _ => t

/-- The properties of the items, when there are any. -/
def ItemsTree.properties : ItemsTree → Option (List (String × FieldTree))
  | .mk _ p => p

/-- Children of a tree: the fields of its items and of its properties. -/
def FieldTree.children (t : FieldTree) : List (String × FieldTree) :=
  (t.items.bind ItemsTree.properties).getD [] ++ t.properties.getD []

/-! ## Induction and order -/

section Induction

variable {P : FieldTree → Prop}

mutual

theorem FieldTree.recAux
    (h : ∀ t : FieldTree, (∀ e ∈ t.children, P e.2) → P t) : ∀ t, P t
  -- one case for each pair of nested maps that may be there
  | .mk a none none => h _ (by simp [children, items, properties])
  | .mk a (some (.mk ty none)) none =>
      h _ (by simp [children, items, properties, ItemsTree.properties])
  | .mk a (some (.mk ty (some is))) none =>
      h _ (by
        simpa [children, items, properties, ItemsTree.properties] using
          FieldTree.recAuxList h is)
  | .mk a none (some ps) =>
      h _ (by simpa [children, items, properties] using FieldTree.recAuxList h ps)
  | .mk a (some (.mk ty none)) (some ps) =>
      h _ (by
        simpa [children, items, properties, ItemsTree.properties] using
          FieldTree.recAuxList h ps)
  | .mk a (some (.mk ty (some is))) (some ps) =>
      h _ (by
        intro e he
        rcases List.mem_append.mp he with he | he
        · exact FieldTree.recAuxList h is e he
        · exact FieldTree.recAuxList h ps e he)

theorem FieldTree.recAuxList
    (h : ∀ t : FieldTree, (∀ e ∈ t.children, P e.2) → P t) :
    ∀ (es : List (String × FieldTree)), ∀ e ∈ es, P e.2
  | [], _, he => by cases he
  | (k, t) :: es, e, he => by
      rcases List.mem_cons.mp he with he | he
      · rw [he]
        exact FieldTree.recAux h t
      · exact FieldTree.recAuxList h es e he

end

/-- Induction on field trees: a property passes from the children to the tree. -/
theorem FieldTree.rec' (h : ∀ t : FieldTree, (∀ e ∈ t.children, P e.2) → P t) (t : FieldTree) :
    P t :=
  FieldTree.recAux h t

end Induction

instance Sorted.decidable {α : Type} (es : List (String × α)) : Decidable (Entries.Sorted es) :=
  inferInstanceAs (Decidable (List.Pairwise _ _))

mutual

/-- Every nested map of the tree is in key order. -/
def FieldTree.ordered : FieldTree → Bool
  | .mk _ items properties =>
      (match items with
        | some (.mk _ (some is)) => decide (Entries.Sorted is) && FieldTree.orderedList is
        | _ => true) &&
      (match properties with
        | some ps => decide (Entries.Sorted ps) && FieldTree.orderedList ps
        | none => true)

/-- `ordered` along an entry list. -/
def FieldTree.orderedList : List (String × FieldTree) → Bool
  | [] => true
  | (_, t) :: es => t.ordered && FieldTree.orderedList es

end

theorem FieldTree.orderedList_eq_all (es : List (String × FieldTree)) :
    FieldTree.orderedList es = es.all fun e => e.2.ordered := by
  induction es with
  | nil => rfl
  | cons e es ih => rw [FieldTree.orderedList, List.all_cons, ih]

theorem FieldTree.ordered_properties {t : FieldTree} (h : t.ordered = true)
    {ps : List (String × FieldTree)} (hps : t.properties = some ps) :
    Entries.Sorted ps ∧ ∀ e ∈ ps, e.2.ordered = true := by
  obtain ⟨a, i, p⟩ := t
  obtain rfl : p = some ps := hps
  rw [ordered.eq_def] at h
  simp only [Bool.and_eq_true, decide_eq_true_eq, orderedList_eq_all, List.all_eq_true] at h
  exact h.2

theorem FieldTree.ordered_items {t : FieldTree} (h : t.ordered = true) {i : ItemsTree}
    (hi : t.items = some i) :
    Entries.Sorted (i.properties.getD []) ∧ ∀ e ∈ i.properties.getD [], e.2.ordered = true := by
  obtain ⟨a, i', p⟩ := t
  obtain rfl : i' = some i := hi
  obtain ⟨ty, is⟩ := i
  rw [ordered.eq_def] at h
  cases is with
  | none => exact ⟨List.Pairwise.nil, fun e he => by cases he⟩
  | some is =>
      simp only [Bool.and_eq_true, decide_eq_true_eq, orderedList_eq_all, List.all_eq_true] at h
      exact h.1

/-- A field definition: a tree whose nested maps are in key order. -/
def FieldDef := { t : FieldTree // t.ordered = true }

/-- An entity type: its fields by name. -/
structure EntityTypeDef where
  description : Option String
  fields : OrderedMap String FieldDef

/-- A relation type between two entity types. -/
structure RelationTypeDef where
  source : String
  target : String
  description : Option String
deriving DecidableEq, Repr

/-- `MetaSchemaDefinition`. -/
structure MetaSchemaDefinition where
  name : String
  description : Option String
  entityTypes : OrderedMap String EntityTypeDef
  relationTypes : OrderedMap String RelationTypeDef

/-- The fields of an entity type as trees. -/
def EntityTypeDef.trees (t : EntityTypeDef) : List (String × FieldTree) :=
  t.fields.entries.map fun e => (e.1, e.2.val)

theorem EntityTypeDef.sorted_trees (t : EntityTypeDef) : Entries.Sorted t.trees :=
  t.fields.sorted.mapValues fun _ f => f.val

theorem EntityTypeDef.ordered_of_mem (t : EntityTypeDef) {e : String × FieldTree}
    (he : e ∈ t.trees) : e.2.ordered = true := by
  obtain ⟨d, -, rfl⟩ := List.mem_map.mp he
  exact d.2.property

/-! ## Serialisation -/

/-- The serialised name of a field type. -/
def FieldTypeName.name : FieldTypeName → String
  | .string => "string"
  | .number => "number"
  | .integer => "integer"
  | .boolean => "boolean"
  | .array => "array"
  | .object => "object"

/-- The serialised name of an item type. -/
def ArrayItemType.name : ArrayItemType → String
  | .string => "string"
  | .object => "object"

/-- A flag that is left out when it is not set. -/
def flagJson (b : Bool) : Option Json := if b then some (.bool true) else none

/-- An integer as a JSON number. -/
def natJson (n : Nat) : Json := .number (.int n)

/-- A bound as a JSON number. -/
def boundJson (q : ℚ) : Json := .number (.float q)

/-- A list of texts as a JSON array. -/
def stringsJson (ss : List String) : Json := .array (ss.map .string)

/-- The known attributes with their serialised values. -/
def FieldAttrs.named (a : FieldAttrs) (items properties : Option Json) :
    List (String × Option Json) :=
  [ ("type", some (.string a.type.name)),
    ("required", some (.bool a.required)),
    ("description", a.description.map .string),
    ("enum", a.enumValues.map stringsJson),
    ("format", a.format.map .string),
    ("minimum", a.minimum.map boundJson),
    ("maximum", a.maximum.map boundJson),
    ("minLength", a.minLength.map natJson),
    ("maxLength", a.maxLength.map natJson),
    ("pattern", a.pattern.map .string),
    ("minItems", a.minItems.map natJson),
    ("maxItems", a.maxItems.map natJson),
    ("uniqueItems", flagJson a.uniqueItems),
    ("default", a.default),
    ("items", items),
    ("properties", properties),
    ("x-embed", flagJson a.xEmbed),
    ("x-ui", a.xUi) ]

mutual

/-- `serde_json::to_value` of a field definition. -/
def FieldTree.toJson : FieldTree → Json
  | .mk a items properties =>
      .object (Entries.insertSome
        (a.named
          (match items with
            | none => none
            | some i => some i.toJson)
          (match properties with
            | none => none
            | some ps => some (.object (FieldTree.membersJson ps))))
        a.extra.members.entries)

/-- `serde_json::to_value` of an item description. -/
def ItemsTree.toJson : ItemsTree → Json
  | .mk ty properties =>
      .object (Entries.insertSome
        [ ("type", some (.string ty.name)),
          ("properties", match properties with
            | none => none
            | some ps => some (.object (FieldTree.membersJson ps))) ]
        [])

/-- The members of a serialised field map. -/
def FieldTree.membersJson : List (String × FieldTree) → List (String × Json)
  | [] => []
  | (k, t) :: es => (k, t.toJson) :: FieldTree.membersJson es

end

/-- A serialised field map, when there is one. -/
def mapJson (o : Option (List (String × FieldTree))) : Option Json :=
  o.map fun ps => .object (FieldTree.membersJson ps)

theorem FieldTree.toJson_mk (a : FieldAttrs) (i : Option ItemsTree)
    (p : Option (List (String × FieldTree))) :
    (FieldTree.mk a i p).toJson =
      .object (Entries.insertSome (a.named (i.map ItemsTree.toJson) (mapJson p))
        a.extra.members.entries) := by
  cases i <;> cases p <;> rw [FieldTree.toJson] <;> rfl

theorem ItemsTree.toJson_mk (ty : ArrayItemType) (p : Option (List (String × FieldTree))) :
    (ItemsTree.mk ty p).toJson =
      .object (Entries.insertSome
        [("type", some (.string ty.name)), ("properties", mapJson p)] []) := by
  cases p <;> rw [ItemsTree.toJson] <;> rfl

section Injectivity

theorem FieldTypeName.name_injective : Function.Injective FieldTypeName.name := by
  intro a b h
  cases a <;> cases b <;> first | rfl | (exact absurd h (by decide))

theorem ArrayItemType.name_injective : Function.Injective ArrayItemType.name := by
  intro a b h
  cases a <;> cases b <;> first | rfl | (exact absurd h (by decide))

theorem string_injective : Function.Injective Json.string := fun _ _ h => Json.string.inj h

theorem natJson_injective : Function.Injective natJson := by
  intro m n h
  have := Number.int.inj (Json.number.inj h)
  exact Int.ofNat.inj this

theorem boundJson_injective : Function.Injective boundJson := fun _ _ h =>
  Number.float.inj (Json.number.inj h)

theorem stringsJson_injective : Function.Injective stringsJson := fun _ _ h =>
  List.map_injective_iff.mpr string_injective (Json.array.inj h)

theorem flagJson_injective : Function.Injective flagJson := by
  intro a b h
  cases a <;> cases b <;> first | rfl | cases h

theorem reservedNames_nodup : reservedNames.Nodup := by decide

theorem FieldAttrs.named_keys (a : FieldAttrs) (i p : Option Json) :
    (a.named i p).map Prod.fst = reservedNames := rfl

/-- The named attributes determine the attributes, apart from the unknown ones. -/
theorem FieldAttrs.named_inj {a b : FieldAttrs} {i j p q : Option Json}
    (h : a.named i p = b.named j q) (hextra : a.extra = b.extra) : a = b ∧ i = j ∧ p = q := by
  simp only [FieldAttrs.named, List.cons.injEq, Prod.mk.injEq, true_and, and_true,
    Option.some.injEq] at h
  obtain ⟨htype, hreq, hdesc, henum, hfmt, hmin, hmax, hminL, hmaxL, hpat, hminI, hmaxI, huniq,
    hdef, hitems, hprops, hembed, hui⟩ := h
  refine ⟨?_, hitems, hprops⟩
  cases a
  cases b
  simp only [FieldAttrs.mk.injEq]
  exact ⟨FieldTypeName.name_injective (string_injective htype), Json.bool.inj hreq,
    Option.map_injective string_injective hdesc, Option.map_injective stringsJson_injective henum,
    Option.map_injective string_injective hfmt, Option.map_injective boundJson_injective hmin,
    Option.map_injective boundJson_injective hmax, Option.map_injective natJson_injective hminL,
    Option.map_injective natJson_injective hmaxL, Option.map_injective string_injective hpat,
    Option.map_injective natJson_injective hminI, Option.map_injective natJson_injective hmaxI,
    flagJson_injective huniq, hdef, flagJson_injective hembed, hui, hextra⟩

/-- The serialised members of a field map, entry by entry. -/
theorem FieldTree.membersJson_eq_map (es : List (String × FieldTree)) :
    FieldTree.membersJson es = es.map fun e => (e.1, e.2.toJson) := by
  induction es with
  | nil => rfl
  | cons e es ih => rw [FieldTree.membersJson, List.map_cons, ih]

theorem FieldTree.membersJson_inj {es ds : List (String × FieldTree)}
    (hchildren : ∀ e ∈ es, ∀ t, e.2.toJson = t.toJson → e.2 = t)
    (h : FieldTree.membersJson es = FieldTree.membersJson ds) : es = ds := by
  rw [membersJson_eq_map, membersJson_eq_map] at h
  -- both lists are walked together: equal keys, and equal trees by the hypothesis
  induction es generalizing ds with
  | nil =>
      cases ds with
      | nil => rfl
      | cons d ds => cases h
  | cons e es ih =>
      cases ds with
      | nil => cases h
      | cons d ds =>
          obtain ⟨hed, hrest⟩ := List.cons.inj h
          obtain ⟨hkey, hval⟩ := Prod.mk.inj hed
          have htree : e.2 = d.2 := hchildren e List.mem_cons_self d.2 hval
          have hes : es = ds := ih (fun e' he' => hchildren e' (List.mem_cons_of_mem _ he')) hrest
          rw [Prod.ext hkey htree, hes]

/-- The optional maps inside a tree are read back from their serialised form. -/
theorem FieldTree.optionMembers_inj {o o' : Option (List (String × FieldTree))}
    (hchildren : ∀ es, o = some es → ∀ e ∈ es, ∀ t, e.2.toJson = t.toJson → e.2 = t)
    (h : mapJson o = mapJson o') : o = o' := by
  cases o with
  | none =>
      cases o' with
      | none => rfl
      | some ds => cases h
  | some es =>
      cases o' with
      | none => cases h
      | some ds =>
          have hmembers := Json.object.inj (Option.some.inj h)
          rw [membersJson_inj (hchildren es rfl) hmembers]

theorem ItemsTree.toJson_inj {i j : ItemsTree}
    (hchildren : ∀ es, i.properties = some es → ∀ e ∈ es, ∀ t, e.2.toJson = t.toJson → e.2 = t)
    (h : i.toJson = j.toJson) : i = j := by
  obtain ⟨ty, o⟩ := i
  obtain ⟨ty', o'⟩ := j
  rw [toJson_mk, toJson_mk] at h
  obtain ⟨hnamed, -⟩ := Entries.insertSome_inj (by rfl) (by simp) (fun _ _ => rfl)
    (fun _ _ => rfl) (Json.object.inj h)
  simp only [List.cons.injEq, Prod.mk.injEq, Option.some.injEq, true_and, and_true] at hnamed
  obtain ⟨htype, hprops⟩ := hnamed
  have hty : ty = ty' := ArrayItemType.name_injective (string_injective htype)
  have ho : o = o' := FieldTree.optionMembers_inj hchildren hprops
  rw [hty, ho]

/-- **Serialisation keeps everything.** -/
theorem FieldTree.toJson_injective : Function.Injective FieldTree.toJson := by
  intro t
  induction t using FieldTree.rec' with
  | h t ih =>
      intro t' h
      obtain ⟨a, i, p⟩ := t
      obtain ⟨b, j, q⟩ := t'
      rw [toJson_mk, toJson_mk] at h
      -- unknown attributes never use a known name, so the two parts can be told apart
      obtain ⟨hnamed, hextra⟩ := Entries.insertSome_inj
        (by rw [FieldAttrs.named_keys, FieldAttrs.named_keys])
        (by rw [FieldAttrs.named_keys]; exact reservedNames_nodup)
        (by rw [FieldAttrs.named_keys]; exact a.extra.unknown)
        (by rw [FieldAttrs.named_keys]; exact b.extra.unknown) (Json.object.inj h)
      have hext : a.extra = b.extra := by
        cases ha : a.extra with
        | mk m hm =>
            cases hb : b.extra with
            | mk n hn =>
                rw [ha, hb] at hextra
                congr 1
                exact OrderedMap.ext_get? hextra
      obtain ⟨hattrs, hitems, hprops⟩ := FieldAttrs.named_inj hnamed hext
      -- the nested maps are read back by the induction hypothesis on their fields
      have hp : p = q := by
        refine optionMembers_inj (fun es hes e he t' ht => ih e ?_ ht) hprops
        simp [children, properties, hes, he]
      have hi : i = j := by
        cases i with
        | none =>
            cases j with
            | none => rfl
            | some j => cases hitems
        | some i =>
            cases j with
            | none => cases hitems
            | some j =>
                congr 1
                refine ItemsTree.toJson_inj (fun es hes e he t' ht => ih e ?_ ht)
                  (Option.some.inj hitems)
                simp [children, items, hes, he]
      rw [hattrs, hi, hp]

end Injectivity

instance : DecidableEq FieldTree := fun a b =>
  decidable_of_iff (a.toJson = b.toJson) FieldTree.toJson_injective.eq_iff

instance : DecidableEq FieldDef := inferInstanceAs (DecidableEq (Subtype _))

instance : DecidableEq EntityTypeDef := fun a b =>
  decidable_of_iff (a.description = b.description ∧ a.fields = b.fields) (by
    cases a; cases b; simp)

end Yorishiro.Metaschema
