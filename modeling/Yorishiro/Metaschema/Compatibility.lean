import Yorishiro.Metaschema.Projection
import Yorishiro.Metaschema.Validate
import Yorishiro.Metaschema.Versioning

/-!
# Data compatibility of versions

When `diff` has nothing to say about two valid definitions, data of the old one is
data of the new one (`compatible`), with two provisos that the comparison does not
cover: no field of both versions gains an enum, and the data has no members that
the old version does not declare, since a new optional field may constrain those.

The proof goes along the old field tree. One level is `fieldsAccept_of_silent`,
which takes the fields' own compatibility as a hypothesis; the induction is
`field_compatible`. `compiles_entityTypeToJsonSchema` adds that a validator can be
built for every entity type of a valid definition.
-/

set_option autoImplicit false

namespace Yorishiro.Metaschema

open Yorishiro.Lib
open Yorishiro.Lib.JsonSchema

/-! ## The provisos -/

/-- A step from a field into the fields it nests. -/
inductive Hop where
  | item (name : String)
  | property (name : String)
deriving DecidableEq, Repr

/-- The field one step below, when there is one. -/
def FieldTree.child (t : FieldTree) : Hop → Option FieldTree
  | .item name => (t.items.bind ItemsTree.properties).bind (Entries.get? name)
  | .property name => t.properties.bind (Entries.get? name)

theorem FieldTree.child_item {t : FieldTree} {i : ItemsTree} (hi : t.items = some i)
    (name : String) : t.child (.item name) = Entries.get? name (i.properties.getD []) := by
  rw [child, hi, Option.bind_some]
  cases i.properties with
  | none => rfl
  | some ps => rfl

theorem FieldTree.child_property {t : FieldTree} {ps : List (String × FieldTree)}
    (hps : t.properties = some ps) (name : String) :
    t.child (.property name) = Entries.get? name ps := by
  rw [child, hps, Option.bind_some]

theorem FieldTree.mem_children_of_items {t : FieldTree} {i : ItemsTree} (hi : t.items = some i)
    {e : String × FieldTree} (he : e ∈ i.properties.getD []) : e ∈ t.children := by
  apply List.mem_append_left
  rw [hi]
  exact he

theorem FieldTree.mem_children_of_properties {t : FieldTree} {ps : List (String × FieldTree)}
    (hps : t.properties = some ps) {e : String × FieldTree} (he : e ∈ ps) : e ∈ t.children := by
  apply List.mem_append_right
  rw [hps]
  exact he

theorem FieldTree.mem_children_of_child {t u : FieldTree} {hop : Hop} (h : t.child hop = some u) :
    ∃ name, (name, u) ∈ t.children := by
  cases hop with
  | item name =>
      obtain ⟨ps, hps, -⟩ := Option.bind_eq_some_iff.mp h
      obtain ⟨i, hi, -⟩ := Option.bind_eq_some_iff.mp hps
      rw [child_item hi] at h
      exact ⟨name, mem_children_of_items hi (Entries.mem_of_get? h)⟩
  | property name =>
      obtain ⟨ps, hps, hget⟩ := Option.bind_eq_some_iff.mp h
      exact ⟨name, mem_children_of_properties hps (Entries.mem_of_get? hget)⟩

/-- The field at the end of a path, when there is one. -/
def FieldTree.descend (t : FieldTree) : List Hop → Option FieldTree
  | [] => some t
  | hop :: hops => (t.child hop).bind fun u => u.descend hops

/-- At no depth does a field that both trees have gain an enum. -/
def FieldTree.NoEnumGained (old new : FieldTree) : Prop :=
  ∀ hops f g, old.descend hops = some f → new.descend hops = some g →
    f.attrs.enumValues = none → g.attrs.enumValues = none

/-- No field of both definitions, at any depth, gains an enum. -/
def MetaSchemaDefinition.NoEnumGained (old new : MetaSchemaDefinition) : Prop :=
  ∀ typeName t t' name f f', old.entityTypes.get? typeName = some t →
    new.entityTypes.get? typeName = some t' → Entries.get? name t.trees = some f →
    Entries.get? name t'.trees = some f' → f.NoEnumGained f'

/-- Every member of an object is declared by the fields. -/
def declaresKeys (fields : List (String × FieldTree)) (d : Json) : Bool :=
  d.members.all fun m => (Entries.get? m.1 fields).isSome

mutual

/-- Objects in the value have only members that the field declares, at every level. -/
def FieldTree.onlyDeclared : FieldTree → Json → Bool
  | .mk _ items properties, d =>
      (match items with
        | some i => d.elements.all fun v => ItemsTree.onlyDeclared i v
        | none => true) &&
      (match properties with
        | some ps => declaresKeys ps d && onlyDeclaredBelow ps d
        | none => true)

/-- `onlyDeclared` for one item of an array. -/
def ItemsTree.onlyDeclared : ItemsTree → Json → Bool
  | .mk _ (some ps), d => declaresKeys ps d && onlyDeclaredBelow ps d
  -- items without a property map declare no member at all
  | .mk _ none, d => declaresKeys [] d

/-- The members that the fields describe have only declared members below them. -/
def onlyDeclaredBelow : List (String × FieldTree) → Json → Bool
  | [], _ => true
  | (name, t) :: fields, d =>
      (match Entries.get? name d.members with
        | some v => FieldTree.onlyDeclared t v
        | none => true) && onlyDeclaredBelow fields d

end

/-- At every object level the value has only members that the fields declare. -/
def onlyDeclared (fields : List (String × FieldTree)) (d : Json) : Bool :=
  declaresKeys fields d && onlyDeclaredBelow fields d

section Declared

variable {fields : List (String × FieldTree)} {d : Json}

theorem onlyDeclaredBelow_iff : onlyDeclaredBelow fields d = true ↔
    ∀ e ∈ fields, ∀ v, Entries.get? e.1 d.members = some v → e.2.onlyDeclared v = true := by
  induction fields with
  | nil => simp [onlyDeclaredBelow]
  | cons e fields ih =>
      obtain ⟨name, t⟩ := e
      rw [onlyDeclaredBelow, Bool.and_eq_true, ih, List.forall_mem_cons]
      cases Entries.get? name d.members with
      | none => simp
      | some v => simp

/-- A member of the object is a declared field, with only declared members below it. -/
theorem onlyDeclared_member (h : onlyDeclared fields d = true) {name : String} {v : Json}
    (hv : Entries.get? name d.members = some v) :
    ∃ t, Entries.get? name fields = some t ∧ t.onlyDeclared v = true := by
  obtain ⟨hkeys, hbelow⟩ := (Bool.and_eq_true _ _).mp h
  have hname := List.all_eq_true.mp hkeys (name, v) (Entries.mem_of_get? hv)
  obtain ⟨t, ht⟩ := Option.isSome_iff_exists.mp hname
  exact ⟨t, ht, onlyDeclaredBelow_iff.mp hbelow (name, t) (Entries.mem_of_get? ht) v hv⟩

theorem FieldTree.onlyDeclared_properties {t : FieldTree} (h : t.onlyDeclared d = true)
    (hps : t.properties = some fields) : Metaschema.onlyDeclared fields d = true := by
  obtain ⟨a, i, p⟩ := t
  obtain rfl : p = some fields := hps
  rw [FieldTree.onlyDeclared.eq_def] at h
  exact ((Bool.and_eq_true _ _).mp h).2

theorem FieldTree.onlyDeclared_items {t : FieldTree} (h : t.onlyDeclared d = true)
    {i : ItemsTree} (hi : t.items = some i) :
    ∀ v ∈ d.elements, Metaschema.onlyDeclared (i.properties.getD []) v = true := by
  obtain ⟨a, i', p⟩ := t
  obtain rfl : i' = some i := hi
  obtain ⟨ty, ps⟩ := i
  rw [FieldTree.onlyDeclared.eq_def] at h
  intro v hv
  have hitem := List.all_eq_true.mp ((Bool.and_eq_true _ _).mp h).1 v hv
  cases ps with
  | none =>
      rw [ItemsTree.onlyDeclared] at hitem
      simpa [Metaschema.onlyDeclared, ItemsTree.properties, onlyDeclaredBelow] using hitem
  | some ps =>
      rw [ItemsTree.onlyDeclared] at hitem
      exact hitem

end Declared

theorem FieldTree.NoEnumGained.child {old new f f' : FieldTree} (h : old.NoEnumGained new)
    {hop : Hop} (hold : old.child hop = some f) (hnew : new.child hop = some f') :
    f.NoEnumGained f' := by
  intro hops g g' hg hg'
  apply h (hop :: hops) g g'
  · rw [descend, hold]
    exact hg
  · rw [descend, hnew]
    exact hg'

/-! ## One level -/

section Level

variable {env : Dialect}

/-- Attributes that got no narrower accept what they accepted. -/
theorem FieldAttrs.Accepts.mono {a b : FieldAttrs} {d : Json} (h : a.Accepts env d)
    (hab : a.NoNarrower b) (htype : a.type = b.type)
    (henum : a.enumValues = none → b.enumValues = none) : b.Accepts env d where
  type := htype ▸ h.type
  enum := by
    intro ws hws
    cases hvs : a.enumValues with
    -- the comparison does not report an enum that is new, so this is a hypothesis
    | none => rw [henum hvs] at hws; cases hws
    | some vs =>
        obtain ⟨v, hv, hd⟩ := h.enum vs hvs
        exact ⟨v, hab.enum vs ws hvs hws v hv, hd⟩
  format := by
    intro f hf
    rcases hab.format with hnone | hsame
    · rw [hnone] at hf; cases hf
    · exact h.format f (hsame ▸ hf)
  minimum := raisedFloor_eq_false hab.minimum
    (fun _ _ hle hb n hn => hle.trans (hb n hn)) h.minimum
  maximum := loweredCeiling_eq_false hab.maximum
    (fun _ _ hle ha n hn => (ha n hn).trans hle) h.maximum
  minLength := raisedFloor_eq_false hab.minLength
    (fun _ _ hle hb s hs => hle.trans (hb s hs)) h.minLength
  maxLength := loweredCeiling_eq_false hab.maxLength
    (fun _ _ hle ha s hs => (ha s hs).trans hle) h.maxLength
  pattern := by
    intro p hp
    rcases hab.pattern with hnone | hsame
    · rw [hnone] at hp; cases hp
    · exact h.pattern p (hsame ▸ hp)
  minItems := raisedFloor_eq_false hab.minItems
    (fun _ _ hle hb ds hds => hle.trans (hb ds hds)) h.minItems
  maxItems := loweredCeiling_eq_false hab.maxItems
    (fun _ _ hle ha ds hds => (ha ds hds).trans hle) h.maxItems
  uniqueItems := fun hb => h.uniqueItems (hab.uniqueItems hb)

/-- Two field maps about which the comparison is silent, one level deep: what the
fields of both maps do below this level is a hypothesis. -/
theorem fieldsAccept_of_silent {path : String} {old new : List (String × FieldTree)} {d : Json}
    (hsorted : Entries.Sorted new) (hdiff : diffFields path old new = [])
    (hbelow : ∀ name t t', Entries.get? name old = some t → Entries.get? name new = some t' →
      diffField path name t t' = [] → ∀ v, t.onlyDeclared v = true →
      validates env (fieldToJsonSchema t) v = true → validates env (fieldToJsonSchema t') v = true)
    (hdeclared : onlyDeclared old d = true) (hold : FieldsAccept env old d) :
    FieldsAccept env new d := by
  obtain ⟨hshared, hadded⟩ := diffFields_eq_nil hdiff
  -- required members first, then the members that are there
  rintro ms rfl ⟨name, t'⟩ hmem
  have hnew : Entries.get? name new = some t' := Entries.get?_of_mem hsorted hmem
  constructor
  · intro hreq
    cases hname : Entries.get? name old with
    | none =>
        -- a field that only the new version has is not required
        rw [hadded name t' hmem hname] at hreq
        cases hreq
    | some t =>
        obtain ⟨t'', ht'', hsilent⟩ := hshared name t hname
        obtain rfl : t' = t'' := Option.some.inj (hnew.symm.trans ht'')
        have hreq' := (diffField_eq_nil hsilent).2.1 hreq
        exact (hold ms rfl (name, t) (Entries.mem_of_get? hname)).1 hreq'
  · intro v hv
    -- the member is one the old version declared, so both versions describe it
    obtain ⟨t, hname, ht⟩ := onlyDeclared_member hdeclared hv
    obtain ⟨t'', ht'', hsilent⟩ := hshared name t hname
    obtain rfl : t' = t'' := Option.some.inj (hnew.symm.trans ht'')
    apply hbelow name t t' hname hnew hsilent v ht
    exact (hold ms rfl (name, t) (Entries.mem_of_get? hname)).2 v hv

end Level

/-! ## All levels -/

section Levels

variable {env : Dialect} {display : ℚ → String}

/-- What `field_compatible` says of one field and its versions. -/
def FieldCompatible (env : Dialect) (display : ℚ → String) (old : FieldTree) : Prop :=
  ∀ (new : FieldTree) (path name : String) (d : Json),
    old.Passes env display → new.Passes env display → new.ordered = true →
    old.NoEnumGained new → diffField path name old new = [] → old.onlyDeclared d = true →
    validates env (fieldToJsonSchema old) d = true →
    validates env (fieldToJsonSchema new) d = true

/-- Two field maps whose common fields are compatible. -/
theorem fields_compatible {path : String} {old new : List (String × FieldTree)} {d : Json}
    (hih : ∀ name t, Entries.get? name old = some t → FieldCompatible env display t)
    (hpold : ∀ e ∈ old, e.2.Passes env display) (hpnew : ∀ e ∈ new, e.2.Passes env display)
    (hsorted : Entries.Sorted new) (hordered : ∀ e ∈ new, e.2.ordered = true)
    (henum : ∀ name t t', Entries.get? name old = some t → Entries.get? name new = some t' →
      t.NoEnumGained t')
    (hdiff : diffFields path old new = []) (hdeclared : onlyDeclared old d = true)
    (hold : FieldsAccept env old d) : FieldsAccept env new d := by
  refine fieldsAccept_of_silent hsorted hdiff ?_ hdeclared hold
  intro name t t' ht ht' hsilent v hv
  have hmem : (name, t) ∈ old := Entries.mem_of_get? ht
  have hmem' : (name, t') ∈ new := Entries.mem_of_get? ht'
  exact hih name t ht t' path name v (hpold _ hmem) (hpnew _ hmem') (hordered _ hmem')
    (henum name t t' ht ht') hsilent hv

/-- **Fields without narrowing.** Two versions of a field about which the comparison is
silent: the new one accepts what the old one accepted. -/
theorem field_compatible (old : FieldTree) : FieldCompatible env display old := by
  induction old using FieldTree.rec' with
  | h old ih =>
      intro new path name d hpold hpnew hordered henum hdiff hdeclared hold
      have hchild : ∀ hop t, old.child hop = some t → FieldCompatible env display t := by
        intro hop t ht
        obtain ⟨cname, hmem⟩ := FieldTree.mem_children_of_child ht
        exact ih (cname, t) hmem
      obtain ⟨htype, -, hitems, hprops, hcons⟩ := diffField_eq_nil hdiff
      -- a valid definition has items for its arrays and properties for its objects
      obtain ⟨hoarr, hoobj, -⟩ := hpold.inv
      obtain ⟨hnarr, hnobj, -⟩ := hpnew.inv
      rw [validates_fieldToJsonSchema] at hold ⊢
      obtain ⟨hattrs, holdItems, holdProps⟩ := hold
      refine ⟨hattrs.mono hcons htype (henum [] old new rfl rfl), ?_, ?_⟩
      -- the items of an array, element by element
      · intro harray i' hi' v hv
        obtain ⟨i, hi, hpi⟩ := hoarr (htype.trans harray)
        obtain ⟨i'', hi'', hpi'⟩ := hnarr harray
        obtain rfl : i' = i'' := Option.some.inj (hi'.symm.trans hi'')
        obtain ⟨hitype, hifields⟩ := diffItems_eq_nil (hitems i i' hi hi')
        have hiold := holdItems (htype.trans harray) i hi v hv
        rw [validates_itemsSchema] at hiold ⊢
        refine ⟨hitype ▸ hiold.1, fun hobject => ?_⟩
        -- both versions describe objects, so their field maps were compared
        have hobject' := hitype.trans hobject
        obtain ⟨hsorted, hchildOrdered⟩ := FieldTree.ordered_items hordered hi'
        refine fields_compatible ?_ (hpi hobject') (hpi' hobject) hsorted hchildOrdered ?_
          (hifields hobject') (FieldTree.onlyDeclared_items hdeclared hi v hv)
          (hiold.2 hobject')
        · intro cname t ht
          exact hchild (.item cname) t ((FieldTree.child_item hi cname).trans ht)
        · intro cname t t' ht ht'
          exact henum.child ((FieldTree.child_item hi cname).trans ht)
            ((FieldTree.child_item hi' cname).trans ht')
      -- the members of an object
      · intro hobject ps' hps'
        obtain ⟨ps, hps, hpps⟩ := hoobj (htype.trans hobject)
        obtain ⟨ps'', hps'', hpps'⟩ := hnobj hobject
        obtain rfl : ps' = ps'' := Option.some.inj (hps'.symm.trans hps'')
        obtain ⟨hsorted, hchildOrdered⟩ := FieldTree.ordered_properties hordered hps'
        refine fields_compatible ?_ hpps hpps' hsorted hchildOrdered ?_
          (hprops ps ps' hps hps') (FieldTree.onlyDeclared_properties hdeclared hps)
          (holdProps (htype.trans hobject) ps hps)
        · intro cname t ht
          exact hchild (.property cname) t ((FieldTree.child_property hps cname).trans ht)
        · intro cname t t' ht ht'
          exact henum.child ((FieldTree.child_property hps cname).trans ht)
            ((FieldTree.child_property hps' cname).trans ht')

/-- **Non-breaking changes keep data valid.** Both definitions are valid, the comparison
has nothing to say, and no field of both gains an enum: then what validates against an
old entity type, and has only members the old definition declares, validates against
the same entity type of the new definition. -/
theorem compatible {old new : MetaSchemaDefinition}
    (hold : validateDefinition env display old = .ok ())
    (hnew : validateDefinition env display new = .ok ())
    (hdiff : (diff old new).reasons = []) (henum : old.NoEnumGained new)
    {typeName : String} {t : EntityTypeDef} (ht : old.entityTypes.get? typeName = some t)
    {d : Json} (hdeclared : onlyDeclared t.trees d = true)
    (hvalid : validates env (entityTypeToJsonSchema t) d = true) :
    ∃ t', new.entityTypes.get? typeName = some t' ∧
      validates env (entityTypeToJsonSchema t') d = true := by
  obtain ⟨t', ht', hfields⟩ := diff_entityTypes hdiff ht
  refine ⟨t', ht', ?_⟩
  unfold entityTypeToJsonSchema at hvalid ⊢
  rw [validates_propertiesToJsonSchema] at hvalid ⊢
  refine ⟨hvalid.1, fields_compatible (fun _ t _ => field_compatible t)
    (validateDefinition_ok hold ht) (validateDefinition_ok hnew ht') t'.sorted_trees
    (fun e he => t'.ordered_of_mem he) ?_ hfields hdeclared hvalid.2⟩
  intro name f f' hf hf'
  exact henum typeName t t' name f f' ht ht' hf hf'

end Levels

/-! ## Validators can be built -/

section Compiles

variable {env : Dialect} {display : ℚ → String}

theorem compiles_objectSchema {properties : List (String × Json)} {required : Option Json}
    (h : ∀ e ∈ properties, compiles env e.2 = true) :
    compiles env (objectSchema properties required) = true := by
  apply compiles_insertSome
  simp only [List.forall_mem_cons, List.not_mem_nil, false_implies, implies_true, and_true]
  refine ⟨?_, ?_, ?_⟩
  · intro x _
    simp [keywordCompiles]
  · rintro x hx
    obtain rfl := Option.some.inj hx
    simpa [keywordCompiles] using (compilesProperties_iff env properties).mpr h
  · intro x _
    simp [keywordCompiles]

theorem compiles_itemsSchema {i : ItemsTree}
    (h : i.type = .object → ∀ e ∈ fieldSchemas (i.properties.getD []), compiles env e.2 = true) :
    compiles env (itemsSchema i) = true := by
  obtain ⟨ty, properties⟩ := i
  cases ty with
  | string =>
      rw [itemsSchema, compiles_iff, List.forall_mem_singleton]
      simp [keywordCompiles]
  | object =>
      rw [itemsSchema_object]
      exact compiles_objectSchema (h rfl)

/-- The schema of a field compiles when the field has no problems. -/
theorem compiles_fieldToJsonSchema (t : FieldTree) (h : t.Passes env display) :
    compiles env (fieldToJsonSchema t) = true := by
  induction t using FieldTree.rec' with
  | h t ih =>
      obtain ⟨harr, hobj, hpat⟩ := h.inv
      obtain ⟨a, items, properties⟩ := t
      -- below the field, every schema compiles by the induction hypothesis
      have hfields : ∀ ps : List (String × FieldTree),
          (∀ e ∈ ps, e ∈ (FieldTree.mk a items properties).children ∧ e.2.Passes env display) →
          ∀ e ∈ fieldSchemas ps, compiles env e.2 = true := by
        intro ps hps e he
        rw [fieldSchemas_eq_map] at he
        obtain ⟨d, hd, rfl⟩ := List.mem_map.mp he
        exact ih d (hps d hd).1 (hps d hd).2
      rw [fieldToJsonSchema_mk]
      apply compiles_insertSome
      -- only `pattern`, `items` and `properties` hold something to compile
      simp only [FieldAttrs.keywords, List.forall_mem_cons, List.not_mem_nil, false_implies,
        implies_true, and_true, keywordCompiles, String.reduceEq, if_false, true_and, if_true]
      refine ⟨?_, ?_, ?_⟩
      · intro x hx
        obtain ⟨p, hp, rfl⟩ := Option.map_eq_some_iff.mp hx
        exact hpat p hp
      · intro x hx
        split_ifs at hx with htype
        obtain ⟨i, hi, rfl⟩ := Option.map_eq_some_iff.mp hx
        obtain ⟨i', hi', hpi⟩ := harr htype
        obtain rfl : i = i' := Option.some.inj (hi.symm.trans hi')
        refine compiles_itemsSchema fun hobject => hfields _ fun e he => ⟨?_, hpi hobject e he⟩
        exact FieldTree.mem_children_of_items hi' he
      · intro x hx
        split_ifs at hx with htype
        obtain ⟨ps, hps, rfl⟩ := Option.map_eq_some_iff.mp hx
        obtain ⟨ps', hps', hpps⟩ := hobj htype
        obtain rfl : ps = ps' := Option.some.inj (hps.symm.trans hps')
        rw [compilesProperties_iff]
        refine hfields ps fun e he => ⟨?_, hpps e he⟩
        exact FieldTree.mem_children_of_properties hps' he

/-- A validator can be built for every entity type of a valid definition. -/
theorem compiles_entityTypeToJsonSchema {definition : MetaSchemaDefinition}
    (h : validateDefinition env display definition = .ok ()) {typeName : String}
    {t : EntityTypeDef} (ht : definition.entityTypes.get? typeName = some t) :
    compiles env (entityTypeToJsonSchema t) = true := by
  apply compiles_objectSchema
  intro e he
  rw [fieldSchemas_eq_map] at he
  obtain ⟨d, hd, rfl⟩ := List.mem_map.mp he
  exact compiles_fieldToJsonSchema d.2 (validateDefinition_ok h ht d hd)

end Compiles

/-! ## A pair of versions -/

/-- A text field with an upper bound on its length. -/
def shortText (required : Bool) (maxLength : Nat) : FieldTree :=
  .mk { FieldAttrs.ofType .string with required := required, maxLength := some maxLength } none none

/-- A list of labelled tags. -/
def tagList (label : FieldTree) : FieldTree :=
  .mk (FieldAttrs.ofType .array) (some (.mk .object (some [("label", label)]))) none

/-- Notes with tags: the second version allows longer labels and adds an optional body. -/
def noteVersion (labelLength : Nat) (withBody : Bool) : MetaSchemaDefinition where
  name := "notes"
  description := none
  entityTypes := OrderedMap.ofList
    [ ("note",
        { description := none
          fields := OrderedMap.ofList
            ((if withBody then [("body", ⟨shortText false 500, rfl⟩)] else []) ++
              [ ("tags", ⟨tagList (shortText true labelLength), rfl⟩),
                ("title", ⟨shortText true 80, rfl⟩) ]) }) ]
  relationTypes := OrderedMap.empty

/-- A note with one tag. -/
def taggedNote : Json :=
  .object
    [ ("tags", .array [.object [("label", .string "draft")]]),
      ("title", .string "Plan") ]

/-- A dialect in which every pattern compiles and nothing is rejected. -/
def lenientDialect : Dialect where
  regex := fun _ => some fun _ => true
  format := fun _ _ => true

theorem FieldTree.descend_leaf {t g : FieldTree} (hi : t.items = none) (hp : t.properties = none)
    {hops : List Hop} (h : t.descend hops = some g) : g = t := by
  cases hops with
  | nil => exact (Option.some.inj h).symm
  | cons hop hops =>
      have hchild : t.child hop = none := by
        cases hop <;> simp [child, hi, hp]
      rw [descend, hchild] at h
      cases h

theorem shortText_noEnum {required : Bool} {maxLength : Nat} {hops : List Hop} {g : FieldTree}
    (h : (shortText required maxLength).descend hops = some g) : g.attrs.enumValues = none := by
  rw [FieldTree.descend_leaf rfl rfl h]
  rfl

theorem tagList_noEnum {required : Bool} {maxLength : Nat} {hops : List Hop} {g : FieldTree}
    (h : (tagList (shortText required maxLength)).descend hops = some g) :
    g.attrs.enumValues = none := by
  cases hops with
  | nil =>
      obtain rfl := Option.some.inj h
      rfl
  | cons hop hops =>
      obtain ⟨u, hu, hg⟩ := Option.bind_eq_some_iff.mp h
      cases hop with
      | property name => cases hu
      | item name =>
          obtain rfl : u = shortText required maxLength := by
            have hmem := Entries.mem_of_get? ((FieldTree.child_item rfl name).symm.trans hu)
            exact congrArg Prod.snd (List.mem_singleton.mp hmem)
          exact shortText_noEnum hg

theorem noteVersion_noEnumGained :
    (noteVersion 10 false).NoEnumGained (noteVersion 20 true) := by
  intro typeName t t' name f f' _ ht' _ hf' hops g g' _ hg' _
  have htype := List.mem_singleton.mp
    ((OrderedMap.mem_entries_iff (noteVersion 20 true).entityTypes typeName t').mpr ht')
  obtain ⟨-, rfl⟩ := Prod.mk.inj htype
  have hmem : (name, f') ∈
      [ ("body", shortText false 500), ("tags", tagList (shortText true 20)),
        ("title", shortText true 80) ] := Entries.mem_of_get? hf'
  simp only [List.mem_cons, List.not_mem_nil, or_false, Prod.mk.injEq] at hmem
  -- no field of the second version has an enum, at any depth
  rcases hmem with ⟨-, rfl⟩ | ⟨-, rfl⟩ | ⟨-, rfl⟩
  · exact shortText_noEnum hg'
  · exact tagList_noEnum hg'
  · exact shortText_noEnum hg'

/-- Control: a note of the first version, below the top level too, validates against the
second. -/
theorem compatible_noteVersion :
    ∃ t', (noteVersion 20 true).entityTypes.get? "note" = some t' ∧
      validates lenientDialect (entityTypeToJsonSchema t') taggedNote = true :=
  @compatible lenientDialect (fun _ => "") (noteVersion 10 false) (noteVersion 20 true) rfl rfl rfl
    noteVersion_noEnumGained "note" _ rfl taggedNote rfl rfl

end Yorishiro.Metaschema
