import Yorishiro.Metaschema.Compatibility

/-!
# Filling absent fields

`fill_fields_in_value` adds to an object the required fields that it lacks, with
their defaults or with empty values, and descends into the members that are objects
themselves. `get?_fillFields` says what it leaves under each key.

Filling only adds (`grows_fillFieldsInValue`). The fields come from another version
than the one the data is valid for, so whether the data stays valid for its own
version depends on the fields that are added: `validates_fill_iff` says that it does
exactly when each of them fits what its own version declares there (`fits`).
-/

set_option autoImplicit false

namespace Yorishiro.Entity

open Yorishiro.Lib Yorishiro.Lib.JsonSchema Yorishiro.Metaschema

/-! ## The functions -/

/-- `empty_value_for_type`. -/
def emptyValueForType : FieldTypeName → Json
  | .boolean => .bool false
  | .integer => .number (.int 0)
  | .number => .number (.int 0)
  | .string => .string ""
  | .object => .object []
  | .array => .array []

/-- The value that a missing required field gets. -/
def fillValue (field : FieldTree) : Json :=
  field.attrs.default.getD (emptyValueForType field.attrs.type)

mutual

/-- The loop of `fill_fields_in_value` over the fields of an object with members `obj`. -/
def fillFields : List (String × FieldTree) → List (String × Json) → List (String × Json) × Nat
  | [], obj => (obj, 0)
  | (name, field) :: fields, obj =>
      match Entries.get? name obj with
      -- a member that is there is never replaced, only filled below
      | some child =>
          let filled := fillMember field child
          let rest := fillFields fields (Entries.insert name filled.1 obj)
          (rest.1, filled.2 + rest.2)
      | none =>
          -- optional fields are left out, even those with a default
          if field.attrs.required then
            let rest := fillFields fields (Entries.insert name (fillValue field) obj)
            (rest.1, 1 + rest.2)
          else fillFields fields obj

/-- The descent of `fill_fields_in_value` into a member that is there. -/
def fillMember : FieldTree → Json → Json × Nat
  | .mk _ _ (some properties), .object obj =>
      let filled := fillFields properties obj
      (.object filled.1, filled.2)
  | _, data => (data, 0)

end

/-- `fill_fields_in_value`: the filled value and the number of fields added. -/
def fillFieldsInValue (fields : List (String × FieldTree)) : Json → Json × Nat
  | .object obj =>
      let filled := fillFields fields obj
      (.object filled.1, filled.2)
  | data => (data, 0)

theorem fillMember_of_properties {t : FieldTree} {ps : List (String × FieldTree)}
    (hps : t.properties = some ps) (d : Json) : fillMember t d = fillFieldsInValue ps d := by
  obtain ⟨a, i, p⟩ := t
  obtain rfl : p = some ps := hps
  cases d <;> simp [fillMember, fillFieldsInValue]

theorem fillMember_of_none {t : FieldTree} (hps : t.properties = none) (d : Json) :
    fillMember t d = (d, 0) := by
  obtain ⟨a, i, p⟩ := t
  obtain rfl : p = none := hps
  cases d <;> simp [fillMember]

/-- What filling leaves under each key. -/
theorem get?_fillFields {fields : List (String × FieldTree)} (hs : Entries.Sorted fields)
    (obj : List (String × Json)) (k : String) :
    Entries.get? k (fillFields fields obj).1 =
      match Entries.get? k fields, Entries.get? k obj with
      | none, o => o
      | some t, some child => some (fillMember t child).1
      | some t, none => if t.attrs.required then some (fillValue t) else none := by
  -- field names are distinct, so what one field adds is not seen by the others
  induction fields generalizing obj with
  | nil => simp [fillFields]
  | cons e fields ih =>
      obtain ⟨name, t⟩ := e
      have hrest : Entries.Sorted fields := (List.pairwise_cons.mp hs).2
      by_cases hk : k = name
      · subst hk
        rw [Entries.get?_cons, if_pos rfl]
        have hnone := Entries.get?_tail_eq_none hs
        cases hget : Entries.get? k obj with
        | some child => simp [fillFields, hget, ih hrest, hnone]
        | none =>
            by_cases hreq : t.attrs.required = true
            · simp [fillFields, hget, hreq, ih hrest, hnone]
            · simp [fillFields, hget, hreq, ih hrest, hnone]
      · rw [Entries.get?_cons, if_neg hk]
        cases hget : Entries.get? name obj with
        | some child => simp [fillFields, hget, ih hrest, hk]
        | none =>
            by_cases hreq : t.attrs.required = true
            · simp [fillFields, hget, hreq, ih hrest, hk]
            · simp [fillFields, hget, hreq, ih hrest]

/-! ## Filling only adds -/

/-- The second value is the first one with members added to objects, at any depth. -/
inductive Grows : Json → Json → Prop where
  | refl (d : Json) : Grows d d
  | object (ms ns : List (String × Json)) (grown : String → Json)
      (hkept : ∀ k v, Entries.get? k ms = some v → Entries.get? k ns = some (grown k))
      (hgrows : ∀ k v, Entries.get? k ms = some v → Grows v (grown k)) :
      Grows (.object ms) (.object ns)

theorem grows_fillFields {fields : List (String × FieldTree)} (hs : Entries.Sorted fields)
    (hmember : ∀ e ∈ fields, ∀ d, Grows d (fillMember e.2 d).1) (obj : List (String × Json)) :
    Grows (.object obj) (.object (fillFields fields obj).1) := by
  -- each member keeps its place and is itself grown
  have hget : ∀ k v, Entries.get? k obj = some v →
      ∃ w, Entries.get? k (fillFields fields obj).1 = some w ∧ Grows v w := by
    intro k v hv
    rw [get?_fillFields hs, hv]
    cases hfield : Entries.get? k fields with
    | none => exact ⟨v, rfl, .refl v⟩
    | some t => exact ⟨_, rfl, hmember (k, t) (Entries.mem_of_get? hfield) v⟩
  refine .object _ _ (fun k => (Entries.get? k (fillFields fields obj).1).getD .null) ?_ ?_
  · intro k v hv
    obtain ⟨w, hw, -⟩ := hget k v hv
    rw [hw, Option.getD_some]
  · intro k v hv
    obtain ⟨w, hw, hgrows⟩ := hget k v hv
    rw [hw, Option.getD_some]
    exact hgrows

theorem grows_fillMember (t : FieldTree) (h : t.ordered = true) (d : Json) :
    Grows d (fillMember t d).1 := by
  -- the descent follows `properties`; items of arrays are not filled
  induction t using FieldTree.rec' generalizing d with
  | h t ih =>
      cases hps : t.properties with
      | none =>
          rw [fillMember_of_none hps]
          exact .refl d
      | some ps =>
          obtain ⟨hsorted, hordered⟩ := FieldTree.ordered_properties h hps
          rw [fillMember_of_properties hps]
          cases d with
          | object obj =>
              apply grows_fillFields hsorted
              intro e he d
              exact ih e (FieldTree.mem_children_of_properties hps he) (hordered e he) d
          | _ => exact .refl _

/-- **Filling only adds.** -/
theorem grows_fillFieldsInValue (t : EntityTypeDef) (d : Json) :
    Grows d (fillFieldsInValue t.trees d).1 := by
  cases d with
  | object obj =>
      apply grows_fillFields t.sorted_trees
      intro e he d
      exact grows_fillMember e.2 (t.ordered_of_mem he) d
  | _ => exact .refl _

/-! ## The count -/

/-- What is counted is a required field that was absent, or was added below a member. -/
theorem exists_of_fillFields_count {fields : List (String × FieldTree)} (hs : Entries.Sorted fields)
    {obj : List (String × Json)} (hcount : (fillFields fields obj).2 ≠ 0) :
    ∃ e ∈ fields, (Entries.get? e.1 obj = none ∧ e.2.attrs.required = true) ∨
      ∃ child, Entries.get? e.1 obj = some child ∧ (fillMember e.2 child).2 ≠ 0 := by
  induction fields generalizing obj with
  | nil => exact absurd rfl hcount
  | cons e fields ih =>
      obtain ⟨name, t⟩ := e
      have hrest : Entries.Sorted fields := (List.pairwise_cons.mp hs).2
      -- names are distinct, so the later fields find what was there before
      have hother : ∀ v, ∀ e ∈ fields,
          Entries.get? e.1 (Entries.insert name v obj) = Entries.get? e.1 obj := by
        intro v e he
        have hne : e.1 ≠ name := ne_of_gt (List.rel_of_pairwise_cons hs he)
        rw [Entries.get?_insert, if_neg hne]
      have hlater : ∀ v, (fillFields fields (Entries.insert name v obj)).2 ≠ 0 →
          ∃ e ∈ fields, (Entries.get? e.1 obj = none ∧ e.2.attrs.required = true) ∨
            ∃ child, Entries.get? e.1 obj = some child ∧ (fillMember e.2 child).2 ≠ 0 := by
        intro v hv
        obtain ⟨e, he, hwhy⟩ := ih hrest hv
        rw [hother v e he] at hwhy
        exact ⟨e, he, hwhy⟩
      cases hget : Entries.get? name obj with
      | some child =>
          simp only [fillFields, hget] at hcount
          by_cases hchild : (fillMember t child).2 = 0
          · rw [hchild, Nat.zero_add] at hcount
            obtain ⟨e, he, hwhy⟩ := hlater _ hcount
            exact ⟨e, List.mem_cons_of_mem _ he, hwhy⟩
          · exact ⟨(name, t), List.mem_cons_self, Or.inr ⟨child, hget, hchild⟩⟩
      | none =>
          by_cases hrequired : t.attrs.required = true
          · exact ⟨(name, t), List.mem_cons_self, Or.inl ⟨hget, hrequired⟩⟩
          · simp only [fillFields, hget, hrequired] at hcount
            obtain ⟨e, he, hwhy⟩ := ih hrest hcount
            exact ⟨e, List.mem_cons_of_mem _ he, hwhy⟩

theorem fillFields_ne {fields : List (String × FieldTree)} (hs : Entries.Sorted fields)
    (hmember : ∀ e ∈ fields, ∀ d, (fillMember e.2 d).2 ≠ 0 → (fillMember e.2 d).1 ≠ d)
    {obj : List (String × Json)} (hcount : (fillFields fields obj).2 ≠ 0) :
    (fillFields fields obj).1 ≠ obj := by
  intro heq
  obtain ⟨e, he, hwhy⟩ := exists_of_fillFields_count hs hcount
  have hget := get?_fillFields hs obj e.1
  rw [heq, Entries.get?_of_mem hs he] at hget
  rcases hwhy with ⟨hnone, hrequired⟩ | ⟨child, hchild, hfilled⟩
  · simp [hnone, hrequired] at hget
  · rw [hchild] at hget
    exact hmember e he child hfilled (Option.some.inj hget).symm

theorem fillMember_ne (t : FieldTree) (h : t.ordered = true) (d : Json)
    (hcount : (fillMember t d).2 ≠ 0) : (fillMember t d).1 ≠ d := by
  induction t using FieldTree.rec' generalizing d with
  | h t ih =>
      cases hps : t.properties with
      | none =>
          rw [fillMember_of_none hps] at hcount
          exact absurd rfl hcount
      | some ps =>
          obtain ⟨hsorted, hordered⟩ := FieldTree.ordered_properties h hps
          rw [fillMember_of_properties hps] at hcount ⊢
          cases d with
          | object obj =>
              intro heq
              refine fillFields_ne hsorted (fun e he d hd => ?_) hcount (Json.object.inj heq)
              exact ih e (FieldTree.mem_children_of_properties hps he) (hordered e he) d hd
          | _ => exact absurd rfl hcount

/-- **What is counted is seen.** A fill that adds a field changes the value. -/
theorem fillFieldsInValue_ne (t : EntityTypeDef) {d : Json}
    (hcount : (fillFieldsInValue t.trees d).2 ≠ 0) : (fillFieldsInValue t.trees d).1 ≠ d := by
  cases d with
  | object obj =>
      intro heq
      refine fillFields_ne t.sorted_trees (fun e he d hd => ?_) hcount (Json.object.inj heq)
      exact fillMember_ne e.2 (t.ordered_of_mem he) d hd
  | _ => exact absurd rfl hcount

/-! ## Validity for another version -/

mutual

/-- The fields that filling adds to the object fit what `own` declares under their names. -/
def fits (env : Dialect) :
    List (String × FieldTree) → List (String × FieldTree) → List (String × Json) → Bool
  | [], _, _ => true
  | (name, field) :: fields, own, obj =>
      (match Entries.get? name own, Entries.get? name obj with
        | none, _ => true
        | some declared, none =>
            !field.attrs.required || validates env (fieldToJsonSchema declared) (fillValue field)
        | some declared, some child => fitsMember env field declared child) &&
        fits env fields own obj

/-- The fields that filling adds below a member fit what its declaration says. -/
def fitsMember (env : Dialect) : FieldTree → FieldTree → Json → Bool
  | .mk _ _ properties, declared, data =>
      match properties with
      | none => true
      | some properties =>
          match data with
          | .object obj =>
              -- a declaration of another type accepted no object in the first place
              if declared.attrs.type = .object then
                fits env properties (declared.properties.getD []) obj
              else true
          | _ => true

end

section Fits

variable {env : Dialect}

theorem fits_iff (fields own : List (String × FieldTree)) (obj : List (String × Json)) :
    fits env fields own obj = true ↔
      ∀ e ∈ fields, ∀ declared, Entries.get? e.1 own = some declared →
        (Entries.get? e.1 obj = none → e.2.attrs.required = true →
          validates env (fieldToJsonSchema declared) (fillValue e.2) = true) ∧
        ∀ child, Entries.get? e.1 obj = some child →
          fitsMember env e.2 declared child = true := by
  induction fields with
  | nil => simp [fits]
  | cons e fields ih =>
      obtain ⟨name, field⟩ := e
      rw [List.forall_mem_cons, ← ih]
      cases hown : Entries.get? name own with
      | none => simp [fits, hown]
      | some declared =>
          cases hobj : Entries.get? name obj with
          | none =>
              cases hreq : field.attrs.required with
              | true => simp [fits, hown, hobj, hreq]
              | false => simp [fits, hown, hobj, hreq]
          | some child => simp [fits, hown, hobj]

theorem fitsMember_object {t : FieldTree} {ps : List (String × FieldTree)}
    (hps : t.properties = some ps) (declared : FieldTree) (obj : List (String × Json)) :
    fitsMember env t declared (.object obj) =
      if declared.attrs.type = .object then fits env ps (declared.properties.getD []) obj
      else true := by
  obtain ⟨a, i, p⟩ := t
  obtain rfl : p = some ps := hps
  rw [fitsMember.eq_def]

theorem fitsMember_of_none {t : FieldTree} (hps : t.properties = none) (declared : FieldTree)
    (d : Json) : fitsMember env t declared d = true := by
  obtain ⟨a, i, p⟩ := t
  obtain rfl : p = none := hps
  rw [fitsMember.eq_def]

theorem fitsMember_of_ne_object (t declared : FieldTree) {d : Json}
    (hd : ∀ obj, d ≠ .object obj) : fitsMember env t declared d = true := by
  obtain ⟨a, i, p⟩ := t
  rw [fitsMember.eq_def]
  cases p with
  | none => rfl
  | some ps =>
      cases d with
      | object obj => exact absurd rfl (hd obj)
      | _ => rfl

theorem fieldsAccept_object (fields : List (String × FieldTree)) (obj : List (String × Json)) :
    FieldsAccept env fields (.object obj) ↔ ∀ e ∈ fields,
      (e.2.attrs.required = true → (Entries.get? e.1 obj).isSome = true) ∧
        ∀ v, Entries.get? e.1 obj = some v → validates env (fieldToJsonSchema e.2) v = true :=
  ⟨fun h => h obj rfl, fun h _ hobj => Json.object.inj hobj ▸ h⟩

/-- The attributes of a field cannot tell two objects apart. -/
theorem accepts_object {a : FieldAttrs} {ms : List (String × Json)}
    (h : a.Accepts env (.object ms)) (ns : List (String × Json)) : a.Accepts env (.object ns) where
  type := h.type
  enum := by
    intro vs hvs
    obtain ⟨v, -, hv⟩ := h.enum vs hvs
    cases hv
  format := fun _ _ s hs => by cases hs
  minimum := fun _ _ n hn => by cases hn
  maximum := fun _ _ n hn => by cases hn
  minLength := fun _ _ s hs => by cases hs
  maxLength := fun _ _ s hs => by cases hs
  pattern := fun _ _ s hs => by cases hs
  minItems := fun _ _ ds hds => by cases hds
  maxItems := fun _ _ ds hds => by cases hds
  uniqueItems := h.uniqueItems

theorem type_of_accepts_object {a : FieldAttrs} {ms : List (String × Json)}
    (h : a.Accepts env (.object ms)) : a.type = .object := by
  have hhas := h.type
  cases htype : a.type with
  | object => rfl
  | _ => simp [htype, FieldTypeName.name, hasType] at hhas

/-- What the projection of an object field says about an object. -/
theorem validates_object_iff {declared : FieldTree} (htype : declared.attrs.type = .object)
    (obj : List (String × Json)) :
    validates env (fieldToJsonSchema declared) (.object obj) = true ↔
      declared.attrs.Accepts env (.object obj) ∧
        ∀ qs, declared.properties = some qs → FieldsAccept env qs (.object obj) := by
  rw [validates_fieldToJsonSchema]
  constructor
  · rintro ⟨hattrs, -, hprops⟩
    exact ⟨hattrs, hprops htype⟩
  · rintro ⟨hattrs, hprops⟩
    refine ⟨hattrs, fun harray => ?_, fun _ => hprops⟩
    rw [htype] at harray
    cases harray

/-- One level: what filling does to the members is a hypothesis. -/
theorem fieldsAccept_fill_iff {fields own : List (String × FieldTree)}
    (hs : Entries.Sorted fields) (ho : Entries.Sorted own) {obj : List (String × Json)}
    (hmember : ∀ k t declared, Entries.get? k fields = some t → Entries.get? k own = some declared →
      ∀ d, validates env (fieldToJsonSchema declared) d = true →
        (validates env (fieldToJsonSchema declared) (fillMember t d).1 = true ↔
          fitsMember env t declared d = true))
    (hacc : FieldsAccept env own (.object obj)) :
    FieldsAccept env own (.object (fillFields fields obj).1) ↔ fits env fields own obj = true := by
  rw [fieldsAccept_object] at hacc ⊢
  rw [fits_iff]
  constructor
  -- accepted after filling: read off each field what was put there
  · rintro h ⟨k, t⟩ ht declared hdeclared
    have hfield : Entries.get? k fields = some t := Entries.get?_of_mem hs ht
    have hown := Entries.mem_of_get? hdeclared
    have hfilled := get?_fillFields hs obj k
    rw [hfield] at hfilled
    constructor
    · intro hnone (hreq : t.attrs.required = true)
      simp only [hnone, hreq, if_true] at hfilled
      exact (h (k, declared) hown).2 _ hfilled
    · intro child (hchild : Entries.get? k obj = some child)
      simp only [hchild] at hfilled
      have hvalid := (hacc (k, declared) hown).2 child hchild
      exact (hmember k t declared hfield hdeclared child hvalid).mp
        ((h (k, declared) hown).2 _ hfilled)
  -- fitting: each declared member is an old one, an added one or a filled one
  · rintro h ⟨k, declared⟩ hown
    have hdeclared : Entries.get? k own = some declared := Entries.get?_of_mem ho hown
    have hfilled := get?_fillFields hs obj k
    constructor
    · intro hreq
      obtain ⟨child, hchild⟩ := Option.isSome_iff_exists.mp ((hacc (k, declared) hown).1 hreq)
      cases hfield : Entries.get? k fields with
      | none => simp [hfilled, hfield, hchild]
      | some t => simp [hfilled, hfield, hchild]
    · intro v hv
      cases hfield : Entries.get? k fields with
      | none =>
          simp only [hfield] at hfilled
          exact (hacc (k, declared) hown).2 v (hfilled.symm.trans hv)
      | some t =>
          obtain ⟨hadd, hbelow⟩ := h (k, t) (Entries.mem_of_get? hfield) declared hdeclared
          cases hchild : Entries.get? k obj with
          | none =>
              simp only [hfield, hchild] at hfilled
              rw [hv] at hfilled
              split_ifs at hfilled with hreq
              rw [Option.some.inj hfilled]
              exact hadd hchild hreq
          | some child =>
              simp only [hfield, hchild] at hfilled
              rw [Option.some.inj (hv.symm.trans hfilled)]
              have hvalid := (hacc (k, declared) hown).2 child hchild
              exact (hmember k t declared hfield hdeclared child hvalid).mpr
                (hbelow child hchild)

/-- All levels, below a member. -/
theorem validates_fillMember_iff (t : FieldTree) : ∀ (declared : FieldTree) (d : Json),
    t.ordered = true → declared.ordered = true →
    validates env (fieldToJsonSchema declared) d = true →
    (validates env (fieldToJsonSchema declared) (fillMember t d).1 = true ↔
      fitsMember env t declared d = true) := by
  induction t using FieldTree.rec' with
  | h t ih =>
      intro declared d ht hdeclared hvalid
      cases hps : t.properties with
      | none =>
          rw [fillMember_of_none hps]
          exact iff_of_true hvalid (fitsMember_of_none hps declared d)
      | some ps =>
          rw [fillMember_of_properties hps]
          cases d with
          | object obj =>
              rw [fitsMember_object hps]
              -- an object was accepted, so the declaration is one of an object
              have hattrs := ((validates_fieldToJsonSchema env declared _).mp hvalid).1
              have htype := type_of_accepts_object hattrs
              rw [if_pos htype]
              rw [fillFieldsInValue, validates_object_iff htype]
              obtain ⟨-, hprops⟩ := (validates_object_iff htype obj).mp hvalid
              have hattrs' := accepts_object hattrs (fillFields ps obj).1
              obtain ⟨hsorted, hordered⟩ := FieldTree.ordered_properties ht hps
              cases hqs : declared.properties with
              | none =>
                  -- a declaration without members takes any object
                  refine iff_of_true ⟨hattrs', fun qs hqs' => by cases hqs'⟩ ?_
                  rw [fits_iff]
                  intro e _ g hg
                  cases hg
              | some qs =>
                  obtain ⟨hqsorted, hqordered⟩ := FieldTree.ordered_properties hdeclared hqs
                  rw [Option.getD_some]
                  rw [← fieldsAccept_fill_iff hsorted hqsorted ?_ (hprops qs hqs)]
                  · refine ⟨fun h => h.2 qs rfl, fun h => ⟨hattrs', fun qs' hqs' => ?_⟩⟩
                    rw [← Option.some.inj hqs']
                    exact h
                  · intro k u g hu hg d' hd'
                    have hmem := Entries.mem_of_get? hu
                    exact ih (k, u) (FieldTree.mem_children_of_properties hps hmem) g d'
                      (hordered _ hmem) (hqordered _ (Entries.mem_of_get? hg)) hd'
          | _ => exact iff_of_true hvalid (fitsMember_of_ne_object t declared (by simp))

/-- **Filling and validity.** Data that is valid for its own version of an entity type
stays so when the required fields of another version are filled in, exactly when the
added fields fit. -/
theorem validates_fill_iff (own active : EntityTypeDef) {obj : List (String × Json)}
    (h : validates env (entityTypeToJsonSchema own) (.object obj) = true) :
    validates env (entityTypeToJsonSchema own)
        (fillFieldsInValue active.trees (.object obj)).1 = true ↔
      fits env active.trees own.trees obj = true := by
  unfold entityTypeToJsonSchema at h ⊢
  rw [validates_propertiesToJsonSchema] at h ⊢
  rw [← fieldsAccept_fill_iff active.sorted_trees own.sorted_trees ?_ h.2]
  · exact ⟨fun h => h.2, fun h => ⟨⟨_, rfl⟩, h⟩⟩
  · intro k t declared ht hdeclared d hd
    exact validates_fillMember_iff t declared d
      (active.ordered_of_mem (Entries.mem_of_get? ht))
      (own.ordered_of_mem (Entries.mem_of_get? hdeclared)) hd

end Fits

end Yorishiro.Entity
