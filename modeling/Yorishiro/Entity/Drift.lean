import Mathlib.Data.Set.Card
import Yorishiro.Entity.Fill

/-!
# Missing fields

`missing_fields_in_value` lists the fields that a version declares and a value lacks, as
`fill_fields_in_value` would come across them. Both descend through objects that are there.

For every value and every field map, what is filled is as many fields as are listed as required
(`fill_count_eq_missing`). Filling adds exactly these, at the levels that were there before
(`fill_extends`). It does not descend into what it adds: afterwards nothing required is missing
exactly when each added value has what its own field requires (`fill_complete_iff`).
-/

set_option autoImplicit false

namespace Yorishiro.Entity

open Yorishiro.Lib Yorishiro.Lib.JsonSchema Yorishiro.Metaschema

/-! ## The functions -/

/-- `DriftField`. -/
structure DriftField where
  name : String
  type : FieldTypeName
  required : Bool
deriving DecidableEq, Repr

/-- The pointer of a field below `parent`. -/
def fieldPointer (parent name : String) : String := parent ++ "/" ++ escapePointerSegment name

/-- What is listed for a field that is absent: at the root its name, below it the pointer. -/
def driftField (parent name : String) (field : FieldTree) : DriftField where
  name := if parent.isEmpty then name else fieldPointer parent name
  type := field.attrs.type
  required := field.attrs.required

mutual

/-- The loop of `missing_fields_in_value` over the fields of an object with members `obj`. -/
def missingFields (parent : String) :
    List (String × FieldTree) → List (String × Json) → List DriftField
  | [], _ => []
  | (name, field) :: fields, obj =>
      (match Entries.get? name obj with
        | none => [driftField parent name field]
        -- a null or a value of the wrong type is there all the same
        | some child => missingBelow (fieldPointer parent name) field child) ++
        missingFields parent fields obj

/-- The descent of `missing_fields_in_value` into a member that is there. -/
def missingBelow (pointer : String) : FieldTree → Json → List DriftField
  | .mk _ _ (some properties), .object obj => missingFields pointer properties obj
  | _, _ => []

end

/-- `missing_fields_in_value`. -/
def missingFieldsInValue (data : Json) (fields : List (String × FieldTree)) (parent : String) :
    List DriftField :=
  match data with
  | .object obj => missingFields parent fields obj
  | _ => []

/-- The entries that are required. -/
def requiredOnly (listed : List DriftField) : List DriftField := listed.filter (·.required)

theorem missingBelow_of_properties {pointer : String} {t : FieldTree}
    {ps : List (String × FieldTree)} (hps : t.properties = some ps) (d : Json) :
    missingBelow pointer t d = missingFieldsInValue d ps pointer := by
  obtain ⟨a, i, p⟩ := t
  obtain rfl : p = some ps := hps
  cases d <;> simp [missingBelow, missingFieldsInValue]

theorem missingBelow_of_none {pointer : String} {t : FieldTree} (hps : t.properties = none)
    (d : Json) : missingBelow pointer t d = [] := by
  obtain ⟨a, i, p⟩ := t
  obtain rfl : p = none := hps
  cases d <;> simp [missingBelow]

theorem requiredOnly_append (xs ys : List DriftField) :
    requiredOnly (xs ++ ys) = requiredOnly xs ++ requiredOnly ys :=
  List.filter_append ..

/-! ## The count is predicted -/

section Count

/-- What one declared field contributes to a count over an object: itself where it is required and
absent, else what is counted in the member. -/
def contribution (below : String × FieldTree → Json → Nat) (obj : List (String × Json))
    (e : String × FieldTree) : Nat :=
  match Entries.get? e.1 obj with
  | some child => below e child
  | none => if e.2.attrs.required then 1 else 0

variable {below : String × FieldTree → Json → Nat} {obj : List (String × Json)}

/-- A member that is added counts for its own field only. -/
theorem contribution_insert {name : String} {v : Json} {e : String × FieldTree}
    (hne : e.1 ≠ name) :
    contribution below (Entries.insert name v obj) e = contribution below obj e := by
  rw [contribution, contribution, Entries.get?_insert, if_neg hne]

theorem sum_contribution_congr {below' : String × FieldTree → Json → Nat}
    {fields : List (String × FieldTree)}
    (h : ∀ e ∈ fields, ∀ child, below e child = below' e child) :
    (fields.map (contribution below obj)).sum = (fields.map (contribution below' obj)).sum := by
  congr 1
  refine List.map_congr_left fun e he => ?_
  rw [contribution, contribution]
  cases Entries.get? e.1 obj with
  | none => rfl
  | some child => exact h e he child

/-- How many fields filling adds, field by field: what it adds for one is not seen by the
others. -/
theorem fillFields_count {fields : List (String × FieldTree)} (hs : Entries.Sorted fields)
    (obj : List (String × Json)) :
    (fillFields fields obj).2 =
      (fields.map (contribution (fun e child => (fillMember e.2 child).2) obj)).sum := by
  induction fields generalizing obj with
  | nil => rfl
  | cons e fields ih =>
      obtain ⟨name, t⟩ := e
      have hrest : Entries.Sorted fields := (List.pairwise_cons.mp hs).2
      have hother : ∀ v,
          fields.map (contribution (fun e child => (fillMember e.2 child).2)
            (Entries.insert name v obj)) =
          fields.map (contribution (fun e child => (fillMember e.2 child).2) obj) := by
        intro v
        refine List.map_congr_left fun e he => contribution_insert ?_
        exact ne_of_gt (List.rel_of_pairwise_cons hs he)
      rw [List.map_cons, List.sum_cons]
      cases hget : Entries.get? name obj with
      | some child => simp only [fillFields, hget, ih hrest, hother, contribution]
      | none =>
          by_cases hrequired : t.attrs.required = true
          · simp only [fillFields, hget, hrequired, if_true, ih hrest, hother, contribution]
          · simp only [fillFields, hget, hrequired, Bool.false_eq_true, if_false, ih hrest,
              Nat.zero_add, contribution]

theorem length_missingFields (parent : String) (fields : List (String × FieldTree))
    (obj : List (String × Json)) :
    (requiredOnly (missingFields parent fields obj)).length =
      (fields.map (contribution (fun e child =>
        (requiredOnly (missingBelow (fieldPointer parent e.1) e.2 child)).length) obj)).sum := by
  induction fields with
  | nil => rfl
  | cons e fields ih =>
      obtain ⟨name, t⟩ := e
      rw [missingFields, requiredOnly_append, List.length_append, ih, List.map_cons, List.sum_cons,
        contribution]
      congr 1
      cases hget : Entries.get? name obj with
      | some child => simp only
      | none => cases hrequired : t.attrs.required <;> simp [requiredOnly, driftField, hrequired]

/-- One level: what is filled below the members is a hypothesis. -/
theorem fillFieldsInValue_count {ps : List (String × FieldTree)} (hs : Entries.Sorted ps)
    (hmember : ∀ e ∈ ps, ∀ pointer d,
      (fillMember e.2 d).2 = (requiredOnly (missingBelow pointer e.2 d)).length)
    (d : Json) (parent : String) :
    (fillFieldsInValue ps d).2 = (requiredOnly (missingFieldsInValue d ps parent)).length := by
  cases d with
  | object obj =>
      change (fillFields ps obj).2 = (requiredOnly (missingFields parent ps obj)).length
      rw [fillFields_count hs, length_missingFields]
      exact sum_contribution_congr fun e he child => hmember e he _ child
  | _ => rfl

/-- Filling a member adds what is listed as missing below it. -/
theorem fillMember_count (t : FieldTree) (h : t.ordered = true) :
    ∀ pointer d, (fillMember t d).2 = (requiredOnly (missingBelow pointer t d)).length := by
  induction t using FieldTree.rec' with
  | h t ih =>
      intro pointer d
      cases hps : t.properties with
      | none =>
          rw [fillMember_of_none hps, missingBelow_of_none hps]
          rfl
      | some ps =>
          obtain ⟨hsorted, hordered⟩ := FieldTree.ordered_properties h hps
          rw [fillMember_of_properties hps, missingBelow_of_properties hps]
          refine fillFieldsInValue_count hsorted (fun e he => ?_) d pointer
          exact ih e (FieldTree.mem_children_of_properties hps he) (hordered e he)

/-- **A listing predicts the fill**: as many fields are filled as are listed as required. -/
theorem fill_count_eq_missing (t : EntityTypeDef) (d : Json) (parent : String) :
    (fillFieldsInValue t.trees d).2 =
      (requiredOnly (missingFieldsInValue d t.trees parent)).length :=
  fillFieldsInValue_count t.sorted_trees
    (fun e he => fillMember_count e.2 (t.ordered_of_mem he)) d parent

end Count

/-! ## What filling adds -/

/-- The second value is the first one with required fields added: members that are there stay, and
only the objects under fields with declared properties gain members, in the same way. -/
inductive Conserves : List (String × FieldTree) → Json → Json → Prop where
  | other {fields : List (String × FieldTree)} {d : Json} (h : ∀ ms, d ≠ .object ms) :
      Conserves fields d d
  | object {fields : List (String × FieldTree)} {ms ns : List (String × Json)}
      (grown : String → Json)
      (hkept : ∀ k v, Entries.get? k ms = some v → Entries.get? k ns = some (grown k))
      (hsame : ∀ k v, Entries.get? k ms = some v →
        (Entries.get? k fields).bind FieldTree.properties = none → grown k = v)
      (hbelow : ∀ k v t ps, Entries.get? k ms = some v → Entries.get? k fields = some t →
        t.properties = some ps → Conserves ps v (grown k))
      (hadded : ∀ k v, Entries.get? k ms = none → Entries.get? k ns = some v →
        ∃ t, Entries.get? k fields = some t ∧ t.attrs.required = true ∧
          ∀ x, t.attrs.default = some x → v = x) :
      Conserves fields (.object ms) (.object ns)

/-- The value at the end of a path through objects. -/
def valueAt : Json → List String → Option Json
  | d, [] => some d
  | d, k :: path => (d.get? k).bind fun child => valueAt child path

/-- The path leads to a member that an object of the first value lacks and the second has. -/
def AddedAt (d e : Json) (path : List String) : Prop :=
  ∃ above k ms, path = above ++ [k] ∧ valueAt d above = some (.object ms) ∧
    Entries.get? k ms = none ∧ (valueAt e path).isSome = true

mutual

/-- Where filling adds a field. -/
def filledPaths : List (String × FieldTree) → List (String × Json) → List (List String)
  | [], _ => []
  | (name, field) :: fields, obj =>
      (match Entries.get? name obj with
        | some child => (filledBelow field child).map (name :: ·)
        | none => if field.attrs.required then [[name]] else []) ++ filledPaths fields obj

/-- Where filling adds a field below a member. -/
def filledBelow : FieldTree → Json → List (List String)
  | .mk _ _ (some properties), .object obj => filledPaths properties obj
  | _, _ => []

end

section Added

variable {d : Json} {fields : List (String × FieldTree)} {obj : List (String × Json)}

theorem valueAt_append (d : Json) (path : List String) (k : String) :
    valueAt d (path ++ [k]) = (valueAt d path).bind fun child => child.get? k := by
  induction path generalizing d with
  | nil => simp [valueAt]
  | cons l path ih =>
      rw [List.cons_append, valueAt, valueAt]
      cases d.get? l with
      | none => rfl
      | some child => exact ih child

theorem not_addedAt_self (path : List String) : ¬AddedAt d d path := by
  rintro ⟨above, k, ms, rfl, habove, hnone, hsome⟩
  rw [valueAt_append, habove, Option.bind_some, Json.get?, hnone] at hsome
  cases hsome

theorem filledBelow_of_properties {t : FieldTree} {ps : List (String × FieldTree)}
    (hps : t.properties = some ps) (d : Json) :
    filledBelow t d = match d with
      | .object obj => filledPaths ps obj
      | _ => [] := by
  obtain ⟨a, i, p⟩ := t
  obtain rfl : p = some ps := hps
  cases d <;> simp [filledBelow]

theorem filledBelow_of_none {t : FieldTree} (hps : t.properties = none) (d : Json) :
    filledBelow t d = [] := by
  obtain ⟨a, i, p⟩ := t
  obtain rfl : p = none := hps
  cases d <;> simp [filledBelow]

theorem mem_filledPaths {path : List String} :
    path ∈ filledPaths fields obj ↔ ∃ e ∈ fields,
      (Entries.get? e.1 obj = none ∧ e.2.attrs.required = true ∧ path = [e.1]) ∨
        ∃ child rest, Entries.get? e.1 obj = some child ∧ path = e.1 :: rest ∧
          rest ∈ filledBelow e.2 child := by
  induction fields with
  | nil => simp [filledPaths]
  | cons e fields ih =>
      obtain ⟨name, t⟩ := e
      rw [filledPaths, List.mem_append, ih, List.exists_mem_cons_iff]
      refine or_congr ?_ Iff.rfl
      cases hget : Entries.get? name obj with
      | some child =>
          rw [List.mem_map]
          constructor
          · rintro ⟨rest, hrest, rfl⟩
            exact Or.inr ⟨child, rest, rfl, rfl, hrest⟩
          · rintro (⟨hnone, -⟩ | ⟨c, rest, hc, rfl, hrest⟩)
            · cases hnone
            · cases hc
              exact ⟨rest, hrest, rfl⟩
      | none => cases hrequired : t.attrs.required <;> simp

/-- What is added below a member is added below its parent; a member is added to an object. -/
theorem addedAt_cons {e : Json} {k : String} {rest : List String} :
    AddedAt d e (k :: rest) ↔
      (rest = [] ∧ (∃ ms, d = .object ms ∧ Entries.get? k ms = none) ∧ (e.get? k).isSome = true) ∨
        ∃ child grown, d.get? k = some child ∧ e.get? k = some grown ∧
          AddedAt child grown rest := by
  constructor
  · rintro ⟨above, l, ms, hpath, habove, hnone, hsome⟩
    cases above with
    | nil =>
        obtain ⟨rfl, rfl⟩ : k = l ∧ rest = [] := by simpa using hpath
        have hobject : d = .object ms := by simpa [valueAt] using habove
        refine Or.inl ⟨rfl, ⟨ms, hobject, hnone⟩, ?_⟩
        simpa [valueAt] using hsome
    | cons k' above =>
        obtain ⟨rfl, rfl⟩ : k = k' ∧ rest = above ++ [l] := by simpa using hpath
        rw [valueAt] at habove hsome
        obtain ⟨child, hchild, habove⟩ := Option.bind_eq_some_iff.mp habove
        obtain ⟨v, hv⟩ := Option.isSome_iff_exists.mp hsome
        obtain ⟨grown, hgrown, hv⟩ := Option.bind_eq_some_iff.mp hv
        refine Or.inr ⟨child, grown, hchild, hgrown, above, l, ms, rfl, habove, hnone, ?_⟩
        rw [hv, Option.isSome_some]
  · rintro (⟨rfl, ⟨ms, rfl, hnone⟩, hsome⟩ |
      ⟨child, grown, hchild, hgrown, above, l, ms, rfl, habove, hnone, hsome⟩)
    · refine ⟨[], k, ms, rfl, rfl, hnone, ?_⟩
      simpa [valueAt] using hsome
    · refine ⟨k :: above, l, ms, rfl, ?_, hnone, ?_⟩
      · rw [valueAt, hchild, Option.bind_some]
        exact habove
      · rw [valueAt, hgrown, Option.bind_some]
        exact hsome

theorem not_addedAt_nil (e : Json) : ¬AddedAt d e [] := by
  rintro ⟨above, k, ms, hpath, -⟩
  cases above <;> cases hpath

/-- The paths are those at which the filled value has gained a member, once each, and are as many
as are counted. -/
structure Lists (paths : List (List String)) (d : Json) (filled : Json × Nat) : Prop where
  nodup : paths.Nodup
  length : paths.length = filled.2
  mem : ∀ path, path ∈ paths ↔ AddedAt d filled.1 path

theorem Lists.none (d : Json) : Lists [] d (d, 0) where
  nodup := List.nodup_nil
  length := rfl
  mem := fun path => by simp [not_addedAt_self]

theorem length_filledPaths (fields : List (String × FieldTree)) (obj : List (String × Json)) :
    (filledPaths fields obj).length =
      (fields.map (contribution (fun e child => (filledBelow e.2 child).length) obj)).sum := by
  induction fields with
  | nil => rfl
  | cons e fields ih =>
      obtain ⟨name, t⟩ := e
      rw [filledPaths, List.length_append, ih, List.map_cons, List.sum_cons, contribution]
      congr 1
      cases hget : Entries.get? name obj with
      | some child => simp
      | none => cases hrequired : t.attrs.required <;> simp

/-- Field names are distinct, and each path starts with the name of its field. -/
theorem nodup_flatMap_of_head {paths : String × FieldTree → List (List String)}
    (hs : Entries.Sorted fields) (hnodup : ∀ e ∈ fields, (paths e).Nodup)
    (hhead : ∀ e ∈ fields, ∀ path ∈ paths e, path.head? = some e.1) :
    (fields.flatMap paths).Nodup := by
  rw [List.nodup_flatMap]
  refine ⟨hnodup, List.Pairwise.imp_of_mem ?_ hs⟩
  intro e e' he he' hlt path hpath hpath'
  have hname : e.1 = e'.1 :=
    Option.some.inj ((hhead e he path hpath).symm.trans (hhead e' he' path hpath'))
  exact hlt.ne hname

/-- What is listed for one declared field. -/
def filledPathsOf (obj : List (String × Json)) (e : String × FieldTree) : List (List String) :=
  match Entries.get? e.1 obj with
  | some child => (filledBelow e.2 child).map (e.1 :: ·)
  | none => if e.2.attrs.required then [[e.1]] else []

theorem filledPaths_eq_flatMap (fields : List (String × FieldTree)) (obj : List (String × Json)) :
    filledPaths fields obj = fields.flatMap (filledPathsOf obj) := by
  induction fields with
  | nil => rw [filledPaths, List.flatMap_nil]
  | cons e fields ih =>
      obtain ⟨name, t⟩ := e
      rw [filledPaths, ih, List.flatMap_cons]
      rfl

theorem head_of_mem_filledPathsOf {e : String × FieldTree} {path : List String}
    (h : path ∈ filledPathsOf obj e) : path.head? = some e.1 := by
  rw [filledPathsOf] at h
  split at h
  · obtain ⟨rest, -, rfl⟩ := List.mem_map.mp h
    rfl
  · split_ifs at h
    · rw [List.mem_singleton.mp h]
      rfl
    · cases h

theorem nodup_filledPaths (hs : Entries.Sorted fields)
    (hmember : ∀ e ∈ fields, ∀ child, (filledBelow e.2 child).Nodup) :
    (filledPaths fields obj).Nodup := by
  rw [filledPaths_eq_flatMap]
  refine nodup_flatMap_of_head hs (fun e he => ?_) fun e _ path => head_of_mem_filledPathsOf
  rw [filledPathsOf]
  split
  · exact (hmember e he _).map List.cons_injective
  · split_ifs
    · exact List.nodup_singleton _
    · exact List.nodup_nil

/-- At each path that is listed a member is added. -/
theorem addedAt_of_mem_filledPaths (hs : Entries.Sorted fields)
    (hmember : ∀ e ∈ fields, ∀ child, Lists (filledBelow e.2 child) child (fillMember e.2 child))
    {path : List String} (hpath : path ∈ filledPaths fields obj) :
    AddedAt (.object obj) (.object (fillFields fields obj).1) path := by
  obtain ⟨⟨k, t⟩, ht, hwhy⟩ := mem_filledPaths.mp hpath
  have hfilled := get?_fillFields hs obj k
  rw [Entries.get?_of_mem hs ht] at hfilled
  rcases hwhy with ⟨hnone, hrequired, rfl⟩ | ⟨child, rest, hchild, rfl, hrest⟩
  · rw [addedAt_cons]
    refine Or.inl ⟨rfl, ⟨obj, rfl, hnone⟩, ?_⟩
    simp only at hnone hrequired
    simp only [hnone, hrequired, if_true] at hfilled
    rw [Json.get?, hfilled]
    rfl
  · rw [addedAt_cons]
    simp only at hchild
    simp only [hchild] at hfilled
    exact Or.inr ⟨child, _, hchild, hfilled, ((hmember _ ht child).mem rest).mp hrest⟩

/-- Wherever a member is added, the path is listed. -/
theorem mem_filledPaths_of_addedAt (hs : Entries.Sorted fields)
    (hmember : ∀ e ∈ fields, ∀ child, Lists (filledBelow e.2 child) child (fillMember e.2 child))
    {path : List String}
    (hadded : AddedAt (.object obj) (.object (fillFields fields obj).1) path) :
    path ∈ filledPaths fields obj := by
  rw [mem_filledPaths]
  cases path with
  | nil => exact absurd hadded (not_addedAt_nil _)
  | cons k rest =>
      have hfilled := get?_fillFields hs obj k
      rcases addedAt_cons.mp hadded with ⟨rfl, ⟨ms, hms, hnone⟩, hsome⟩ |
        ⟨child, grown, hchild, hgrown, hrest⟩
      -- the member itself was added, for a required field
      · cases hms
        rw [hnone] at hfilled
        rw [Json.get?] at hsome
        cases hfield : Entries.get? k fields with
        | none => simp [hfilled, hfield] at hsome
        | some t =>
            cases hrequired : t.attrs.required with
            | false => simp [hfilled, hfield, hrequired] at hsome
            | true => exact ⟨(k, t), Entries.mem_of_get? hfield, Or.inl ⟨hnone, hrequired, rfl⟩⟩
      -- the member was there, and was filled below
      · have hchild : Entries.get? k obj = some child := hchild
        have hgrown : Entries.get? k (fillFields fields obj).1 = some grown := hgrown
        rw [hchild, hgrown] at hfilled
        cases hfield : Entries.get? k fields with
        | none =>
            simp only [hfield, Option.some.injEq] at hfilled
            rw [hfilled] at hrest
            exact absurd hrest (not_addedAt_self rest)
        | some t =>
            simp only [hfield, Option.some.injEq] at hfilled
            rw [hfilled] at hrest
            have ht : (k, t) ∈ fields := Entries.mem_of_get? hfield
            exact ⟨(k, t), ht, Or.inr ⟨child, rest, hchild, rfl,
              ((hmember _ ht child).mem rest).mpr hrest⟩⟩

/-- One level: what is listed below the members is a hypothesis. -/
theorem lists_fillFields (hs : Entries.Sorted fields)
    (hmember : ∀ e ∈ fields, ∀ child, Lists (filledBelow e.2 child) child (fillMember e.2 child)) :
    Lists (filledPaths fields obj) (.object obj) (fillFieldsInValue fields (.object obj)) where
  nodup := nodup_filledPaths hs fun e he child => (hmember e he child).nodup
  length := by
    change _ = (fillFields fields obj).2
    rw [length_filledPaths, fillFields_count hs]
    exact sum_contribution_congr fun e he child => (hmember e he child).length
  mem := fun _ => ⟨addedAt_of_mem_filledPaths hs hmember, mem_filledPaths_of_addedAt hs hmember⟩

/-- All levels, below a member. -/
theorem lists_fillMember (t : FieldTree) (h : t.ordered = true) :
    ∀ d, Lists (filledBelow t d) d (fillMember t d) := by
  induction t using FieldTree.rec' with
  | h t ih =>
      intro d
      cases hps : t.properties with
      | none =>
          rw [filledBelow_of_none hps, fillMember_of_none hps]
          exact .none d
      | some ps =>
          obtain ⟨hsorted, hordered⟩ := FieldTree.ordered_properties h hps
          rw [filledBelow_of_properties hps, fillMember_of_properties hps]
          cases d with
          | object obj =>
              refine lists_fillFields hsorted fun e he => ?_
              exact ih e (FieldTree.mem_children_of_properties hps he) (hordered e he)
          | _ => exact .none _

/-- The fill counts the members it adds. -/
theorem fill_count_eq_ncard (t : EntityTypeDef) (d : Json) :
    (fillFieldsInValue t.trees d).2 =
      {path | AddedAt d (fillFieldsInValue t.trees d).1 path}.ncard := by
  have hcard : ∀ {paths : List (List String)}, Lists paths d (fillFieldsInValue t.trees d) →
      (fillFieldsInValue t.trees d).2 =
        {path | AddedAt d (fillFieldsInValue t.trees d).1 path}.ncard := by
    intro paths hlists
    have hset : {path | AddedAt d (fillFieldsInValue t.trees d).1 path} =
        (paths.toFinset : Set (List String)) := by
      ext path
      rw [Set.mem_ofPred_eq, ← hlists.mem, List.coe_toFinset, Set.mem_ofPred_eq]
    rw [hset, Set.ncard_coe_finset, List.toFinset_card_of_nodup hlists.nodup, hlists.length]
  cases d with
  | object obj =>
      exact hcard (lists_fillFields t.sorted_trees fun e he =>
        lists_fillMember e.2 (t.ordered_of_mem he))
  | _ => exact hcard (.none _)

end Added

section Extension

variable {fields : List (String × FieldTree)}

/-- One level: that the members grow is a hypothesis. -/
theorem conserves_fillFields (hs : Entries.Sorted fields)
    (hmember : ∀ e ∈ fields, ∀ ps, e.2.properties = some ps →
      ∀ d, Conserves ps d (fillFieldsInValue ps d).1)
    (obj : List (String × Json)) :
    Conserves fields (.object obj) (fillFieldsInValue fields (.object obj)).1 := by
  refine .object (fun k => (Entries.get? k (fillFields fields obj).1).getD .null) ?_ ?_ ?_ ?_
  · intro k v hv
    rw [get?_fillFields hs, hv]
    cases Entries.get? k fields with
    | none => rfl
    | some t => rfl
  · intro k v hv hnone
    rw [get?_fillFields hs, hv]
    cases hfield : Entries.get? k fields with
    | none => rfl
    | some t =>
        rw [hfield, Option.bind_some] at hnone
        simp only [fillMember_of_none hnone, Option.getD_some]
  · intro k v t ps hv hfield hps
    rw [get?_fillFields hs, hv, hfield]
    simp only [fillMember_of_properties hps, Option.getD_some]
    exact hmember (k, t) (Entries.mem_of_get? hfield) ps hps v
  · intro k v hnone hv
    rw [get?_fillFields hs, hnone] at hv
    cases hfield : Entries.get? k fields with
    | none => simp [hfield] at hv
    | some t =>
        simp only [hfield] at hv
        split_ifs at hv with hrequired
        refine ⟨t, rfl, hrequired, fun x hx => ?_⟩
        rw [← Option.some.inj hv, fillValue, hx, Option.getD_some]

theorem conserves_fillFieldsInValue (hs : Entries.Sorted fields)
    (hmember : ∀ e ∈ fields, ∀ ps, e.2.properties = some ps →
      ∀ d, Conserves ps d (fillFieldsInValue ps d).1)
    (d : Json) : Conserves fields d (fillFieldsInValue fields d).1 := by
  cases d with
  | object obj => exact conserves_fillFields hs hmember obj
  | _ => exact .other (by simp)

/-- All levels, below a field. -/
theorem conserves_properties (t : FieldTree) (h : t.ordered = true) :
    ∀ ps, t.properties = some ps → ∀ d, Conserves ps d (fillFieldsInValue ps d).1 := by
  induction t using FieldTree.rec' with
  | h t ih =>
      intro ps hps d
      obtain ⟨hsorted, hordered⟩ := FieldTree.ordered_properties h hps
      refine conserves_fillFieldsInValue hsorted (fun e he => ?_) d
      exact ih e (FieldTree.mem_children_of_properties hps he) (hordered e he)

/-- **The fill extends the value conservatively**, returns what is no object as it is and counts
the members it adds. -/
theorem fill_extends (t : EntityTypeDef) (d : Json) :
    Conserves t.trees d (fillFieldsInValue t.trees d).1 ∧
      ((∀ ms, d ≠ .object ms) → fillFieldsInValue t.trees d = (d, 0)) ∧
      (fillFieldsInValue t.trees d).2 =
        {path | AddedAt d (fillFieldsInValue t.trees d).1 path}.ncard := by
  refine ⟨?_, ?_, fill_count_eq_ncard t d⟩
  · exact conserves_fillFieldsInValue t.sorted_trees
      (fun e he => conserves_properties e.2 (t.ordered_of_mem he)) d
  · intro hd
    cases d with
    | object obj => exact absurd rfl (hd obj)
    | _ => rfl

end Extension

/-! ## What filling leaves missing -/

/-- The fields and the members of an object that the fill comes to, from the fields and the value
that it starts with. -/
inductive Visits : List (String × FieldTree) → Json →
    List (String × FieldTree) → List (String × Json) → Prop where
  | here {fields : List (String × FieldTree)} {ms : List (String × Json)} :
      Visits fields (.object ms) fields ms
  | step {fields ps fs : List (String × FieldTree)} {ms ns : List (String × Json)} {k : String}
      {t : FieldTree} {child : Json} (hfield : (k, t) ∈ fields) (hps : t.properties = some ps)
      (hchild : Entries.get? k ms = some child) (hvisits : Visits ps child fs ns) :
      Visits fields (.object ms) fs ns

/-- Every object the fill would come to has its required members. -/
def Complete (fields : List (String × FieldTree)) (d : Json) : Prop :=
  ∀ fs ms, Visits fields d fs ms → ∀ e ∈ fs, e.2.attrs.required = true →
    Entries.get? e.1 ms ≠ none

/-- Wherever the fill comes to lacks a required field, the value that the field gets has what the
properties of the field require. -/
def AddsComplete (fields : List (String × FieldTree)) (d : Json) : Prop :=
  ∀ fs ms, Visits fields d fs ms → ∀ e ∈ fs, e.2.attrs.required = true →
    Entries.get? e.1 ms = none → Complete (e.2.properties.getD []) (fillValue e.2)

section Complete

variable {fields : List (String × FieldTree)} {obj : List (String × Json)}

/-- What is visited from an object: the object, and what is visited from its members. -/
theorem forall_visits_object
    {P : List (String × FieldTree) → List (String × Json) → Prop} :
    (∀ fs ms, Visits fields (.object obj) fs ms → P fs ms) ↔
      P fields obj ∧ ∀ e ∈ fields, ∀ ps, e.2.properties = some ps →
        ∀ child, Entries.get? e.1 obj = some child → ∀ fs ms, Visits ps child fs ms → P fs ms := by
  constructor
  · intro h
    refine ⟨h _ _ .here, ?_⟩
    rintro ⟨k, t⟩ ht ps hps child hchild fs ms hvisits
    exact h fs ms (.step ht hps hchild hvisits)
  · rintro ⟨hhere, hbelow⟩ fs ms hvisits
    cases hvisits with
    | here => exact hhere
    | step hfield hps hchild hvisits => exact hbelow _ hfield _ hps _ hchild fs ms hvisits

theorem not_visits {d : Json} (hd : ∀ ms, d ≠ .object ms) {fs : List (String × FieldTree)}
    {ms : List (String × Json)} : ¬Visits fields d fs ms := by
  intro hvisits
  cases hvisits with
  | here => exact hd _ rfl
  | step => exact hd _ rfl

theorem complete_object : Complete fields (.object obj) ↔
    (∀ e ∈ fields, e.2.attrs.required = true → Entries.get? e.1 obj ≠ none) ∧
      ∀ e ∈ fields, ∀ ps, e.2.properties = some ps →
        ∀ child, Entries.get? e.1 obj = some child → Complete ps child :=
  forall_visits_object

theorem addsComplete_object : AddsComplete fields (.object obj) ↔
    (∀ e ∈ fields, e.2.attrs.required = true → Entries.get? e.1 obj = none →
        Complete (e.2.properties.getD []) (fillValue e.2)) ∧
      ∀ e ∈ fields, ∀ ps, e.2.properties = some ps →
        ∀ child, Entries.get? e.1 obj = some child → AddsComplete ps child :=
  forall_visits_object

theorem complete_of_ne_object {d : Json} (hd : ∀ ms, d ≠ .object ms) : Complete fields d :=
  fun _ _ hvisits => absurd hvisits (not_visits hd)

theorem addsComplete_of_ne_object {d : Json} (hd : ∀ ms, d ≠ .object ms) :
    AddsComplete fields d :=
  fun _ _ hvisits => absurd hvisits (not_visits hd)

theorem complete_nil (d : Json) : Complete [] d := by
  intro fs ms hvisits
  cases hvisits with
  | here => exact fun _ he => by cases he
  | step hfield => cases hfield

/-! ### Nothing is listed -/

/-- Nothing required is listed when each field is there, and nothing below it is listed. -/
theorem missingFields_eq_nil_iff (parent : String) :
    requiredOnly (missingFields parent fields obj) = [] ↔
      (∀ e ∈ fields, e.2.attrs.required = true → Entries.get? e.1 obj ≠ none) ∧
        ∀ e ∈ fields, ∀ child, Entries.get? e.1 obj = some child →
          requiredOnly (missingBelow (fieldPointer parent e.1) e.2 child) = [] := by
  induction fields with
  | nil => simp [missingFields, requiredOnly]
  | cons e fields ih =>
      obtain ⟨name, t⟩ := e
      rw [missingFields, requiredOnly_append, List.append_eq_nil_iff, ih, List.forall_mem_cons,
        List.forall_mem_cons, and_and_and_comm]
      refine and_congr ?_ Iff.rfl
      cases hget : Entries.get? name obj with
      | some child => simp
      | none => cases hrequired : t.attrs.required <;> simp [requiredOnly, driftField, hrequired]

/-- One level: what is listed below the members is a hypothesis. -/
theorem missingFieldsInValue_eq_nil_iff
    (hmember : ∀ e ∈ fields, ∀ ps, e.2.properties = some ps → ∀ d parent,
      requiredOnly (missingFieldsInValue d ps parent) = [] ↔ Complete ps d)
    (d : Json) (parent : String) :
    requiredOnly (missingFieldsInValue d fields parent) = [] ↔ Complete fields d := by
  cases d with
  | object obj =>
      change requiredOnly (missingFields parent fields obj) = [] ↔ _
      rw [missingFields_eq_nil_iff, complete_object]
      refine and_congr Iff.rfl (forall₂_congr fun e he => ?_)
      cases hps : e.2.properties with
      | none => simp [missingBelow_of_none hps, requiredOnly]
      | some ps =>
          simp only [missingBelow_of_properties hps, Option.some.injEq, forall_eq']
          exact forall₂_congr fun child _ => hmember e he ps hps child _
  | _ => exact iff_of_true rfl (complete_of_ne_object (by simp))

theorem missingBelow_eq_nil_iff (t : FieldTree) : ∀ ps, t.properties = some ps → ∀ d parent,
    requiredOnly (missingFieldsInValue d ps parent) = [] ↔ Complete ps d := by
  induction t using FieldTree.rec' with
  | h t ih =>
      intro ps hps
      refine missingFieldsInValue_eq_nil_iff fun e he => ?_
      exact ih e (FieldTree.mem_children_of_properties hps he)

/-! ### After the fill -/

/-- One level: that the members are completed is a hypothesis. -/
theorem complete_fillFields_iff (hs : Entries.Sorted fields)
    (hmember : ∀ e ∈ fields, ∀ ps, e.2.properties = some ps →
      ∀ d, Complete ps (fillFieldsInValue ps d).1 ↔ AddsComplete ps d) :
    Complete fields (fillFieldsInValue fields (.object obj)).1 ↔
      AddsComplete fields (.object obj) := by
  change Complete fields (.object (fillFields fields obj).1) ↔ _
  have hrequired : ∀ e ∈ fields, e.2.attrs.required = true →
      Entries.get? e.1 (fillFields fields obj).1 ≠ none := by
    rintro ⟨k, t⟩ ht (hrequired : t.attrs.required = true)
    rw [get?_fillFields hs, Entries.get?_of_mem hs ht]
    cases Entries.get? k obj with
    | none => simp [hrequired]
    | some child => simp
  rw [complete_object, addsComplete_object, and_iff_right hrequired, ← forall₂_and]
  refine forall₂_congr fun e he => ?_
  obtain ⟨k, t⟩ := e
  have hfilled := get?_fillFields hs obj k
  rw [Entries.get?_of_mem hs he] at hfilled
  cases hps : t.properties with
  | none => simp [complete_nil]
  | some ps =>
      cases hget : Entries.get? k obj with
      | none =>
          simp only [hget] at hfilled
          cases hrequired : t.attrs.required with
          | false => simp [hfilled, hrequired]
          | true => simp [hfilled, hrequired]
      | some child =>
          simp only [hget, fillMember_of_properties hps] at hfilled
          simp [hfilled, hmember (k, t) he ps hps]

theorem complete_fillFieldsInValue_iff (hs : Entries.Sorted fields)
    (hmember : ∀ e ∈ fields, ∀ ps, e.2.properties = some ps →
      ∀ d, Complete ps (fillFieldsInValue ps d).1 ↔ AddsComplete ps d)
    (d : Json) : Complete fields (fillFieldsInValue fields d).1 ↔ AddsComplete fields d := by
  cases d with
  | object obj => exact complete_fillFields_iff hs hmember
  | _ =>
      rw [fillFieldsInValue.eq_2 _ _ (by simp)]
      exact iff_of_true (complete_of_ne_object (by simp)) (addsComplete_of_ne_object (by simp))

/-- All levels, below a field. -/
theorem complete_properties_iff (t : FieldTree) (h : t.ordered = true) :
    ∀ ps, t.properties = some ps →
      ∀ d, Complete ps (fillFieldsInValue ps d).1 ↔ AddsComplete ps d := by
  induction t using FieldTree.rec' with
  | h t ih =>
      intro ps hps
      obtain ⟨hsorted, hordered⟩ := FieldTree.ordered_properties h hps
      refine complete_fillFieldsInValue_iff hsorted fun e he => ?_
      exact ih e (FieldTree.mem_children_of_properties hps he) (hordered e he)

/-- **When one pass is enough.** After the fill nothing required is listed as missing, and a
second fill adds nothing, exactly when what the first one adds is complete. -/
theorem fill_complete_iff (t : EntityTypeDef) (obj : List (String × Json)) (parent : String) :
    (requiredOnly (missingFieldsInValue (fillFieldsInValue t.trees (.object obj)).1 t.trees
          parent) = [] ∧
        (fillFieldsInValue t.trees (fillFieldsInValue t.trees (.object obj)).1).2 = 0) ↔
      AddsComplete t.trees (.object obj) := by
  rw [fill_count_eq_missing t _ parent, List.length_eq_zero_iff, and_self,
    missingFieldsInValue_eq_nil_iff fun e _ => missingBelow_eq_nil_iff e.2]
  exact complete_fillFieldsInValue_iff t.sorted_trees
    (fun e he => complete_properties_iff e.2 (t.ordered_of_mem he)) _

/-- An address that has a city. -/
def addressTree : FieldTree :=
  .mk { FieldAttrs.ofType .object with required := true } none
    (some [("city", .mk { FieldAttrs.ofType .string with required := true } none none)])

/-- People with an address. -/
def personType : EntityTypeDef where
  description := none
  fields := OrderedMap.empty.insert "address" ⟨addressTree, rfl⟩

/-- A definition that has only people. -/
def personDefinition : MetaSchemaDefinition where
  name := "people"
  description := none
  entityTypes := OrderedMap.empty.insert "person" personType
  relationTypes := .empty

/-- The empty object that stands for a missing address has no city. -/
theorem not_fill_complete :
    ¬∀ (env : Dialect) (display : ℚ → String) (definition : MetaSchemaDefinition),
      validateDefinition env display definition = .ok () →
        ∀ name t, definition.entityTypes.get? name = some t → ∀ obj parent,
          requiredOnly (missingFieldsInValue (fillFieldsInValue t.trees (.object obj)).1 t.trees
              parent) = [] ∧
            (fillFieldsInValue t.trees (fillFieldsInValue t.trees (.object obj)).1).2 = 0 := by
  intro h
  have hfill := h lenientDialect (fun _ => "") personDefinition (by decide) "person"
    personType rfl [] ""
  exact absurd hfill.2 (by decide)

end Complete

end Yorishiro.Entity
