import Yorishiro.Entity.Drift
import Yorishiro.Lib.Separated

/-!
# The names of missing fields

`missing_fields_in_value` names what it lists: a field at the top by its name, a nested one by its
pointer. Here the list is related to the positions in the data at which a declared field is missing
(`MissingAt`).

Each position is listed once. Pointers tell positions apart (`pointer_injective`): a segment is
escaped, so that it has no `/` and can be read back. A name at the top is not escaped. Two positions
have one name when a field at the top is called as the pointer of a nested one reads, and only then
(`missing_names`).
-/

set_option autoImplicit false

namespace Yorishiro.Entity

open Yorishiro.Lib Yorishiro.Lib.JsonSchema Yorishiro.Metaschema

/-! ## Positions -/

mutual

/-- The positions of the fields that `missing_fields_in_value` lists, in its order. -/
def missingPaths : List (String × FieldTree) → List (String × Json) → List (List String)
  | [], _ => []
  | (name, field) :: fields, obj =>
      (match Entries.get? name obj with
        | none => [[name]]
        | some child => (missingPathsBelow field child).map (name :: ·)) ++ missingPaths fields obj

/-- The positions below a member that is there. -/
def missingPathsBelow : FieldTree → Json → List (List String)
  | .mk _ _ (some properties), .object obj => missingPaths properties obj
  | _, _ => []

end

/-- The positions in a value. -/
def missingPathsInValue (data : Json) (fields : List (String × FieldTree)) : List (List String) :=
  match data with
  | .object obj => missingPaths fields obj
  | _ => []

/-- The path leads to a declared field that the object above it lacks. -/
inductive MissingAt : List (String × FieldTree) → Json → List String → Prop where
  | here {fields : List (String × FieldTree)} {ms : List (String × Json)} {k : String}
      {t : FieldTree} (hfield : (k, t) ∈ fields) (hnone : Entries.get? k ms = none) :
      MissingAt fields (.object ms) [k]
  | step {fields ps : List (String × FieldTree)} {ms : List (String × Json)} {k : String}
      {t : FieldTree} {child : Json} {path : List String} (hfield : (k, t) ∈ fields)
      (hps : t.properties = some ps) (hchild : Entries.get? k ms = some child)
      (hmissing : MissingAt ps child path) : MissingAt fields (.object ms) (k :: path)

/-- The pointer of a position. -/
def pointerOf (path : List String) : String := path.foldl fieldPointer ""

/-- The name of a position below `parent`: a field at the top goes by its name. -/
def nameAt (parent : String) : List String → String
  | [k] => if parent.isEmpty then k else fieldPointer parent k
  | path => path.foldl fieldPointer parent

section Positions

variable {fields : List (String × FieldTree)} {obj : List (String × Json)} {d : Json}

theorem missingPathsBelow_of_properties {t : FieldTree} {ps : List (String × FieldTree)}
    (hps : t.properties = some ps) (d : Json) :
    missingPathsBelow t d = missingPathsInValue d ps := by
  obtain ⟨a, i, p⟩ := t
  obtain rfl : p = some ps := hps
  cases d <;> simp [missingPathsBelow, missingPathsInValue]

theorem missingPathsBelow_of_none {t : FieldTree} (hps : t.properties = none) (d : Json) :
    missingPathsBelow t d = [] := by
  obtain ⟨a, i, p⟩ := t
  obtain rfl : p = none := hps
  cases d <;> simp [missingPathsBelow]

/-- The positions of one declared field. -/
def pathsOf (obj : List (String × Json)) (e : String × FieldTree) : List (List String) :=
  match Entries.get? e.1 obj with
  | none => [[e.1]]
  | some child => (missingPathsBelow e.2 child).map (e.1 :: ·)

theorem missingPaths_eq_flatMap (fields : List (String × FieldTree)) (obj : List (String × Json)) :
    missingPaths fields obj = fields.flatMap (pathsOf obj) := by
  induction fields with
  | nil => rw [missingPaths, List.flatMap_nil]
  | cons e fields ih =>
      obtain ⟨name, t⟩ := e
      rw [missingPaths, ih, List.flatMap_cons]
      rfl

theorem mem_pathsOf {e : String × FieldTree} {path : List String} :
    path ∈ pathsOf obj e ↔ (Entries.get? e.1 obj = none ∧ path = [e.1]) ∨
      ∃ child rest, Entries.get? e.1 obj = some child ∧ path = e.1 :: rest ∧
        rest ∈ missingPathsBelow e.2 child := by
  rw [pathsOf]
  cases hget : Entries.get? e.1 obj with
  | none => simp
  | some child =>
      rw [List.mem_map]
      constructor
      · rintro ⟨rest, hrest, rfl⟩
        exact Or.inr ⟨child, rest, rfl, rfl, hrest⟩
      · rintro (⟨hnone, -⟩ | ⟨c, rest, hc, rfl, hrest⟩)
        · cases hnone
        · cases hc
          exact ⟨rest, hrest, rfl⟩

/-- One level: what is listed below the members is a hypothesis. -/
theorem mem_missingPathsInValue
    (hmember : ∀ e ∈ fields, ∀ ps, e.2.properties = some ps → ∀ child path,
      path ∈ missingPathsInValue child ps ↔ MissingAt ps child path)
    (d : Json) (path : List String) :
    path ∈ missingPathsInValue d fields ↔ MissingAt fields d path := by
  constructor
  · intro hpath
    cases d with
    | object obj =>
        rw [missingPathsInValue, missingPaths_eq_flatMap, List.mem_flatMap] at hpath
        obtain ⟨⟨k, t⟩, ht, hpath⟩ := hpath
        rcases mem_pathsOf.mp hpath with ⟨hnone, rfl⟩ | ⟨child, rest, hchild, rfl, hrest⟩
        · exact .here ht hnone
        · cases hps : t.properties with
          | none =>
              rw [missingPathsBelow_of_none hps] at hrest
              cases hrest
          | some ps =>
              rw [missingPathsBelow_of_properties hps] at hrest
              exact .step ht hps hchild ((hmember _ ht ps hps child rest).mp hrest)
    | _ => cases hpath
  · intro hmissing
    cases hmissing with
    | here hfield hnone =>
        rw [missingPathsInValue, missingPaths_eq_flatMap, List.mem_flatMap]
        exact ⟨_, hfield, mem_pathsOf.mpr (Or.inl ⟨hnone, rfl⟩)⟩
    | step hfield hps hchild hmissing =>
        rw [missingPathsInValue, missingPaths_eq_flatMap, List.mem_flatMap]
        refine ⟨_, hfield, mem_pathsOf.mpr (Or.inr ⟨_, _, hchild, rfl, ?_⟩)⟩
        rw [missingPathsBelow_of_properties hps]
        exact (hmember _ hfield _ hps _ _).mpr hmissing

/-- All levels, below a field. -/
theorem mem_missingPaths_properties (t : FieldTree) :
    ∀ ps, t.properties = some ps → ∀ child path,
      path ∈ missingPathsInValue child ps ↔ MissingAt ps child path := by
  induction t using FieldTree.rec' with
  | h t ih =>
      intro ps hps
      refine mem_missingPathsInValue fun e he => ?_
      exact ih e (FieldTree.mem_children_of_properties hps he)

/-- The positions of a field start with its name. -/
theorem head_of_mem_pathsOf {e : String × FieldTree} {path : List String}
    (h : path ∈ pathsOf obj e) : path.head? = some e.1 := by
  rcases mem_pathsOf.mp h with ⟨-, rfl⟩ | ⟨child, rest, -, rfl, -⟩
  · rfl
  · rfl

theorem nodup_missingPathsInValue (hs : Entries.Sorted fields)
    (hmember : ∀ e ∈ fields, ∀ child, (missingPathsBelow e.2 child).Nodup) (d : Json) :
    (missingPathsInValue d fields).Nodup := by
  cases d with
  | object obj =>
      rw [missingPathsInValue, missingPaths_eq_flatMap]
      refine nodup_flatMap_of_head hs (fun e he => ?_) fun e _ path => head_of_mem_pathsOf
      rw [pathsOf]
      cases Entries.get? e.1 obj with
      | none => exact List.nodup_singleton _
      | some child => exact (hmember e he child).map List.cons_injective
  | _ => exact List.nodup_nil

theorem nodup_missingPathsBelow (t : FieldTree) (h : t.ordered = true) :
    ∀ d, (missingPathsBelow t d).Nodup := by
  induction t using FieldTree.rec' with
  | h t ih =>
      intro d
      cases hps : t.properties with
      | none =>
          rw [missingPathsBelow_of_none hps]
          exact List.nodup_nil
      | some ps =>
          obtain ⟨hsorted, hordered⟩ := FieldTree.ordered_properties h hps
          rw [missingPathsBelow_of_properties hps]
          refine nodup_missingPathsInValue hsorted (fun e he => ?_) d
          exact ih e (FieldTree.mem_children_of_properties hps he) (hordered e he)

end Positions

/-! ## Pointers -/

/-- What a character of a name is in a pointer. -/
def escapeChar (c : Char) : List Char :=
  if c = '~' then ['~', '0'] else if c = '/' then ['~', '1'] else [c]

/-- A segment read back. -/
def unescapeSegment : List Char → List Char
  | [] => []
  | '~' :: '0' :: cs => '~' :: unescapeSegment cs
  | '~' :: '1' :: cs => '/' :: unescapeSegment cs
  | c :: cs => c :: unescapeSegment cs

theorem toList_escapePointerSegment (name : String) :
    (escapePointerSegment name).toList = name.toList.flatMap escapeChar := by
  rw [escapePointerSegment, String.toList_ofList, List.flatMap_assoc]
  refine List.flatMap_congr fun c _ => ?_
  rw [escapeChar]
  by_cases htilde : c = '~'
  · simp [htilde]
  · simp [htilde]

theorem unescapeSegment_escape (cs : List Char) :
    unescapeSegment (cs.flatMap escapeChar) = cs := by
  induction cs with
  | nil => rfl
  | cons c cs ih =>
      rw [List.flatMap_cons, escapeChar]
      split_ifs with htilde hslash
      · rw [htilde]
        simp [unescapeSegment, ih]
      · rw [hslash]
        simp [unescapeSegment, ih]
      · simp [unescapeSegment, htilde, ih]

theorem escapePointerSegment_injective : Function.Injective escapePointerSegment := by
  intro a b h
  have hcodes : a.toList.flatMap escapeChar = b.toList.flatMap escapeChar := by
    rw [← toList_escapePointerSegment, ← toList_escapePointerSegment, h]
  have hchars := congrArg unescapeSegment hcodes
  rw [unescapeSegment_escape, unescapeSegment_escape] at hchars
  exact String.toList_inj.mp hchars

theorem slash_notMem_escape (name : String) : '/' ∉ (escapePointerSegment name).toList := by
  rw [toList_escapePointerSegment, List.mem_flatMap]
  rintro ⟨c, -, hc⟩
  rw [escapeChar] at hc
  split_ifs at hc with htilde hslash
  · simp at hc
  · simp at hc
  · exact hslash (List.mem_singleton.mp hc).symm

/-- The segments of a pointer, each after a slash. -/
theorem toList_foldl_fieldPointer (parent : String) (path : List String) :
    (path.foldl fieldPointer parent).toList =
      parent.toList ++
        Separated.joined '/' (path.map fun k => (escapePointerSegment k).toList) := by
  induction path generalizing parent with
  | nil => simp [Separated.joined]
  | cons k path ih =>
      rw [List.foldl_cons, ih, fieldPointer, String.toList_append, String.toList_append]
      simp [Separated.joined]

/-- **Pointers tell positions apart.** -/
theorem pointer_injective : Function.Injective pointerOf := by
  intro p q h
  have hchars := congrArg String.toList h
  rw [pointerOf, pointerOf, toList_foldl_fieldPointer, toList_foldl_fieldPointer] at hchars
  have hslash : ∀ path : List String,
      ∀ x ∈ path.map fun k => (escapePointerSegment k).toList, '/' ∉ x := by
    intro path x hx
    obtain ⟨k, -, rfl⟩ := List.mem_map.mp hx
    exact slash_notMem_escape k
  have hsegments := Separated.joined_injective (hslash p) (hslash q) (List.append_cancel_left hchars)
  refine List.map_injective_iff.mpr ?_ hsegments
  exact fun a b hab => escapePointerSegment_injective (String.toList_inj.mp hab)

/-! ## Names -/

section Names

variable {fields : List (String × FieldTree)} {d : Json}

theorem fieldPointer_isEmpty (parent k : String) : (fieldPointer parent k).isEmpty = false := by
  rw [fieldPointer, ← Bool.not_eq_true, String.isEmpty_iff]
  intro h
  have hlength := congrArg String.length h
  simp [String.length_append] at hlength

/-- Below the top a name is the pointer. -/
theorem nameAt_cons {parent k : String} {path : List String} (hpath : path ≠ []) :
    nameAt parent (k :: path) = nameAt (fieldPointer parent k) path := by
  cases path with
  | nil => exact absurd rfl hpath
  | cons l path =>
      rw [nameAt.eq_2 _ _ (by simp)]
      cases path with
      | nil => simp [nameAt, fieldPointer_isEmpty]
      | cons m path => rfl

theorem MissingAt.ne_nil {path : List String} (h : MissingAt fields d path) : path ≠ [] := by
  cases h <;> simp

theorem ne_nil_of_mem_missingPathsBelow {t : FieldTree} {path : List String}
    (h : path ∈ missingPathsBelow t d) : path ≠ [] := by
  cases hps : t.properties with
  | none =>
      rw [missingPathsBelow_of_none hps] at h
      cases h
  | some ps =>
      rw [missingPathsBelow_of_properties hps] at h
      exact ((mem_missingPaths_properties t ps hps d path).mp h).ne_nil

/-- One level: the names below the members are a hypothesis. -/
theorem names_missingFieldsInValue
    (hmember : ∀ e ∈ fields, ∀ pointer child,
      (missingBelow pointer e.2 child).map DriftField.name =
        (missingPathsBelow e.2 child).map (nameAt pointer))
    (d : Json) (parent : String) :
    (missingFieldsInValue d fields parent).map DriftField.name =
      (missingPathsInValue d fields).map (nameAt parent) := by
  cases d with
  | object obj =>
      rw [missingFieldsInValue, missingPathsInValue]
      induction fields with
      | nil => rfl
      | cons e fields ih =>
          obtain ⟨name, t⟩ := e
          obtain ⟨hfirst, hrest⟩ := List.forall_mem_cons.mp hmember
          rw [missingFields, missingPaths, List.map_append, List.map_append, ih hrest]
          congr 1
          cases hget : Entries.get? name obj with
          | none => rfl
          | some child =>
              simp only [hfirst, List.map_map]
              refine List.map_congr_left fun path hpath => ?_
              exact (nameAt_cons (ne_nil_of_mem_missingPathsBelow hpath)).symm
  | _ => rfl

theorem names_missingBelow (t : FieldTree) : ∀ pointer d,
    (missingBelow pointer t d).map DriftField.name =
      (missingPathsBelow t d).map (nameAt pointer) := by
  induction t using FieldTree.rec' with
  | h t ih =>
      intro pointer d
      cases hps : t.properties with
      | none =>
          rw [missingBelow_of_none hps, missingPathsBelow_of_none hps]
          rfl
      | some ps =>
          rw [missingBelow_of_properties hps, missingPathsBelow_of_properties hps]
          refine names_missingFieldsInValue (fun e he => ?_) d pointer
          exact ih e (FieldTree.mem_children_of_properties hps he)

/-- At the root a position goes by its one segment, or by its pointer. -/
theorem nameAt_root {path : List String} (hpath : path ≠ []) :
    (∃ k, path = [k] ∧ nameAt "" path = k) ∨
      2 ≤ path.length ∧ nameAt "" path = pointerOf path := by
  match path, hpath with
  | [k], _ => exact Or.inl ⟨k, rfl, rfl⟩
  | k :: l :: path, _ => exact Or.inr ⟨by simp, rfl⟩

/-- Two positions have one name when one is at the top and called as the other's pointer reads. -/
theorem nameAt_eq_iff {p q : List String} (hp : p ≠ []) (hq : q ≠ []) (hne : p ≠ q) :
    nameAt "" p = nameAt "" q ↔
      p = [pointerOf q] ∧ 2 ≤ q.length ∨ q = [pointerOf p] ∧ 2 ≤ p.length := by
  rcases nameAt_root hp with ⟨k, rfl, hk⟩ | ⟨hlp, hnp⟩ <;>
    rcases nameAt_root hq with ⟨l, rfl, hl⟩ | ⟨hlq, hnq⟩
  · rw [hk, hl]
    refine iff_of_false (fun h => hne (by rw [h])) ?_
    rintro (⟨-, h⟩ | ⟨-, h⟩) <;> exact absurd h (by simp)
  · rw [hk, hnq]
    constructor
    · rintro rfl
      exact Or.inl ⟨rfl, hlq⟩
    · rintro (⟨h, -⟩ | ⟨-, h⟩)
      · exact (List.cons.inj h).1
      · exact absurd h (by simp)
  · rw [hnp, hl]
    constructor
    · intro h
      exact Or.inr ⟨by rw [h], hlp⟩
    · rintro (⟨-, h⟩ | ⟨h, -⟩)
      · exact absurd h (by simp)
      · exact (List.cons.inj h).1.symm
  · rw [hnp, hnq]
    refine iff_of_false (fun h => hne (pointer_injective h)) ?_
    rintro (⟨rfl, -⟩ | ⟨rfl, -⟩)
    · exact absurd hlp (by simp)
    · exact absurd hlq (by simp)

end Names

section Listed

variable (t : EntityTypeDef) (d : Json)

/-- The list of names, position by position. -/
theorem names_eq_map : (missingFieldsInValue d t.trees "").map DriftField.name =
    (missingPathsInValue d t.trees).map (nameAt "") :=
  names_missingFieldsInValue (fun e _ => names_missingBelow e.2) d ""

theorem mem_missingPaths_iff (path : List String) :
    path ∈ missingPathsInValue d t.trees ↔ MissingAt t.trees d path :=
  mem_missingPathsInValue (fun e _ => mem_missingPaths_properties e.2) d path

theorem nodup_missingPaths : (missingPathsInValue d t.trees).Nodup :=
  nodup_missingPathsInValue t.sorted_trees
    (fun e he => nodup_missingPathsBelow e.2 (t.ordered_of_mem he)) d

/-- The names are distinct when no missing field at the top is called as the pointer of a missing
nested one reads. -/
theorem nodup_names_iff :
    ((missingFieldsInValue d t.trees "").map DriftField.name).Nodup ↔
      ∀ path, MissingAt t.trees d path → 2 ≤ path.length →
        ¬MissingAt t.trees d [pointerOf path] := by
  rw [names_eq_map, List.nodup_map_iff_inj_on (nodup_missingPaths t d)]
  simp only [mem_missingPaths_iff]
  constructor
  · intro h path hpath hlength htop
    have hne : [pointerOf path] ≠ path := by
      intro heq
      rw [← heq] at hlength
      exact absurd hlength (by simp)
    refine hne (h _ htop _ hpath ?_)
    exact (nameAt_eq_iff htop.ne_nil hpath.ne_nil hne).mpr (Or.inl ⟨rfl, hlength⟩)
  · intro h p hp q hq hname
    by_contra hne
    rcases (nameAt_eq_iff hp.ne_nil hq.ne_nil hne).mp hname with ⟨rfl, hlength⟩ | ⟨rfl, hlength⟩
    · exact h q hq hlength hp
    · exact h p hp hlength hq

/-- **Missing positions are listed once each**, and two of them share a name only when a field at
the top is called as the pointer of a nested one reads. -/
theorem missing_names :
    (∃ paths : List (List String), paths.Nodup ∧
      (∀ path, path ∈ paths ↔ MissingAt t.trees d path) ∧
      (missingFieldsInValue d t.trees "").map DriftField.name = paths.map (nameAt "")) ∧
    (∀ p q, MissingAt t.trees d p → MissingAt t.trees d q → p ≠ q →
      (nameAt "" p = nameAt "" q ↔
        p = [pointerOf q] ∧ 2 ≤ q.length ∨ q = [pointerOf p] ∧ 2 ≤ p.length)) ∧
    (((missingFieldsInValue d t.trees "").map DriftField.name).Nodup ↔
      ∀ path, MissingAt t.trees d path → 2 ≤ path.length →
        ¬MissingAt t.trees d [pointerOf path]) := by
  refine ⟨⟨missingPathsInValue d t.trees, nodup_missingPaths t d, mem_missingPaths_iff t d,
    names_eq_map t d⟩, ?_, nodup_names_iff t d⟩
  intro p q hp hq hne
  exact nameAt_eq_iff hp.ne_nil hq.ne_nil hne

end Listed

/-- A field of text. -/
def textTree : FieldTree := .mk (FieldAttrs.ofType .string) none none

/-- A field with one text below it. -/
def outerTree : FieldTree := .mk (FieldAttrs.ofType .object) none (some [("b", textTree)])

/-- A type with a field at the top that is called as the nested one is listed. -/
def slashType : EntityTypeDef where
  description := none
  fields := (OrderedMap.empty.insert "a" ⟨outerTree, rfl⟩).insert "/a/b" ⟨textTree, rfl⟩

/-- A definition with only this type. -/
def slashDefinition : MetaSchemaDefinition where
  name := "slashes"
  description := none
  entityTypes := OrderedMap.empty.insert "thing" slashType
  relationTypes := .empty

/-- Names at the top are not escaped. -/
theorem not_names_distinct :
    ¬∀ (env : Dialect) (display : ℚ → String) (definition : MetaSchemaDefinition),
      validateDefinition env display definition = .ok () →
        ∀ name t, definition.entityTypes.get? name = some t → ∀ d,
          ((missingFieldsInValue d t.trees "").map DriftField.name).Nodup := by
  intro h
  have hnodup := h lenientDialect (fun _ => "") slashDefinition (by decide) "thing"
    slashType rfl (.object [("a", .object [])])
  exact absurd hnodup (by decide)

end Yorishiro.Entity
