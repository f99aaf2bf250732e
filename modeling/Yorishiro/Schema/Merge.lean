import Yorishiro.Metaschema.Compatibility

/-!
# Three-way merge of schema definitions

A workspace's schema starts as a copy of a template, and both sides can move
afterwards. `threeWay` compares the template as copied (`base`), the template now
(`upstream`) and the workspace's own definition (`local`) field by field, and
`applyPlan` carries the plan out on `local`, refusing it when a field was changed
on both sides in different ways.

`merge_law` says what the two do together, for every field of every entity type.
`fastForward_iff` says when a workspace that has changed nothing ends up with
upstream's definition: the plan speaks of fields only, so relation types, removed
entity types and new entity types without a field are not carried over. For the same
reason the result needs no validation of its own: no entity type goes, and every field
is as one side had it (`merge_valid`). A merge that has been carried out leaves nothing to do
for the next one until upstream moves again (`merge_again`).
-/

set_option autoImplicit false

namespace Yorishiro.Schema

open Yorishiro.Lib Yorishiro.Lib.JsonSchema Yorishiro.Metaschema

/-! ## Classification -/

/-- What should happen to one field. -/
inductive MergeVerdict where
  | autoAdd
  | autoUpdate
  | keepLocal
  | conflict
deriving DecidableEq, Repr

/-- One field's classification. -/
structure FieldMerge where
  entityType : String
  field : String
  verdict : MergeVerdict
  detail : String
deriving DecidableEq, Repr

/-- `MergeDiffSummary`. -/
structure MergeDiffSummary where
  totalFields : Nat
  autoAdd : Nat
  autoUpdate : Nat
  keepLocal : Nat
  conflict : Nat
  hasConflicts : Bool
deriving DecidableEq, Repr

/-- The classification of every field that is not identical across the three. -/
structure MergePlan where
  fields : List FieldMerge
  summary : MergeDiffSummary
deriving DecidableEq, Repr

/-- `same`: two optional field definitions agree in their serialised form. -/
def same (a b : Option FieldDef) : Bool :=
  match a, b with
  | none, none => true
  | some a, some b => decide (a.val.toJson = b.val.toJson)
  | _, _ => false

/-- `type_name`. -/
def typeName (f : FieldDef) : String := f.val.attrs.type.name

/-- `describe_conflict`. -/
def describeConflict (upstream here : Option FieldDef) : String :=
  match upstream, here with
  | some u, some l =>
      if u.val.attrs.type ≠ l.val.attrs.type then
        "type differs: upstream '" ++ typeName u ++ "', here '" ++ typeName l ++ "'"
      else "both changed, differently"
  | none, some _ => "removed upstream, changed here"
  | some _, none => "changed upstream, removed here"
  | none, none => ""

/-- `classify`: one field's verdict, or nothing when there is nothing to decide. -/
def classify (base upstream here : Option FieldDef) : Option (MergeVerdict × String) :=
  match !same base upstream, !same base here with
  | false, false => none
  | true, false =>
      if base.isNone then some (.autoAdd, "added upstream; absent here")
      else if upstream.isNone then some (.autoUpdate, "removed upstream; unchanged here")
      else some (.autoUpdate, "changed upstream; unchanged here")
  | false, true =>
      if base.isNone then some (.keepLocal, "added here; unknown upstream")
      else some (.keepLocal, "changed here; unchanged upstream")
  | true, true =>
      -- the same change on both sides is no conflict and needs no action
      if same upstream here then none else some (.conflict, describeConflict upstream here)

/-- `summarize`. -/
def summarize (fields : List FieldMerge) : MergeDiffSummary :=
  let conflicts := fields.countP fun f => f.verdict = .conflict
  { totalFields := fields.length
    autoAdd := fields.countP fun f => f.verdict = .autoAdd
    autoUpdate := fields.countP fun f => f.verdict = .autoUpdate
    keepLocal := fields.countP fun f => f.verdict = .keepLocal
    conflict := conflicts
    hasConflicts := decide (0 < conflicts) }

/-- The field `name` of entity type `ty`, when the definition has both. -/
def fieldOf (d : MetaSchemaDefinition) (ty name : String) : Option FieldDef :=
  (d.entityTypes.get? ty).bind fun t => t.fields.get? name

/-- The field names of entity type `ty`. -/
def fieldNames (d : MetaSchemaDefinition) (ty : String) : List String :=
  ((d.entityTypes.get? ty).map fun t => t.fields.keys).getD []

/-- The classified fields of one entity type, in the order of their names. -/
def mergeType (base upstream here : MetaSchemaDefinition) (ty : String) : List FieldMerge :=
  (OrderedMap.unionKeys (fieldNames base ty ++ fieldNames upstream ty ++ fieldNames here ty)).filterMap
    fun name =>
      (classify (fieldOf base ty name) (fieldOf upstream ty name) (fieldOf here ty name)).map
        fun r => ⟨ty, name, r.1, r.2⟩

/-- `three_way`: compares three definitions field by field. -/
def threeWay (base upstream here : MetaSchemaDefinition) : MergePlan :=
  let fields :=
    (OrderedMap.unionKeys (base.entityTypes.keys ++ upstream.entityTypes.keys ++
      here.entityTypes.keys)).flatMap (mergeType base upstream here)
  ⟨fields, summarize fields⟩

/-- `conflicts`. -/
def MergePlan.conflicts (plan : MergePlan) : List FieldMerge :=
  plan.fields.filter fun f => f.verdict = .conflict

/-- `has_conflicts`. -/
def MergePlan.hasConflicts (plan : MergePlan) : Bool :=
  plan.fields.any fun f => f.verdict = .conflict

/-! ## Application -/

/-- The error of a plan with conflicts. -/
def conflictError (plan : MergePlan) : YorishiroError :=
  let fields := plan.conflicts.map fun f => f.entityType ++ "." ++ f.field
  .validationFailed ("the merge has " ++ toString fields.length ++ " unresolved conflict(s)")
    (plan.conflicts.map fun f =>
      { field := "/" ++ f.entityType ++ "/" ++ f.field
        problem := f.detail
        code := .other
        expected := none
        actual := none })
    ("resolve " ++ String.intercalate ", " fields ++ " before applying; a partially applied " ++
      "merge is a definition neither side asked for")

/-- Upstream's field taken over, with its entity type when that is new here. -/
def takeField (upstream merged : MetaSchemaDefinition) (ty name : String) (f : FieldDef) :
    MetaSchemaDefinition :=
  let entry : EntityTypeDef := (merged.entityTypes.get? ty).getD
    -- a type that is new here comes with upstream's description and this one field
    { description := (upstream.entityTypes.get? ty).bind EntityTypeDef.description
      fields := OrderedMap.empty }
  { merged with
    entityTypes := merged.entityTypes.insert ty
      { entry with fields := entry.fields.insert name f } }

/-- A field removed; its entity type stays. -/
def removeField (merged : MetaSchemaDefinition) (ty name : String) : MetaSchemaDefinition :=
  match merged.entityTypes.get? ty with
  | none => merged
  | some t =>
      { merged with
        entityTypes := merged.entityTypes.insert ty { t with fields := t.fields.erase name } }

/-- Carries out one classification. -/
def applyField (upstream merged : MetaSchemaDefinition) (f : FieldMerge) : MetaSchemaDefinition :=
  match f.verdict with
  | .autoAdd | .autoUpdate =>
      match fieldOf upstream f.entityType f.field with
      | some def_ => takeField upstream merged f.entityType f.field def_
      | none => removeField merged f.entityType f.field
  | .keepLocal | .conflict => merged

/-- `apply_plan`: the definition a plan describes. -/
def applyPlan (plan : MergePlan) (upstream here : MetaSchemaDefinition) :
    Except YorishiroError MetaSchemaDefinition :=
  if plan.hasConflicts then .error (conflictError plan)
  else .ok (plan.fields.foldl (applyField upstream) here)

/-! ## What a plan contains -/

/-- Serialised forms agree exactly when the definitions do. -/
theorem same_iff (a b : Option FieldDef) : same a b = true ↔ a = b := by
  cases a with
  | none => cases b <;> simp [same]
  | some a =>
      cases b with
      | none => simp [same]
      | some b =>
          simp only [same, decide_eq_true_eq, FieldTree.toJson_injective.eq_iff, Option.some.injEq]
          exact Subtype.ext_iff.symm

theorem same_self (a : Option FieldDef) : same a a = true := (same_iff a a).mpr rfl

/-- Changed on both sides, in different ways. -/
def ChangedApart (base upstream here : Option FieldDef) : Prop :=
  same base upstream = false ∧ same base here = false ∧ same upstream here = false

theorem ChangedApart.symm {base upstream here : Option FieldDef}
    (h : ChangedApart base upstream here) : ChangedApart base here upstream := by
  obtain ⟨hu, hl, hul⟩ := h
  refine ⟨hl, hu, ?_⟩
  rw [Bool.eq_false_iff, ne_eq, same_iff] at hul ⊢
  exact fun heq => hul heq.symm

theorem classify_none : classify none none none = none := rfl

/-- A conflict is reported exactly for a field changed on both sides in different ways. -/
theorem classify_conflict_iff (base upstream here : Option FieldDef) :
    (∃ detail, classify base upstream here = some (.conflict, detail)) ↔
      ChangedApart base upstream here := by
  unfold classify ChangedApart
  -- the four cases of `classify`, in its own order
  cases hu : same base upstream <;> cases hl : same base here <;> simp only [Bool.not_true,
    Bool.not_false]
  · cases hul : same upstream here <;> simp
  · split_ifs <;> simp
  · split_ifs <;> simp
  · simp

/-- The verdicts that take upstream's side. -/
def MergeVerdict.takesUpstream : MergeVerdict → Bool
  | .autoAdd | .autoUpdate => true
  | .keepLocal | .conflict => false

/-- Upstream's side is taken exactly for a field that only upstream changed. -/
theorem classify_takesUpstream_iff (base upstream here : Option FieldDef) :
    (∃ verdict detail, classify base upstream here = some (verdict, detail) ∧
      verdict.takesUpstream = true) ↔ same base upstream = false ∧ same base here = true := by
  unfold classify
  cases hu : same base upstream <;> cases hl : same base here <;> simp only [Bool.not_true,
    Bool.not_false]
  · split_ifs <;> simp [MergeVerdict.takesUpstream]
  · split_ifs <;> simp [MergeVerdict.takesUpstream]
  · split_ifs <;> simp [MergeVerdict.takesUpstream]
  · simp

theorem mem_fieldNames {d : MetaSchemaDefinition} {ty name : String} :
    name ∈ fieldNames d ty ↔ (fieldOf d ty name).isSome := by
  unfold fieldNames fieldOf
  cases h : d.entityTypes.get? ty with
  | none => simp
  | some t => simp [OrderedMap.mem_keys_iff]

theorem mem_entityTypes_of_fieldOf {d : MetaSchemaDefinition} {ty name : String}
    (h : (fieldOf d ty name).isSome) : ty ∈ d.entityTypes.keys := by
  rw [OrderedMap.mem_keys_iff]
  unfold fieldOf at h
  cases ht : d.entityTypes.get? ty with
  | none => simp [ht] at h
  | some t => rfl

/-- **The plan lists every classified field once classified.** Fields that no side has
are classified as nothing, so the traversal over the names of the three misses none. -/
theorem mem_threeWay {base upstream here : MetaSchemaDefinition} {f : FieldMerge} :
    f ∈ (threeWay base upstream here).fields ↔
      classify (fieldOf base f.entityType f.field) (fieldOf upstream f.entityType f.field)
        (fieldOf here f.entityType f.field) = some (f.verdict, f.detail) := by
  simp only [threeWay, mergeType, List.mem_flatMap, List.mem_filterMap, OrderedMap.mem_unionKeys,
    List.mem_append]
  constructor
  · rintro ⟨ty, -, name, -, hf⟩
    obtain ⟨⟨verdict, detail⟩, hc, rfl⟩ := Option.map_eq_some_iff.mp hf
    exact hc
  · intro hc
    -- a field that nobody has is classified as nothing, so one of the three has it
    have hsome : (fieldOf base f.entityType f.field).isSome ∨
        (fieldOf upstream f.entityType f.field).isSome ∨
        (fieldOf here f.entityType f.field).isSome := by
      by_contra hnone
      push Not at hnone
      obtain ⟨hb, hu, hl⟩ := hnone
      simp only [ne_eq, Bool.not_eq_true, Option.isSome_eq_false_iff, Option.isNone_iff_eq_none]
        at hb hu hl
      rw [hb, hu, hl, classify_none] at hc
      cases hc
    refine ⟨f.entityType, ?_, f.field, ?_, ?_⟩
    · rcases hsome with h | h | h
      · exact Or.inl (Or.inl (mem_entityTypes_of_fieldOf h))
      · exact Or.inl (Or.inr (mem_entityTypes_of_fieldOf h))
      · exact Or.inr (mem_entityTypes_of_fieldOf h)
    · rw [mem_fieldNames, mem_fieldNames, mem_fieldNames]
      tauto
    · rw [hc]
      rfl

theorem hasConflicts_iff {base upstream here : MetaSchemaDefinition} :
    (threeWay base upstream here).hasConflicts = true ↔
      ∃ ty name, ChangedApart (fieldOf base ty name) (fieldOf upstream ty name)
        (fieldOf here ty name) := by
  unfold MergePlan.hasConflicts
  rw [List.any_eq_true]
  constructor
  · rintro ⟨f, hf, hv⟩
    have hc := mem_threeWay.mp hf
    rw [of_decide_eq_true hv] at hc
    exact ⟨f.entityType, f.field, (classify_conflict_iff _ _ _).mp ⟨f.detail, hc⟩⟩
  · rintro ⟨ty, name, h⟩
    obtain ⟨detail, hc⟩ := (classify_conflict_iff _ _ _).mpr h
    exact ⟨⟨ty, name, .conflict, detail⟩, mem_threeWay.mpr hc, by simp⟩

theorem mem_conflicts_iff {base upstream here : MetaSchemaDefinition} {ty name : String} :
    (∃ f ∈ (threeWay base upstream here).conflicts, f.entityType = ty ∧ f.field = name) ↔
      ChangedApart (fieldOf base ty name) (fieldOf upstream ty name) (fieldOf here ty name) := by
  rw [← classify_conflict_iff]
  constructor
  · rintro ⟨f, hf, rfl, rfl⟩
    obtain ⟨hmem, hv⟩ := List.mem_filter.mp hf
    have hc := mem_threeWay.mp hmem
    rw [of_decide_eq_true hv] at hc
    exact ⟨f.detail, hc⟩
  · rintro ⟨detail, hc⟩
    refine ⟨⟨ty, name, .conflict, detail⟩, List.mem_filter.mpr ⟨?_, by simp⟩, rfl, rfl⟩
    exact mem_threeWay.mpr hc

/-! ## What applying a plan does -/

theorem fieldOf_takeField (upstream merged : MetaSchemaDefinition) (ty name : String) (f : FieldDef)
    (ty' name' : String) :
    fieldOf (takeField upstream merged ty name f) ty' name' =
      if ty' = ty ∧ name' = name then some f else fieldOf merged ty' name' := by
  unfold fieldOf takeField
  simp only [OrderedMap.get?_insert]
  by_cases hty : ty' = ty
  · subst hty
    cases ht : merged.entityTypes.get? ty' with
    | none => by_cases hname : name' = name <;> simp [hname]
    | some t => by_cases hname : name' = name <;> simp [hname]
  · simp [hty]

theorem fieldOf_removeField (merged : MetaSchemaDefinition) (ty name ty' name' : String) :
    fieldOf (removeField merged ty name) ty' name' =
      if ty' = ty ∧ name' = name then none else fieldOf merged ty' name' := by
  unfold removeField
  cases ht : merged.entityTypes.get? ty with
  | none =>
      by_cases hty : ty' = ty
      · subst hty
        simp [fieldOf, ht]
      · simp [hty]
  | some t =>
      unfold fieldOf
      simp only [OrderedMap.get?_insert]
      by_cases hty : ty' = ty
      · subst hty
        by_cases hname : name' = name <;> simp [ht, hname]
      · simp [hty]

/-- One classification changes one field, to upstream's, or nothing. -/
theorem fieldOf_applyField (upstream merged : MetaSchemaDefinition) (f : FieldMerge)
    (ty name : String) :
    fieldOf (applyField upstream merged f) ty name =
      if f.verdict.takesUpstream = true ∧ ty = f.entityType ∧ name = f.field then
        fieldOf upstream ty name
      else fieldOf merged ty name := by
  -- the two verdicts that take upstream's side share one match
  have htake : fieldOf (match fieldOf upstream f.entityType f.field with
        | some def_ => takeField upstream merged f.entityType f.field def_
        | none => removeField merged f.entityType f.field) ty name =
      if ty = f.entityType ∧ name = f.field then fieldOf upstream ty name
      else fieldOf merged ty name := by
    cases hu : fieldOf upstream f.entityType f.field with
    | none =>
        simp only [fieldOf_removeField]
        split_ifs with h
        · rw [h.1, h.2, hu]
        · rfl
    | some def_ =>
        simp only [fieldOf_takeField]
        split_ifs with h
        · rw [h.1, h.2, hu]
        · rfl
  unfold applyField
  cases hv : f.verdict with
  | autoAdd => simpa [MergeVerdict.takesUpstream] using htake
  | autoUpdate => simpa [MergeVerdict.takesUpstream] using htake
  | keepLocal => simp [MergeVerdict.takesUpstream]
  | conflict => simp [MergeVerdict.takesUpstream]

/-- Carrying out a list of classifications, field by field. -/
theorem fieldOf_applyFields (upstream : MetaSchemaDefinition) (fields : List FieldMerge)
    (merged : MetaSchemaDefinition) (ty name : String) :
    fieldOf (fields.foldl (applyField upstream) merged) ty name =
      if (fields.any fun f => f.verdict.takesUpstream && decide (ty = f.entityType) &&
        decide (name = f.field)) then fieldOf upstream ty name
      else fieldOf merged ty name := by
  induction fields generalizing merged with
  | nil => rfl
  | cons f fields ih =>
      rw [List.foldl_cons, ih, fieldOf_applyField, List.any_cons]
      -- a field listed again is set to upstream's value again
      by_cases hrest : (fields.any fun f => f.verdict.takesUpstream && decide (ty = f.entityType) &&
        decide (name = f.field)) = true
      · simp [hrest]
      · rw [Bool.not_eq_true] at hrest
        by_cases hf : f.verdict.takesUpstream = true ∧ ty = f.entityType ∧ name = f.field
        · simp [hf]
        · have hf' : (f.verdict.takesUpstream && decide (ty = f.entityType) &&
              decide (name = f.field)) = false := by
            rw [Bool.eq_false_iff]
            intro htrue
            apply hf
            simpa [and_assoc] using htrue
          simp [hrest, hf, hf']

theorem relationTypes_applyFields (upstream : MetaSchemaDefinition) (fields : List FieldMerge)
    (merged : MetaSchemaDefinition) :
    (fields.foldl (applyField upstream) merged).relationTypes = merged.relationTypes := by
  induction fields generalizing merged with
  | nil => rfl
  | cons f fields ih =>
      rw [List.foldl_cons, ih]
      unfold applyField
      split
      · split
        · rfl
        · unfold removeField
          split <;> rfl
      · split
        · rfl
        · unfold removeField
          split <;> rfl
      · rfl
      · rfl

theorem relationTypes_applyPlan {plan : MergePlan} {upstream here merged : MetaSchemaDefinition}
    (h : applyPlan plan upstream here = .ok merged) :
    merged.relationTypes = here.relationTypes := by
  unfold applyPlan at h
  split_ifs at h
  cases h
  exact relationTypes_applyFields upstream plan.fields here

/-- The field-wise result of the merge: upstream's field where only upstream moved. -/
theorem fieldOf_merged (base upstream here : MetaSchemaDefinition) (ty name : String) :
    fieldOf ((threeWay base upstream here).fields.foldl (applyField upstream) here) ty name =
      if same (fieldOf base ty name) (fieldOf upstream ty name) = false ∧
          same (fieldOf base ty name) (fieldOf here ty name) = true then fieldOf upstream ty name
      else fieldOf here ty name := by
  rw [fieldOf_applyFields]
  congr 1
  rw [eq_iff_iff, List.any_eq_true, ← classify_takesUpstream_iff]
  constructor
  · rintro ⟨f, hf, h⟩
    simp only [Bool.and_eq_true, decide_eq_true_eq] at h
    obtain ⟨⟨hv, rfl⟩, rfl⟩ := h
    exact ⟨f.verdict, f.detail, mem_threeWay.mp hf, hv⟩
  · rintro ⟨verdict, detail, hc, hv⟩
    exact ⟨⟨ty, name, verdict, detail⟩, mem_threeWay.mpr hc, by simp [hv]⟩

/-! ## The merge law -/

/-- **Three-way merge law.** The merge is refused exactly when some field was changed on
both sides in different ways; otherwise every field of the result is upstream's where the
workspace kept the base's field, and the workspace's own where it did not. Which fields
conflict does not depend on which side is called upstream. -/
theorem merge_law (base upstream here : MetaSchemaDefinition) :
    ((∃ e, applyPlan (threeWay base upstream here) upstream here = .error e) ↔
      ∃ ty name, ChangedApart (fieldOf base ty name) (fieldOf upstream ty name)
        (fieldOf here ty name)) ∧
    ((¬ ∃ ty name, ChangedApart (fieldOf base ty name) (fieldOf upstream ty name)
        (fieldOf here ty name)) →
      ∃ merged, applyPlan (threeWay base upstream here) upstream here = .ok merged ∧
        ∀ ty name, fieldOf merged ty name =
          if same (fieldOf base ty name) (fieldOf here ty name) then fieldOf upstream ty name
          else fieldOf here ty name) ∧
    (∀ ty name,
      (∃ f ∈ (threeWay base upstream here).conflicts, f.entityType = ty ∧ f.field = name) ↔
        ∃ f ∈ (threeWay base here upstream).conflicts, f.entityType = ty ∧ f.field = name) := by
  refine ⟨?_, ?_, ?_⟩
  · rw [← hasConflicts_iff]
    unfold applyPlan
    split_ifs with h
    · simp [h]
    · simp [h]
  · intro hnone
    rw [← hasConflicts_iff] at hnone
    refine ⟨_, if_neg hnone, ?_⟩
    intro ty name
    rw [fieldOf_merged]
    cases hl : same (fieldOf base ty name) (fieldOf here ty name) with
    | false => simp
    | true =>
        cases hu : same (fieldOf base ty name) (fieldOf upstream ty name) with
        | false => simp
        | true =>
            -- nobody moved, so upstream's field and the workspace's are the same one
            have hsame : fieldOf here ty name = fieldOf upstream ty name :=
              ((same_iff _ _).mp hl).symm.trans ((same_iff _ _).mp hu)
            simp [hsame]
  · intro ty name
    rw [mem_conflicts_iff, mem_conflicts_iff]
    exact ⟨ChangedApart.symm, ChangedApart.symm⟩

/-! ## Fast-forward -/

/-- Following upstream without local changes: no conflict, and a definition with
upstream's entity types, fields and relation types. -/
def FastForwards (base upstream : MetaSchemaDefinition) : Prop :=
  (threeWay base upstream base).hasConflicts = false ∧
  ∃ merged, applyPlan (threeWay base upstream base) upstream base = .ok merged ∧
    (∀ ty, ty ∈ merged.entityTypes.keys ↔ ty ∈ upstream.entityTypes.keys) ∧
    (∀ ty name, fieldOf merged ty name = fieldOf upstream ty name) ∧
    merged.relationTypes = upstream.relationTypes

theorem entityTypes_takeField (upstream merged : MetaSchemaDefinition) (ty name : String)
    (f : FieldDef) (ty' : String) :
    ((takeField upstream merged ty name f).entityTypes.get? ty').isSome ↔
      (merged.entityTypes.get? ty').isSome ∨ ty' = ty := by
  simp only [takeField, OrderedMap.get?_insert]
  by_cases hty : ty' = ty
  · simp [hty]
  · simp [hty]

theorem entityTypes_removeField (merged : MetaSchemaDefinition) (ty name ty' : String) :
    ((removeField merged ty name).entityTypes.get? ty').isSome ↔
      (merged.entityTypes.get? ty').isSome := by
  unfold removeField
  cases ht : merged.entityTypes.get? ty with
  | none => rfl
  | some t =>
      simp only [OrderedMap.get?_insert]
      by_cases hty : ty' = ty
      · simp [hty, ht]
      · simp [hty]

/-- A classification adds at most its own entity type, and only with a field of it. -/
theorem entityTypes_applyField (upstream merged : MetaSchemaDefinition) (f : FieldMerge)
    (ty : String) :
    ((applyField upstream merged f).entityTypes.get? ty).isSome ↔
      (merged.entityTypes.get? ty).isSome ∨
        (f.verdict.takesUpstream = true ∧ ty = f.entityType ∧
          (fieldOf upstream f.entityType f.field).isSome) := by
  have htake : ((match fieldOf upstream f.entityType f.field with
        | some def_ => takeField upstream merged f.entityType f.field def_
        | none => removeField merged f.entityType f.field).entityTypes.get? ty).isSome ↔
      (merged.entityTypes.get? ty).isSome ∨
        (ty = f.entityType ∧ (fieldOf upstream f.entityType f.field).isSome) := by
    cases hu : fieldOf upstream f.entityType f.field with
    | none => simp [entityTypes_removeField]
    | some def_ => simp [entityTypes_takeField]
  unfold applyField
  cases hv : f.verdict with
  | autoAdd => simpa [MergeVerdict.takesUpstream] using htake
  | autoUpdate => simpa [MergeVerdict.takesUpstream] using htake
  | keepLocal => simp [MergeVerdict.takesUpstream]
  | conflict => simp [MergeVerdict.takesUpstream]

theorem entityTypes_applyFields (upstream : MetaSchemaDefinition) (fields : List FieldMerge)
    (merged : MetaSchemaDefinition) (ty : String) :
    ((fields.foldl (applyField upstream) merged).entityTypes.get? ty).isSome ↔
      (merged.entityTypes.get? ty).isSome ∨
        ∃ f ∈ fields, f.verdict.takesUpstream = true ∧ ty = f.entityType ∧
          (fieldOf upstream f.entityType f.field).isSome := by
  induction fields generalizing merged with
  | nil => simp
  | cons f fields ih =>
      rw [List.foldl_cons, ih, entityTypes_applyField, or_assoc]
      simp [List.mem_cons, or_and_right, exists_or]

/-- Without local changes the types of the result are the base's and the upstream types
that bring a new or changed field. -/
theorem entityTypes_merged (base upstream : MetaSchemaDefinition) (ty : String) :
    ((((threeWay base upstream base).fields.foldl (applyField upstream) base).entityTypes.get?
        ty).isSome) ↔
      (base.entityTypes.get? ty).isSome ∨
        ∃ name, (fieldOf upstream ty name).isSome ∧ fieldOf base ty name ≠ fieldOf upstream ty name := by
  rw [entityTypes_applyFields]
  apply or_congr_right
  constructor
  · rintro ⟨f, hf, hv, rfl, hsome⟩
    have hmoved := (classify_takesUpstream_iff _ _ _).mp ⟨_, _, mem_threeWay.mp hf, hv⟩
    refine ⟨f.field, hsome, ?_⟩
    intro heq
    rw [(same_iff _ _).mpr heq] at hmoved
    exact Bool.noConfusion hmoved.1
  · rintro ⟨name, hsome, hne⟩
    have hmoved : same (fieldOf base ty name) (fieldOf upstream ty name) = false := by
      rw [Bool.eq_false_iff, ne_eq, same_iff]
      exact hne
    obtain ⟨verdict, detail, hc, hv⟩ :=
      (classify_takesUpstream_iff _ _ (fieldOf base ty name)).mpr ⟨hmoved, same_self _⟩
    exact ⟨⟨ty, name, verdict, detail⟩, mem_threeWay.mpr hc, hv, rfl, hsome⟩

/-- Without local changes there is nothing to disagree about. -/
theorem hasConflicts_unchanged (base upstream : MetaSchemaDefinition) :
    (threeWay base upstream base).hasConflicts = false := by
  rw [Bool.eq_false_iff, ne_eq, hasConflicts_iff]
  rintro ⟨ty, name, -, hl, -⟩
  rw [same_self] at hl
  cases hl

theorem applyPlan_unchanged (base upstream : MetaSchemaDefinition) :
    applyPlan (threeWay base upstream base) upstream base =
      .ok ((threeWay base upstream base).fields.foldl (applyField upstream) base) := by
  simp [applyPlan, hasConflicts_unchanged]

/-- Without local changes the fields of the result are upstream's. -/
theorem fieldOf_unchanged (base upstream : MetaSchemaDefinition) (ty name : String) :
    fieldOf ((threeWay base upstream base).fields.foldl (applyField upstream) base) ty name =
      fieldOf upstream ty name := by
  rw [fieldOf_merged]
  cases hu : same (fieldOf base ty name) (fieldOf upstream ty name) with
  | false => simp [same_self]
  | true => simp [(same_iff _ _).mp hu]

theorem fieldOf_of_absent {d : MetaSchemaDefinition} {ty : String}
    (h : ty ∉ d.entityTypes.keys) (name : String) : fieldOf d ty name = none := by
  by_contra hsome
  exact h (mem_entityTypes_of_fieldOf (Option.isSome_iff_ne_none.mpr hsome))

/-- **Fast-forward.** A workspace without local changes gets upstream's definition exactly
when upstream has the base's relation types, has kept every entity type of the base, and
has given each new entity type a field. -/
theorem fastForward_iff (base upstream : MetaSchemaDefinition) :
    FastForwards base upstream ↔
      base.relationTypes = upstream.relationTypes ∧
      (∀ ty ∈ base.entityTypes.keys, ty ∈ upstream.entityTypes.keys) ∧
      (∀ ty ∈ upstream.entityTypes.keys, ty ∉ base.entityTypes.keys →
        ∃ name, (fieldOf upstream ty name).isSome) := by
  constructor
  · rintro ⟨-, merged, hok, htypes, -, hrel⟩
    rw [applyPlan_unchanged] at hok
    cases hok
    rw [relationTypes_applyFields] at hrel
    -- equal entity types say which types upstream kept and what its new ones bring
    simp only [OrderedMap.mem_keys_iff, entityTypes_merged] at htypes ⊢
    refine ⟨hrel, fun ty hty => (htypes ty).mp (Or.inl hty), ?_⟩
    intro ty hty hnew
    rcases (htypes ty).mpr hty with hbase | ⟨name, hsome, -⟩
    · exact absurd hbase hnew
    · exact ⟨name, hsome⟩
  · rintro ⟨hrel, hkept, hnew⟩
    refine ⟨hasConflicts_unchanged base upstream, _, applyPlan_unchanged base upstream, ?_,
      fieldOf_unchanged base upstream, ?_⟩
    · intro ty
      rw [OrderedMap.mem_keys_iff, entityTypes_merged, ← OrderedMap.mem_keys_iff]
      constructor
      · rintro (hbase | ⟨name, hsome, -⟩)
        · exact hkept ty hbase
        · exact mem_entityTypes_of_fieldOf hsome
      · intro hty
        by_cases hbase : ty ∈ base.entityTypes.keys
        · exact Or.inl hbase
        -- a new type arrives with its first field, which the base cannot have had
        · obtain ⟨name, hsome⟩ := hnew ty hty hbase
          refine Or.inr ⟨name, hsome, ?_⟩
          rw [fieldOf_of_absent hbase]
          intro heq
          rw [← heq] at hsome
          cases hsome
    · rw [relationTypes_applyFields]
      exact hrel

/-- A text field. -/
def textField : FieldDef := ⟨.mk (.ofType .string) none none, by decide⟩

/-- A template with one entity type. -/
def noteTemplate : MetaSchemaDefinition where
  name := "notes"
  description := none
  entityTypes := OrderedMap.ofList [("note", ⟨none, OrderedMap.ofList [("title", textField)]⟩)]
  relationTypes := OrderedMap.empty

/-- The template after its publisher added a relation type. -/
def linkedTemplate : MetaSchemaDefinition :=
  { noteTemplate with
    relationTypes := OrderedMap.ofList [("links", ⟨"note", "note", none⟩)] }

/-- The added relation type is not carried over to a workspace that changed nothing. -/
theorem not_fastForwards_linkedTemplate : ¬ FastForwards noteTemplate linkedTemplate := by
  rintro ⟨-, merged, hok, -, -, hrel⟩
  -- a plan has no entry for relation types, so they stay as the workspace has them
  rw [relationTypes_applyPlan hok] at hrel
  revert hrel
  decide

/-! ## Merging again -/

/-- The detail of a field that only the workspace has changed. -/
def keptDetail (upstream : Option FieldDef) : String :=
  if upstream.isNone then "added here; unknown upstream" else "changed here; unchanged upstream"

/-- With upstream as the base, all there is to say about a field is that the workspace's
own differs. -/
theorem classify_base_upstream (upstream here : Option FieldDef) :
    classify upstream upstream here =
      if same upstream here then none else some (.keepLocal, keptDetail upstream) := by
  unfold classify
  rw [same_self]
  cases hl : same upstream here with
  | true => rfl
  | false => cases upstream <;> rfl

theorem mem_threeWay_again {upstream here : MetaSchemaDefinition} {f : FieldMerge} :
    f ∈ (threeWay upstream upstream here).fields ↔
      fieldOf here f.entityType f.field ≠ fieldOf upstream f.entityType f.field ∧
        f.verdict = .keepLocal ∧ f.detail = keptDetail (fieldOf upstream f.entityType f.field) := by
  rw [mem_threeWay, classify_base_upstream]
  split_ifs with hsame
  · have heq := (same_iff _ _).mp hsame
    simp [heq]
  · have hne : fieldOf here f.entityType f.field ≠ fieldOf upstream f.entityType f.field := by
      intro heq
      exact hsame ((same_iff _ _).mpr heq.symm)
    simp [hne, eq_comm]

/-- Entries that keep the workspace's field change nothing. -/
theorem applyFields_keepLocal (upstream : MetaSchemaDefinition) (fields : List FieldMerge)
    (merged : MetaSchemaDefinition) (h : ∀ f ∈ fields, f.verdict = .keepLocal) :
    fields.foldl (applyField upstream) merged = merged := by
  induction fields generalizing merged with
  | nil => rfl
  | cons f fields ih =>
      have hf : applyField upstream merged f = merged := by
        unfold applyField
        rw [h f List.mem_cons_self]
      rw [List.foldl_cons, hf]
      exact ih merged fun g hg => h g (List.mem_cons_of_mem f hg)

/-- A plan that keeps every field of the workspace is carried out by leaving it alone. -/
theorem applyPlan_keepLocal {plan : MergePlan} (h : ∀ f ∈ plan.fields, f.verdict = .keepLocal)
    (upstream here : MetaSchemaDefinition) : applyPlan plan upstream here = .ok here := by
  have hconflicts : plan.hasConflicts = false := by
    rw [Bool.eq_false_iff, ne_eq, MergePlan.hasConflicts, List.any_eq_true]
    rintro ⟨f, hf, hv⟩
    rw [h f hf] at hv
    cases hv
  rw [applyPlan, hconflicts, applyFields_keepLocal upstream plan.fields here h]
  rfl

/-- After a merge the workspace differs from upstream where the plan kept its own field. -/
theorem differs_merged_iff {base upstream here : MetaSchemaDefinition} {ty name : String}
    (hapart : ¬ChangedApart (fieldOf base ty name) (fieldOf upstream ty name)
      (fieldOf here ty name)) :
    fieldOf ((threeWay base upstream here).fields.foldl (applyField upstream) here) ty name ≠
        fieldOf upstream ty name ↔
      same (fieldOf base ty name) (fieldOf upstream ty name) = true ∧
        same (fieldOf base ty name) (fieldOf here ty name) = false := by
  rw [fieldOf_merged]
  cases hu : same (fieldOf base ty name) (fieldOf upstream ty name) with
  | true =>
      rw [← (same_iff _ _).mp hu]
      simp only [Bool.true_eq_false, false_and, if_false, true_and]
      rw [Bool.eq_false_iff, ne_eq, ne_eq, same_iff]
      exact ⟨fun hne heq => hne heq.symm, fun hne heq => hne heq.symm⟩
  | false =>
      cases hl : same (fieldOf base ty name) (fieldOf here ty name) with
      | true => simp
      | false =>
          -- both sides moved, and not apart: they agree
          have hul : same (fieldOf upstream ty name) (fieldOf here ty name) = true := by
            by_contra hul
            exact hapart ⟨hu, hl, by simpa using hul⟩
          simp [(same_iff _ _).mp hul]

/-- The plan keeps the workspace's own field exactly where only the workspace moved. -/
theorem classify_keepLocal_iff {base upstream here : Option FieldDef} {detail : String} :
    classify base upstream here = some (.keepLocal, detail) ↔
      (same base upstream = true ∧ same base here = false) ∧ detail = keptDetail upstream := by
  unfold classify
  cases hu : same base upstream with
  | true =>
      obtain rfl := (same_iff _ _).mp hu
      cases hl : same base here with
      | true => simp
      | false => cases base <;> simp [keptDetail, eq_comm]
  | false =>
      cases hl : same base here with
      | true =>
          simp only [Bool.not_false, Bool.not_true]
          split_ifs <;> simp
      | false =>
          simp only [Bool.not_false]
          split_ifs <;> simp

/-- **Merging again is a no-op.** With upstream as the new base, a plan for the merged
definition keeps fields of the workspace only, and leaves it as it is. The fields it lists are
those in which the merged definition differs from upstream, and are the ones that the plan of
the merge has kept. -/
theorem merge_again (base upstream here merged : MetaSchemaDefinition)
    (h : applyPlan (threeWay base upstream here) upstream here = .ok merged) :
    (∀ f ∈ (threeWay upstream upstream merged).fields, f.verdict = .keepLocal) ∧
    applyPlan (threeWay upstream upstream merged) upstream merged = .ok merged ∧
    (∀ ty name,
      (∃ f ∈ (threeWay upstream upstream merged).fields, f.entityType = ty ∧ f.field = name) ↔
        fieldOf merged ty name ≠ fieldOf upstream ty name) ∧
    (∀ f, f ∈ (threeWay upstream upstream merged).fields ↔
      f ∈ (threeWay base upstream here).fields ∧ f.verdict = .keepLocal) := by
  have hkeeps : ∀ f ∈ (threeWay upstream upstream merged).fields, f.verdict = .keepLocal :=
    fun f hf => (mem_threeWay_again.mp hf).2.1
  refine ⟨hkeeps, applyPlan_keepLocal hkeeps upstream merged, fun ty name => ?_, fun f => ?_⟩
  · constructor
    · rintro ⟨f, hf, rfl, rfl⟩
      exact (mem_threeWay_again.mp hf).1
    · intro hne
      exact ⟨⟨ty, name, .keepLocal, keptDetail (fieldOf upstream ty name)⟩,
        mem_threeWay_again.mpr ⟨hne, rfl, rfl⟩, rfl, rfl⟩
  · unfold applyPlan at h
    split_ifs at h with hconflicts
    cases h
    have hapart : ¬ChangedApart (fieldOf base f.entityType f.field)
        (fieldOf upstream f.entityType f.field) (fieldOf here f.entityType f.field) :=
      fun happart => hconflicts (hasConflicts_iff.mpr ⟨_, _, happart⟩)
    rw [mem_threeWay_again, mem_threeWay, differs_merged_iff hapart]
    constructor
    · rintro ⟨hmoved, hverdict, hdetail⟩
      refine ⟨?_, hverdict⟩
      rw [hverdict]
      exact classify_keepLocal_iff.mpr ⟨hmoved, hdetail⟩
    · rintro ⟨hclassified, hverdict⟩
      rw [hverdict] at hclassified
      obtain ⟨hmoved, hdetail⟩ := classify_keepLocal_iff.mp hclassified
      exact ⟨hmoved, hverdict, hdetail⟩

/-- The publisher adds a body to the notes; the workspace has dropped their tags and changed the
title. The next merge has nothing to do. -/
theorem merge_again_noteTemplate :
    ∃ merged, applyPlan (threeWay (noteVersion 10 false) (noteVersion 10 true) noteTemplate)
        (noteVersion 10 true) noteTemplate = .ok merged ∧
      applyPlan (threeWay (noteVersion 10 true) (noteVersion 10 true) merged)
        (noteVersion 10 true) merged = .ok merged :=
  ⟨_, rfl, (merge_again (noteVersion 10 false) (noteVersion 10 true) noteTemplate _ rfl).2.1⟩

/-! ## Validity -/

section Validity

variable {env : Dialect} {display : ℚ → String}

/-- What `validate_definition` asks of a definition. -/
structure Valid (env : Dialect) (display : ℚ → String) (d : MetaSchemaDefinition) : Prop where
  named : isBlank d.name = false
  typed : ∃ ty, (d.entityTypes.get? ty).isSome
  fields : ∀ ty name f, fieldOf d ty name = some f →
    validateField env display ("/entity_types/" ++ escapePointerSegment ty ++ "/fields/" ++
      escapePointerSegment name) 1 f.val = []
  relations : ∀ name relation, d.relationTypes.get? name = some relation →
    (d.entityTypes.get? relation.source).isSome ∧ (d.entityTypes.get? relation.target).isSome

theorem entries_isEmpty_iff {α : Type} (m : OrderedMap String α) :
    m.entries.isEmpty = false ↔ ∃ k, (m.get? k).isSome := by
  constructor
  · intro h
    have hne : m.entries ≠ [] := by
      intro hnil
      rw [hnil] at h
      cases h
    obtain ⟨⟨k, x⟩, hmem⟩ := List.exists_mem_of_ne_nil m.entries hne
    exact ⟨k, by rw [(m.mem_entries_iff k x).mp hmem]; rfl⟩
  · rintro ⟨k, hk⟩
    obtain ⟨x, hx⟩ := Option.isSome_iff_exists.mp hk
    rw [Bool.eq_false_iff]
    intro hempty
    have hmem := (m.mem_entries_iff k x).mpr hx
    rw [List.isEmpty_iff.mp hempty] at hmem
    cases hmem

theorem validateRelation_eq_nil {d : MetaSchemaDefinition} {name : String}
    {relation : RelationTypeDef} : validateRelation d name relation = [] ↔
      (d.entityTypes.get? relation.source).isSome ∧
        (d.entityTypes.get? relation.target).isSome := by
  unfold validateRelation
  rw [List.append_eq_nil_iff, detailIf_eq_nil, detailIf_eq_nil, Option.isNone_eq_false_iff,
    Option.isNone_eq_false_iff]

/-- The fields of all types, each under its own path. -/
theorem validateTypes_eq_nil {d : MetaSchemaDefinition} :
    (d.entityTypes.entries.flatMap fun e => validateFields env display
      ("/entity_types/" ++ escapePointerSegment e.1 ++ "/fields/") 1 e.2.trees) = [] ↔
      ∀ ty name f, fieldOf d ty name = some f →
        validateField env display ("/entity_types/" ++ escapePointerSegment ty ++ "/fields/" ++
          escapePointerSegment name) 1 f.val = [] := by
  rw [List.flatMap_eq_nil_iff]
  constructor
  · intro h ty name f hf
    obtain ⟨t, ht, hname⟩ := Option.bind_eq_some_iff.mp hf
    have htype := h (ty, t) ((d.entityTypes.mem_entries_iff ty t).mpr ht)
    exact (validateFields_eq_nil_iff _ _ _).mp htype (name, f.val)
      (List.mem_map.mpr ⟨(name, f), (t.fields.mem_entries_iff name f).mpr hname, rfl⟩)
  · rintro h ⟨ty, t⟩ hmem
    refine (validateFields_eq_nil_iff _ _ _).mpr fun e he => ?_
    obtain ⟨⟨name, f⟩, hf, rfl⟩ := List.mem_map.mp he
    refine h ty name f (Option.bind_eq_some_iff.mpr ⟨t, ?_, ?_⟩)
    · exact (d.entityTypes.mem_entries_iff ty t).mp hmem
    · exact (t.fields.mem_entries_iff name f).mp hf

/-- **`validate_definition` accepts exactly the valid definitions.** -/
theorem validateDefinition_eq_ok_iff (d : MetaSchemaDefinition) :
    validateDefinition env display d = .ok () ↔ Valid env display d := by
  have hdetails : validateDefinition env display d = .ok () ↔
      definitionDetails env display d = [] := by
    rw [validateDefinition, ← List.isEmpty_iff]
    split_ifs with hempty
    · exact iff_of_true rfl hempty
    · exact iff_of_false (by simp) hempty
  have hrelations : (d.relationTypes.entries.flatMap fun e => validateRelation d e.1 e.2) = [] ↔
      ∀ name relation, d.relationTypes.get? name = some relation →
        (d.entityTypes.get? relation.source).isSome ∧
          (d.entityTypes.get? relation.target).isSome := by
    simp only [List.flatMap_eq_nil_iff, Prod.forall, validateRelation_eq_nil,
      OrderedMap.mem_entries_iff]
  rw [hdetails, definitionDetails, List.append_eq_nil_iff, List.append_eq_nil_iff,
    List.append_eq_nil_iff, detailIf_eq_nil, detailIf_eq_nil, entries_isEmpty_iff,
    validateTypes_eq_nil, hrelations]
  constructor
  · rintro ⟨⟨⟨hname, htyped⟩, hfields⟩, hrel⟩
    exact ⟨hname, htyped, hfields, hrel⟩
  · rintro ⟨hname, htyped, hfields, hrel⟩
    exact ⟨⟨⟨hname, htyped⟩, hfields⟩, hrel⟩

theorem name_applyFields (upstream : MetaSchemaDefinition) (fields : List FieldMerge)
    (merged : MetaSchemaDefinition) :
    (fields.foldl (applyField upstream) merged).name = merged.name := by
  induction fields generalizing merged with
  | nil => rfl
  | cons f fields ih =>
      rw [List.foldl_cons, ih]
      have hremove : (removeField merged f.entityType f.field).name = merged.name := by
        unfold removeField
        split <;> rfl
      unfold applyField
      split
      · split
        · rfl
        · exact hremove
      · split
        · rfl
        · exact hremove
      · rfl
      · rfl

/-- **The merge of valid definitions is valid.** -/
theorem merge_valid (env : Dialect) (display : ℚ → String)
    (base upstream here merged : MetaSchemaDefinition)
    (hupstream : validateDefinition env display upstream = .ok ())
    (hhere : validateDefinition env display here = .ok ())
    (h : applyPlan (threeWay base upstream here) upstream here = .ok merged) :
    validateDefinition env display merged = .ok () := by
  rw [validateDefinition_eq_ok_iff] at hupstream hhere ⊢
  unfold applyPlan at h
  split_ifs at h
  cases h
  -- the entity types of the workspace are all still there
  have hkept : ∀ ty, (here.entityTypes.get? ty).isSome → (((threeWay base upstream here).fields.foldl
      (applyField upstream) here).entityTypes.get? ty).isSome := by
    intro ty hty
    exact (entityTypes_applyFields upstream _ here ty).mpr (Or.inl hty)
  refine ⟨?_, ?_, fun ty name f hf => ?_, fun name relation hrelation => ?_⟩
  · rw [name_applyFields]
    exact hhere.named
  · obtain ⟨ty, hty⟩ := hhere.typed
    exact ⟨ty, hkept ty hty⟩
  -- a field stands where the side it comes from had it
  · rw [fieldOf_merged] at hf
    split_ifs at hf
    · exact hupstream.fields ty name f hf
    · exact hhere.fields ty name f hf
  · rw [relationTypes_applyFields] at hrelation
    obtain ⟨hsource, htarget⟩ := hhere.relations name relation hrelation
    exact ⟨hkept _ hsource, hkept _ htarget⟩

/-- Notes of which one can follow another. -/
def linkedNotes : MetaSchemaDefinition :=
  { noteVersion 10 false with
    relationTypes := OrderedMap.ofList [("follows", ⟨"note", "note", none⟩)] }

/-- The publisher adds a body to notes, the workspace a relation type between them. -/
theorem merge_valid_notes :
    ∃ merged, applyPlan (threeWay (noteVersion 10 false) (noteVersion 10 true) linkedNotes)
        (noteVersion 10 true) linkedNotes = .ok merged ∧
      validateDefinition lenientDialect (fun _ => "") merged = .ok () :=
  ⟨_, rfl, merge_valid lenientDialect (fun _ => "") (noteVersion 10 false) (noteVersion 10 true)
    linkedNotes _ rfl rfl rfl⟩

end Validity

end Yorishiro.Schema
