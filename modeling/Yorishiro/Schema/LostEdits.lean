import Yorishiro.Metaschema.Compatibility
import Yorishiro.Schema.OriginRuns
import Yorishiro.Template.Readability

/-!
# Merges beside other new versions

`merge_apply` reads its local side before it takes a lock, and the lock it takes is not the one
that orders the versions of a name. So a version that is committed between that read and
`create_schema` is archived by a merge that has not seen it (`not_mergesActive_editedMerge`). A merge
whose schema is still the active version when `create_schema` looks for it replaces what it
merged (`merge_of_stillActive`).
-/

set_option autoImplicit false

namespace Yorishiro.Schema

open Yorishiro.Lib Yorishiro.Lib.Fence Yorishiro.Lib.JsonSchema Yorishiro.Metaschema
open Yorishiro.Queue (Instant)
open Yorishiro.Template

section Merging

variable {decode : Decoder}

/-- A commit of a merge stores the merge of the template with the version that was active
immediately before. -/
def MergesActive (e : Entry (OriginJob decode) OriginDb OriginAnswer) : Prop :=
  match e.job with
  | .merge tenantId workspaceId _ id _ =>
      ∃ row activeId active templateId base template,
        (e.after.schemasOf workspaceId).get? id = some row ∧
          latest (e.before.schemasOf workspaceId) (isActive row.name) = some (activeId, active) ∧
          active.originTemplateId = some templateId ∧ active.originSnapshot = some base ∧
          getTemplate decode e.before.library tenantId templateId = .ok template ∧
          applyPlan (threeWay base template.definition active.definition) template.definition
            active.definition = .ok row.definition
  | _ => True

/-- The schema that a merge is to merge is the active version of its name in the database from
which `create_schema` reads the version before: the third statement of the transaction. -/
def StillActive (e : Entry (OriginJob decode) OriginDb OriginAnswer) : Prop :=
  match e.job with
  | .merge _ workspaceId schemaId _ _ =>
      ∀ v, e.seen[2]? = some v →
        ∃ row, latest (v.schemasOf workspaceId) (isActive row.definition.name) = some (schemaId, row)
  | _ => True

/-- A merge keeps the name of the schema. -/
theorem name_applyPlan {plan : MergePlan} {upstream here merged : MetaSchemaDefinition}
    (h : applyPlan plan upstream here = .ok merged) : merged.name = here.name := by
  unfold applyPlan at h
  split_ifs at h
  cases h
  exact name_applyFields upstream plan.fields here

/-- **When a merge loses no edit.** In every interleaving, a merge whose schema is still active
when `create_schema` looks for it stores the merge with the version it replaces. -/
theorem merge_of_stillActive (env : Dialect) (display : ℚ → String) (db : OriginDb)
    (is : List (Event (OriginJob decode) Empty)) :
    ∀ e ∈ (runOrigin env display db is).state.log, StillActive e → MergesActive e := by
  intro e he hstill
  obtain ⟨job, answer, seen, before, after⟩ := e
  have hcommitted := committed_run env display db is _ he
  cases hcommitted with
  | @merge tenantId workspaceId schemaId id templateId now schema base merged template version
      versioning archives _ v₀ v₂ _ _ hlocal hschema hactive horigin hbase hread hmerged hview
      hkept hsame hwrites =>
      obtain ⟨row, hlatest⟩ := hstill v₂ hview
      -- the row found active is the one that was read before any lock
      obtain ⟨hrow, -⟩ := latest_eq_some hlatest
      obtain ⟨row', hrow', hfixed⟩ := hkept workspaceId schemaId schema hschema
      obtain rfl := Option.some.inj (hrow.symm.trans hrow')
      have hname : merged.name = row.definition.name := by
        rw [name_applyPlan hmerged, (SchemaRecord.of_fixed hfixed).2.1]
      -- under the version lock it stays active, up to its pending mark
      have hafter := hsame.latest
      rw [hname, hlatest, Option.map_some] at hafter
      obtain ⟨⟨activeId, active⟩, hfound, hpending⟩ := Option.map_eq_some_iff.mp hafter.symm
      obtain ⟨-, hpending⟩ := Prod.mk.inj hpending
      obtain ⟨-, hdefinition, htemplate, -, hsnapshot⟩ := SchemaRecord.of_fixed
        ((SchemaRecord.fixed_of_pending hpending).trans hfixed)
      have hstored := (hwrites.rows workspaceId id).trans (if_pos ⟨rfl, rfl⟩)
      refine ⟨_, activeId, active, templateId, base, template, hstored, ?_,
        htemplate.trans horigin, hsnapshot.trans hbase, hread, ?_⟩
      · have hrowname : (versionRow tenantId merged version
            (some templateId, some template.definition, some now)).name =
            row.definition.name := hname
        rw [hrowname]
        exact hfound
      · rw [hdefinition]
        exact hmerged
  | _ => trivial

end Merging

/-! ## A lost edit -/

/-- The blank definition with a second entity type. -/
def taskDefinition : MetaSchemaDefinition :=
  { blankDefinition with
    entityTypes := .ofList [("note", ⟨none, .empty⟩), ("task", ⟨none, .empty⟩)] }

/-- A template of this definition. -/
def notesTemplate (definition : MetaSchemaDefinition) : TemplateRow where
  tenantId := 1
  name := "notes"
  description := none
  definition := definition.toJson
  tags := .array []
  locale := none
  visibility := .tenant
  author := none
  forkOf := none
  createdBy := none
  createdAt := 0
  updatedAt := 0

/-- One template and one workspace without schemas. -/
def notesDb : OriginDb where
  library := { Library.empty with
    templates := ⟨.ofList [(1, notesTemplate blankDefinition)], List.pairwise_singleton _ _⟩ }
  spaces := .ofList [(5, ⟨1, ⟨true, none, none⟩, .empty⟩)]

/-- A schema is made from the template. After the first `early` statements of a merge it is
replaced by a version with a second entity type. -/
def editedMerge (schemaId : Uuid) (early : Nat) : List (Event (OriginJob blankDecoder) Empty) :=
  .start 0 (.createFromTemplate 1 5 1 10 7) :: Event.steps 0 7 ++
    .start 1 (.merge 1 5 schemaId 12 9) :: Event.steps 1 early ++
    .start 2 (.create 1 5 11 taskDefinition 8) :: Event.steps 2 7 ++
    Event.steps 1 11

/-- The commits of such a run. -/
def notesLog (is : List (Event (OriginJob blankDecoder) Empty)) :
    List (Entry (OriginJob blankDecoder) OriginDb OriginAnswer) :=
  (runOrigin lenientDialect (fun _ => "") notesDb is).state.log

/-- The merge has read its local side when the new version is committed, and drops its second
entity type. -/
theorem not_mergesActive_editedMerge : ¬ ∀ e ∈ notesLog (editedMerge 10 1), MergesActive e := by
  intro h
  have hmerges := h _
    (List.getElem_mem (n := 2) (by decide : 2 < (notesLog (editedMerge 10 1)).length))
  obtain ⟨row, activeId, active, templateId, base, template, hrow, hactive, horigin, hbase, hread,
    hmerged⟩ := hmerges
  -- what is stored is the blank definition, and what it replaces has two entity types
  cases hrow
  cases hactive
  cases horigin
  cases hbase
  cases hread
  have hkeys := congrArg (Except.map fun d => d.entityTypes.keys) hmerged
  change (Except.ok ["note", "task"] : Except YorishiroError _) = .ok ["note"] at hkeys
  cases hkeys

/-- A merge of the new version that begins after it. -/
theorem merge_of_stillActive_editedMerge :
    (notesLog (editedMerge 11 0)).length = 3 ∧
      ∀ e, (notesLog (editedMerge 11 0))[2]? = some e → MergesActive e := by
  refine ⟨rfl, fun e he => ?_⟩
  refine merge_of_stillActive lenientDialect (fun _ => "") notesDb (editedMerge 11 0) e
    (List.mem_of_getElem? he) ?_
  have hviews : ((notesLog (editedMerge 11 0))[2]?.bind fun e => e.seen[2]?).bind (fun v =>
      (latest (v.schemasOf 5) (isActive "notes")).map fun r => (r.1, r.2.definition.name)) =
        some (11, "notes") := rfl
  rw [he, Option.bind_some] at hviews
  cases he
  intro v hv
  rw [hv, Option.bind_some] at hviews
  obtain ⟨⟨id, row⟩, hlatest, hrow⟩ := Option.map_eq_some_iff.mp hviews
  obtain ⟨rfl, hname⟩ := Prod.mk.inj hrow
  exact ⟨row, (congrArg (fun name => latest (v.schemasOf 5) (isActive name)) hname).trans hlatest⟩

end Yorishiro.Schema
