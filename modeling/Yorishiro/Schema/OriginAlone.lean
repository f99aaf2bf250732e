import Yorishiro.Schema.OriginRuns

/-!
# The transactions on followed schemas, run alone

With no other transaction around, the scripts of `Schema.Origin` are the functions of
`Schema.Store` and `Template.Library`: `create_schema` on the versions of the workspace
(`createVersion_alone`), and `update_template` on the library, with the followers told
(`updateTemplate_alone`).
-/

set_option autoImplicit false

namespace Yorishiro.Schema

open Yorishiro.Lib Yorishiro.Lib.Fence Yorishiro.Lib.JsonSchema Yorishiro.Metaschema
open Yorishiro.Queue (Instant)
open Yorishiro.Template

section Alone

variable {env : Dialect} {display : ℚ → String} {db db' : OriginDb} {workspaceId id : Uuid}
  {space : Space}

theorem alone_statement_eq_ok {f : OriginDb → Except YorishiroError OriginDb} :
    (statement f).alone db = .ok ((), db') ↔ f db = .ok db' := by
  unfold statement Script.alone
  cases f db with
  | error e => simp
  | ok d => simp

/-- The database differs in the one space, which is `space` in the second. -/
structure Replaced (db : OriginDb) (workspaceId : Uuid) (space : Space) (db' : OriginDb) : Prop where
  library : db'.library = db.library
  spaces : ∀ l, db'.spaces.get? l = if l = workspaceId then some space else db.spaces.get? l

theorem Replaced.refl (h : db.spaces.get? workspaceId = some space) :
    Replaced db workspaceId space db := by
  refine ⟨rfl, fun l => ?_⟩
  split_ifs with hl
  · rw [hl, h]
  · rfl

theorem Replaced.get?_self (h : Replaced db workspaceId space db') :
    db'.spaces.get? workspaceId = some space := (h.spaces workspaceId).trans (if_pos rfl)

theorem Replaced.schemasOf_self (h : Replaced db workspaceId space db') :
    db'.schemasOf workspaceId = space.schemas := by
  unfold OriginDb.schemasOf
  rw [h.get?_self]
  rfl

theorem Replaced.updateSpace (h : Replaced db workspaceId space db') (f : Space → Space) :
    Replaced db workspaceId (f space) (db'.updateSpace workspaceId f) := by
  refine ⟨(OriginDb.library_updateSpace _ _).trans h.library, fun l => ?_⟩
  rw [OriginDb.get?_updateSpace, h.spaces]
  split_ifs
  · rfl
  · rfl

/-- The statements that insert a version, on the one space. -/
theorem alone_insertVersion {d : OriginDb} (hd : Replaced db workspaceId space d)
    {row : SchemaRecord} {a b : SchemaRecord × VersioningDiff}
    (h : Script.alone (do
      statement (insertVersion workspaceId id row)
      statement fun db => .ok (db.markActive workspaceId id)
      pure a) d = .ok (b, db')) :
    b = a ∧ ∃ schemas, space.schemas.insert id row = .ok schemas ∧
      Replaced db workspaceId
        { space with schemas := schemas, workspace := markActive space.workspace id } db' := by
  obtain ⟨_, d₁, hinsert, h⟩ := Script.alone_bind_eq_ok.mp h
  obtain ⟨_, d₂, hmark, h⟩ := Script.alone_bind_eq_ok.mp h
  cases h
  cases alone_statement_eq_ok.mp hmark
  have hinsert := alone_statement_eq_ok.mp hinsert
  unfold insertVersion at hinsert
  split_ifs at hinsert
  obtain ⟨schemas, hok, hinsert⟩ := Except.bind_eq_ok.mp hinsert
  cases hinsert
  rw [hd.schemasOf_self] at hok
  have hinserted := hd.updateSpace fun space => { space with schemas := schemas }
  exact ⟨rfl, schemas, Except.mapError_eq_ok hok, hinserted.updateSpace fun space =>
    { space with workspace := markActive space.workspace id }⟩

/-- `create_schema` of a valid definition, from its statements on the table. -/
theorem createSchema_of_inserted {schemas archived schemas' : Schemas} {workspace : Workspace}
    {tenantId : Uuid} {definition : MetaSchemaDefinition} {originTemplateId : Option Uuid}
    {originSnapshot : Option MetaSchemaDefinition} {now : Instant}
    (hvalid : validateDefinition env display definition = .ok ())
    (harchive : archivePrevious schemas definition.name
      (latest schemas (isActive definition.name)) = .ok archived)
    (hinsert : archived.insert id (versionRow tenantId definition
      (nextVersion schemas definition.name) (inheritOrigin (latest schemas
        (isActive definition.name)) originTemplateId originSnapshot now)) = .ok schemas') :
    createSchema env display schemas workspace tenantId definition originTemplateId originSnapshot
      id now = .ok (schemas', markActive workspace id, versionRow tenantId definition
        (nextVersion schemas definition.name) (inheritOrigin (latest schemas
          (isActive definition.name)) originTemplateId originSnapshot now),
        ((latest schemas (isActive definition.name)).map fun e =>
          diff e.2.definition definition).getD { isBreaking := false, reasons := [] }) := by
  unfold createSchema
  refine Except.bind_eq_ok.mpr ⟨(), hvalid, Except.bind_eq_ok.mpr ⟨archived, harchive,
    Except.bind_eq_ok.mpr ⟨schemas', ?_, rfl⟩⟩⟩
  exact (congrArg (Except.mapError _) hinsert).trans rfl

/-- **`create_schema` alone** is the function of `Schema.Store` on the workspace. -/
theorem createVersion_alone {tenantId : Uuid} {definition : MetaSchemaDefinition}
    {originTemplateId : Option Uuid} {originSnapshot : Option MetaSchemaDefinition} {now : Instant}
    {row : SchemaRecord} {versioning : VersioningDiff}
    (h : (createVersion env display tenantId workspaceId definition originTemplateId originSnapshot
      id now).alone db = .ok ((row, versioning), db')) :
    ∃ space schemas workspace, db.spaces.get? workspaceId = some space ∧
      createSchema env display space.schemas space.workspace tenantId definition originTemplateId
        originSnapshot id now = .ok (schemas, workspace, row, versioning) ∧
      Replaced db workspaceId { space with schemas := schemas, workspace := workspace } db' := by
  unfold createVersion at h
  obtain ⟨_, hvalid, h⟩ := Script.alone_ofExcept_bind_eq_ok.mp h
  rw [Script.alone_acquire_bind, Script.alone_read_bind, Script.alone_read_bind] at h
  cases hspace : db.spaces.get? workspaceId with
  | none =>
      -- there is no version to archive, and none can be inserted
      rw [OriginDb.schemasOf_eq_empty hspace] at h
      obtain ⟨_, d, hinsert, -⟩ := Script.alone_bind_eq_ok.mp h
      have hinsert := alone_statement_eq_ok.mp hinsert
      unfold insertVersion at hinsert
      rw [hspace] at hinsert
      cases hinsert
  | some space =>
      have hself := Replaced.refl hspace
      rw [hself.schemasOf_self] at h
      simp only at h
      split_ifs at h with hprevious
      · obtain ⟨_, d, harchive, h⟩ := Script.alone_bind_eq_ok.mp h
        have harchive := alone_statement_eq_ok.mp harchive
        obtain ⟨⟨archived, n⟩, hupdate, harchive⟩ := Except.bind_eq_ok.mp harchive
        cases harchive
        rw [hself.schemasOf_self] at hupdate
        obtain ⟨hrow, schemas, hinsert, hreplaced⟩ := alone_insertVersion (hself.updateSpace _) h
        cases hrow
        refine ⟨space, schemas, _, rfl, createSchema_of_inserted hvalid ?_ hinsert, hreplaced⟩
        unfold archivePrevious
        rw [if_pos hprevious, hupdate]
        rfl
      · obtain ⟨hrow, schemas, hinsert, hreplaced⟩ := alone_insertVersion hself h
        cases hrow
        refine ⟨space, schemas, _, rfl, createSchema_of_inserted hvalid ?_ hinsert, hreplaced⟩
        unfold archivePrevious
        rw [if_neg hprevious]
/-- `UPDATE` of a template the tenant owns, as `Template.Library` has it. -/
theorem writeTemplate_of_owned {decode : Decoder} {tenantId templateId : Uuid}
    {input : UpdateTemplateInput decode} {now : Instant} {existing : TemplateRow}
    {record : TemplateRecord} (howned : db.library.owned tenantId templateId = some existing)
    (h : writeTemplate templateId input now db = .ok (record, db')) :
    (do
      let (templates, _) ← (db.library.templates.updateRow templateId (fun _ => true)
        (input.apply now)).mapError YorishiroError.internal
      let record ← (input.apply now existing).toRecord decode templateId
      pure (db.library.withTemplates templates, record)) = .ok (db'.library, record) ∧
      ∀ l, db'.schemasOf l = db.schemasOf l := by
  obtain ⟨hstored, -⟩ := Option.filter_eq_some_iff.mp howned
  unfold writeTemplate at h
  rw [hstored] at h
  obtain ⟨⟨templates, n⟩, hupdate, h⟩ := Except.bind_eq_ok.mp h
  obtain ⟨record', hrecord, h⟩ := Except.bind_eq_ok.mp h
  cases h
  refine ⟨?_, fun l => rfl⟩
  exact Except.bind_eq_ok.mpr ⟨(templates, n), hupdate,
    Except.bind_eq_ok.mpr ⟨record, hrecord, rfl⟩⟩

/-- **`update_template` alone** is the function of `Template.Library`, and every follower is told of
a new definition. -/
theorem updateTemplate_alone {decode : Decoder} {tenantId templateId : Uuid}
    {input : UpdateTemplateInput decode} {now : Instant} {record : TemplateRecord}
    (h : (updateTemplate env display tenantId templateId input now).alone db = .ok (record, db')) :
    Template.updateTemplate env display db.library tenantId templateId input now =
        .ok (db'.library, record) ∧
      ∀ l k, (db'.schemasOf l).get? k = ((db.schemasOf l).get? k).map fun r =>
        if input.definition.isSome = true ∧ r.follows templateId = true then r.pending else r := by
  unfold updateTemplate at h
  rw [Script.alone_acquire_bind] at h
  obtain ⟨_, hvalid, h⟩ := Script.alone_ofExcept_bind_eq_ok.mp h
  unfold Template.updateTemplate
  split_ifs at h ⊢ with hempty hdefinition
  · -- nothing is given, a definition neither
    rw [Script.alone_read_bind, Script.alone_ofExcept] at h
    obtain ⟨record', hget, hrecord⟩ := Except.map_eq_ok h
    cases hrecord
    refine ⟨Except.bind_eq_ok.mpr ⟨(), hvalid, Except.bind_eq_ok.mpr ⟨record, hget, rfl⟩⟩,
      fun l k => ?_⟩
    have hnone : ¬ input.definition.isSome = true := by
      unfold UpdateTemplateInput.isEmpty at hempty
      simp only [Bool.and_eq_true, Option.isNone_iff_eq_none] at hempty
      simp [hempty.1.1.2]
    simp [hnone]
  · rw [Script.alone_read_bind] at h
    obtain ⟨existing, howned, h⟩ := Script.alone_orFail_bind_eq_ok.mp h
    obtain ⟨record', d, hwrite, h⟩ := Script.alone_bind_eq_ok.mp h
    rw [Script.alone_update] at hwrite
    obtain ⟨hlibrary, hschemas⟩ := writeTemplate_of_owned howned hwrite
    obtain ⟨_, d', hnotify, h⟩ := Script.alone_bind_eq_ok.mp h
    cases h
    unfold notifyUpstreamChange at hnotify
    rw [Script.alone_read_bind] at hnotify
    obtain ⟨hsame, hrows⟩ := foldlM_markPending (alone_statement_eq_ok.mp hnotify)
    refine ⟨?_, fun l k => ?_⟩
    · rw [howned, hsame]
      exact Except.bind_eq_ok.mpr ⟨(), hvalid, hlibrary⟩
    · rw [hrows, hschemas]
      -- the rows told are the followers, which the write of the template left alone
      cases hrow : (db.schemasOf l).get? k with
      | none => rfl
      | some r =>
          have htold : (l, k) ∈ d.followers templateId ↔ r.follows templateId = true := by
            rw [mem_followers_iff, hschemas, hrow]
            simp
          simp [htold, hdefinition]
  · rw [Script.alone_read_bind] at h
    obtain ⟨existing, howned, h⟩ := Script.alone_orFail_bind_eq_ok.mp h
    obtain ⟨record', d, hwrite, h⟩ := Script.alone_bind_eq_ok.mp h
    rw [Script.alone_update] at hwrite
    obtain ⟨hlibrary, hschemas⟩ := writeTemplate_of_owned howned hwrite
    cases h
    refine ⟨?_, fun l k => ?_⟩
    · rw [howned]
      exact Except.bind_eq_ok.mpr ⟨(), hvalid, hlibrary⟩
    · rw [hschemas]
      simp [hdefinition]

end Alone

end Yorishiro.Schema
