import Yorishiro.Lib.Fence
import Yorishiro.Schema.Origin

/-!
# What the transactions on followed schemas do

What a committed request of `Schema.Origin` read and wrote, whatever ran beside it
(`Committed`): the version lock keeps the versions of a name as `create_schema` found them, up
to their pending marks, and the lock of a template keeps the template as `merge_apply` and
`update_template` found it. `committed_run` is the result for interleavings, `committed_alone`
the one for a transaction that runs alone.
-/

set_option autoImplicit false

namespace Yorishiro.Schema

open Yorishiro.Lib Yorishiro.Lib.Fence Yorishiro.Lib.JsonSchema Yorishiro.Metaschema
open Yorishiro.Queue (Instant)
open Yorishiro.Template

/-! ## Tables after a statement -/

namespace OriginDb

variable {db : OriginDb}

@[simp] theorem library_updateSpace (workspaceId : Uuid) (f : Space → Space) :
    (db.updateSpace workspaceId f).library = db.library := by
  unfold updateSpace
  split
  · rfl
  · rfl

theorem get?_updateSpace (workspaceId l : Uuid) (f : Space → Space) :
    (db.updateSpace workspaceId f).spaces.get? l =
      if l = workspaceId then (db.spaces.get? l).map f else db.spaces.get? l := by
  unfold updateSpace
  cases hspace : db.spaces.get? workspaceId with
  | none =>
      split_ifs with hl
      · rw [hl, hspace, Option.map_none]
      · rfl
  | some space =>
      rw [OrderedMap.get?_insert]
      split_ifs with hl
      · rw [hl, hspace, Option.map_some]
      · rfl

/-- The versions of a workspace are replaced, where it is there. -/
theorem schemasOf_updateSpace {workspaceId : Uuid} {schemas : Schemas}
    (h : db.spaces.get? workspaceId = none → schemas = .empty) (l : Uuid) :
    (db.updateSpace workspaceId fun space => { space with schemas := schemas }).schemasOf l =
      if l = workspaceId then schemas else db.schemasOf l := by
  unfold schemasOf
  rw [get?_updateSpace]
  split_ifs with hl
  · subst hl
    cases hspace : db.spaces.get? l with
    | none => exact (h hspace).symm
    | some space => rfl
  · rfl

@[simp] theorem library_markActive (workspaceId schemaId : Uuid) :
    (db.markActive workspaceId schemaId).library = db.library :=
  library_updateSpace workspaceId _

@[simp] theorem schemasOf_markActive (workspaceId schemaId l : Uuid) :
    (db.markActive workspaceId schemaId).schemasOf l = db.schemasOf l := by
  unfold schemasOf markActive
  rw [get?_updateSpace]
  split_ifs with hl
  · cases db.spaces.get? l with
    | none => rfl
    | some space => rfl
  · rfl

theorem schemasOf_eq_empty {workspaceId : Uuid} (h : db.spaces.get? workspaceId = none) :
    db.schemasOf workspaceId = .empty := by
  unfold schemasOf
  rw [h]
  rfl

/-- A version of a workspace is among the rows of its space. -/
theorem get?_schemasOf {l id : Uuid} {row : SchemaRecord} :
    (db.schemasOf l).get? id = some row ↔
      ∃ space, db.spaces.get? l = some space ∧ space.schemas.get? id = some row := by
  unfold schemasOf
  cases db.spaces.get? l with
  | none => exact iff_of_false (fun h => by cases h) (by rintro ⟨_, h, -⟩; cases h)
  | some space => simp

end OriginDb

/-- `UPDATE` of versions, row by row. -/
theorem updateVersions_eq_ok {workspaceId : Uuid} {p : Uuid → SchemaRecord → Bool}
    {f : SchemaRecord → SchemaRecord} {d d' : OriginDb}
    (h : updateVersions workspaceId p f d = .ok d') :
    d'.library = d.library ∧ ∀ l id, (d'.schemasOf l).get? id =
      ((d.schemasOf l).get? id).map fun row => if l = workspaceId ∧ p id row = true then f row
        else row := by
  unfold updateVersions at h
  obtain ⟨⟨schemas, n⟩, hupdate, h⟩ := Except.bind_eq_ok.mp h
  cases h
  have hget := Table.get?_updateWhere (Except.mapError_eq_ok hupdate)
  refine ⟨OriginDb.library_updateSpace _ _, fun l id => ?_⟩
  have hempty : d.spaces.get? workspaceId = none → schemas = .empty := by
    intro hnone
    refine Table.ext_get? fun k => ?_
    rw [hget k, OriginDb.schemasOf_eq_empty hnone]
    rfl
  rw [OriginDb.schemasOf_updateSpace hempty]
  split_ifs with hl
  · subst hl
    rw [hget id]
    refine congrArg (Option.map · _) (funext fun row => ?_)
    simp
  · cases (d.schemasOf l).get? id with
    | none => rfl
    | some row => simp [hl]

/-- `INSERT` of a version, row by row. -/
theorem insertVersion_eq_ok {workspaceId id : Uuid} {row : SchemaRecord} {d d' : OriginDb}
    (h : insertVersion workspaceId id row d = .ok d') :
    d'.library = d.library ∧ (d.schemasOf workspaceId).get? id = none ∧
      ∀ l k, (d'.schemasOf l).get? k =
        if l = workspaceId ∧ k = id then some row else (d.schemasOf l).get? k := by
  unfold insertVersion at h
  split_ifs at h with hspace htaken
  obtain ⟨schemas, hinsert, h⟩ := Except.bind_eq_ok.mp h
  cases h
  have hok := Except.mapError_eq_ok hinsert
  refine ⟨OriginDb.library_updateSpace _ _, (Table.insert_eq_ok hok).1, fun l k => ?_⟩
  rw [OriginDb.schemasOf_updateSpace fun hnone => absurd (by simp [hnone]) hspace]
  by_cases hl : l = workspaceId
  · subst hl
    rw [if_pos rfl, Table.get?_insert hok]
    simp
  · simp [hl]

/-! ## New versions -/

/-- What `create_schema` writes: the new version beside the archived ones of its name. -/
structure Writes (workspaceId id : Uuid) (row : SchemaRecord) (archives : Bool)
    (d d' : OriginDb) : Prop where
  library : d'.library = d.library
  fresh : (d.schemasOf workspaceId).get? id = none
  rows : ∀ l k, (d'.schemasOf l).get? k =
    if l = workspaceId ∧ k = id then some row
    else ((d.schemasOf l).get? k).map fun r =>
      if l = workspaceId ∧ (archives && isActive row.name r) = true then
        { r with status := .archived }
      else r

/-- The statement that archives the active versions of a name, if there is any. -/
def archiveActive (workspaceId : Uuid) (name : String) (archives : Bool) (d : OriginDb) :
    Except YorishiroError OriginDb :=
  if archives then
    updateVersions workspaceId (fun _ r => isActive name r)
      (fun r => { r with status := .archived }) d
  else .ok d

/-- The statements of `create_schema` that write, one after the other. -/
def writeVersion (workspaceId id : Uuid) (row : SchemaRecord) (archives : Bool) (d : OriginDb) :
    Except YorishiroError OriginDb :=
  ((archiveActive workspaceId row.name archives d).bind (insertVersion workspaceId id row)).bind
    fun d => .ok (d.markActive workspaceId id)

theorem writeVersion_eq_ok {workspaceId id : Uuid} {row : SchemaRecord} (archives : Bool)
    {d d' : OriginDb} (h : writeVersion workspaceId id row archives d = .ok d') :
    Writes workspaceId id row archives d d' := by
  unfold writeVersion at h
  obtain ⟨d₂, h, hactive⟩ := Except.bind_eq_ok.mp h
  obtain ⟨d₁, harchive, hinsert⟩ := Except.bind_eq_ok.mp h
  cases hactive
  obtain ⟨hlib₂, hfresh, hrows₂⟩ := insertVersion_eq_ok hinsert
  have hrows₁ : d₁.library = d.library ∧ ∀ l k, (d₁.schemasOf l).get? k =
      ((d.schemasOf l).get? k).map fun r =>
        if l = workspaceId ∧ (archives && isActive row.name r) = true then
          { r with status := .archived }
        else r := by
    unfold archiveActive at harchive
    cases archives with
    | true => simpa using updateVersions_eq_ok harchive
    | false =>
        cases harchive
        refine ⟨rfl, fun l k => ?_⟩
        cases (d.schemasOf l).get? k with
        | none => rfl
        | some r => simp
  refine ⟨(OriginDb.library_markActive _ _).trans (hlib₂.trans hrows₁.1), ?_, fun l k => ?_⟩
  · rw [hrows₁.2] at hfresh
    exact Option.map_eq_none_iff.mp hfresh
  · rw [OriginDb.schemasOf_markActive, hrows₂, hrows₁.2]

/-- Setting the mark of the new version to what it is already changes no row. -/
theorem Writes.stamp {workspaceId id : Uuid} {row : SchemaRecord} {archives : Bool}
    {d d₁ d₂ : OriginDb} (h : Writes workspaceId id row archives d d₁) {now : Instant}
    (hrow : row.originUpdatedAt = some now)
    (hstamp : updateVersions workspaceId (isRow id)
      (fun row => { row with originUpdatedAt := some now }) d₁ = .ok d₂) :
    Writes workspaceId id row archives d d₂ := by
  obtain ⟨hlib, hrows⟩ := updateVersions_eq_ok hstamp
  refine ⟨hlib.trans h.library, h.fresh, fun l k => ?_⟩
  rw [hrows, h.rows]
  split_ifs with hnew
  · obtain ⟨rfl, rfl⟩ := hnew
    obtain ⟨_, _, _, _, _, _, _, _, _⟩ := row
    cases hrow
    simp [isRow]
  · have hother : ∀ r : SchemaRecord, ¬(l = workspaceId ∧ isRow id k r = true) := by
      rintro r ⟨hl, hk⟩
      exact hnew ⟨hl, of_decide_eq_true hk⟩
    simp only [if_neg (hother _), Option.map_id']

/-! ## Publication -/

/-- The row is linked to the template. -/
def SchemaRecord.follows (row : SchemaRecord) (templateId : Uuid) : Bool :=
  decide (row.originTemplateId = some templateId) && decide (row.originStatus = .linked)

/-- The row with a pending mark. -/
def SchemaRecord.pending (row : SchemaRecord) : SchemaRecord := { row with originUpdatedAt := none }

@[simp] theorem SchemaRecord.follows_pending (row : SchemaRecord) (templateId : Uuid) :
    row.pending.follows templateId = row.follows templateId := rfl

/-- The followers of a template are the rows that are linked to it. -/
theorem mem_followers_iff {db : OriginDb} {templateId l id : Uuid} :
    (l, id) ∈ db.followers templateId ↔
      ∃ row, (db.schemasOf l).get? id = some row ∧ row.follows templateId = true := by
  unfold OriginDb.followers
  simp only [List.mem_flatMap, List.mem_map, List.mem_filter, Prod.exists, Prod.mk.injEq,
    OrderedMap.mem_entries_iff]
  constructor
  · rintro ⟨l, space, hspace, id, row, ⟨hrow, hfollows⟩, rfl, rfl⟩
    exact ⟨row, OriginDb.get?_schemasOf.mpr ⟨space, hspace, hrow⟩, hfollows⟩
  · rintro ⟨row, hrow, hfollows⟩
    obtain ⟨space, hspace, hrow⟩ := OriginDb.get?_schemasOf.mp hrow
    exact ⟨l, space, hspace, id, row, ⟨hrow, hfollows⟩, rfl, rfl⟩

/-- What `update_template` writes: the template, and the pending marks of the followers it
tells. -/
structure Publishes {decode : Decoder} (templateId : Uuid) (input : UpdateTemplateInput decode)
    (now : Instant) (told : List (Uuid × Uuid)) (d d' : OriginDb) : Prop where
  templates : ∀ t, d'.library.templates.get? t =
    if t = templateId then (d.library.templates.get? t).map (input.apply now)
    else d.library.templates.get? t
  rows : ∀ l k, (d'.schemasOf l).get? k = ((d.schemasOf l).get? k).map fun r =>
    if (l, k) ∈ told ∧ r.follows templateId = true then r.pending else r

theorem markPending_eq_ok {templateId : Uuid} {d d' : OriginDb} {e : Uuid × Uuid}
    (h : markPending templateId d e = .ok d') :
    d'.library = d.library ∧ ∀ l k, (d'.schemasOf l).get? k = ((d.schemasOf l).get? k).map fun r =>
      if (l, k) = e ∧ r.follows templateId = true then r.pending else r := by
  obtain ⟨hlib, hrows⟩ := updateVersions_eq_ok h
  refine ⟨hlib, fun l k => ?_⟩
  rw [hrows]
  refine congrArg (Option.map · _) (funext fun r => ?_)
  refine if_congr ?_ rfl rfl
  rw [Bool.and_eq_true_iff, decide_eq_true_eq, ← and_assoc, Prod.ext_iff]
  exact Iff.rfl

/-- The rows told, one after the other. -/
theorem foldlM_markPending {templateId : Uuid} {told : List (Uuid × Uuid)} {d d' : OriginDb}
    (h : told.foldlM (markPending templateId) d = .ok d') :
    d'.library = d.library ∧ ∀ l k, (d'.schemasOf l).get? k = ((d.schemasOf l).get? k).map fun r =>
      if (l, k) ∈ told ∧ r.follows templateId = true then r.pending else r := by
  induction told generalizing d with
  | nil =>
      cases h
      refine ⟨rfl, fun l k => ?_⟩
      simp
  | cons e told ih =>
      rw [List.foldlM_cons] at h
      obtain ⟨d₁, hmark, hrest⟩ := Except.bind_eq_ok.mp h
      obtain ⟨hlib₁, hrows₁⟩ := markPending_eq_ok hmark
      obtain ⟨hlib, hrows⟩ := ih hrest
      refine ⟨hlib.trans hlib₁, fun l k => ?_⟩
      rw [hrows, hrows₁, Option.map_map]
      refine congrArg (Option.map · _) (funext fun r => ?_)
      simp only [Function.comp_apply, List.mem_cons]
      -- a row that was told already is told again without a change
      by_cases hfollows : r.follows templateId = true
      · by_cases he : (l, k) = e
        · simp [he, hfollows, SchemaRecord.pending]
        · simp [he, hfollows]
      · simp [hfollows]

section Publication

variable {decode : Decoder} {templateId : Uuid} {input : UpdateTemplateInput decode}
  {now : Instant} {d d' : OriginDb}

theorem writeTemplate_eq_ok {record : TemplateRecord}
    (h : writeTemplate templateId input now d = .ok (record, d')) :
    Publishes templateId input now [] d d' := by
  unfold writeTemplate at h
  split at h
  · cases h
  · obtain ⟨⟨templates, n⟩, hupdate, h⟩ := Except.bind_eq_ok.mp h
    obtain ⟨_, -, h⟩ := Except.bind_eq_ok.mp h
    cases h
    have hget := Table.get?_updateWhere (Except.mapError_eq_ok hupdate)
    refine ⟨fun t => (hget t).trans ?_, fun l k => ?_⟩
    · by_cases ht : t = templateId
      · simp [ht]
      · simp [ht]
    · have hsame : (d.withLibrary (d.library.withTemplates templates)).schemasOf l =
          d.schemasOf l := rfl
      rw [hsame]
      simp

/-- The template is written, then its followers are told. -/
theorem Publishes.tell {d₁ : OriginDb} (h : Publishes templateId input now [] d d₁)
    {told : List (Uuid × Uuid)} (htold : told.foldlM (markPending templateId) d₁ = .ok d') :
    Publishes templateId input now told d d' := by
  obtain ⟨hlib, hrows⟩ := foldlM_markPending htold
  refine ⟨fun t => ?_, fun l k => ?_⟩
  · rw [hlib]
    exact h.templates t
  · have hsame : (d₁.schemasOf l).get? k = (d.schemasOf l).get? k := by simpa using h.rows l k
    rw [hrows, hsame]

end Publication

/-! ## Committed requests -/

/-- The workspace has the same versions of the name, up to their pending marks. -/
def SameVersions (workspaceId : Uuid) (name : String) (a b : OriginDb) : Prop :=
  ∀ id, (((a.schemasOf workspaceId).get? id).filter fun r => decide (r.name = name)).map
      SchemaRecord.pending =
    (((b.schemasOf workspaceId).get? id).filter fun r => decide (r.name = name)).map
      SchemaRecord.pending

/-- A row without what later changes to it: it may be archived and marked. -/
def SchemaRecord.fixed (row : SchemaRecord) : SchemaRecord := { row.pending with status := .active }

theorem SchemaRecord.fixed_of_pending {a b : SchemaRecord} (h : a.pending = b.pending) :
    a.fixed = b.fixed :=
  congrArg (fun row => { row with status := SchemaStatus.active }) h

/-- What is never changed of a row. -/
theorem SchemaRecord.of_fixed {a b : SchemaRecord} (h : a.fixed = b.fixed) :
    a.name = b.name ∧ a.definition = b.definition ∧ a.originTemplateId = b.originTemplateId ∧
      a.originStatus = b.originStatus ∧ a.originSnapshot = b.originSnapshot := by
  obtain ⟨_, _, _, _, _, _, _, _, _⟩ := a
  obtain ⟨_, _, _, _, _, _, _, _, _⟩ := b
  injection h with _ hname _ hdefinition _ htemplate hstatus hsnapshot _
  exact ⟨hname, hdefinition, htemplate, hstatus, hsnapshot⟩

/-- Every version of `a` is in `b`, archived and marked at most. -/
def KeepsVersions (a b : OriginDb) : Prop :=
  ∀ l id row, (a.schemasOf l).get? id = some row →
    ∃ row', (b.schemasOf l).get? id = some row' ∧ row'.fixed = row.fixed

section Committed

variable (decode : Decoder)

/-- What a request that is committed saw, with `views` for the database before each of its
statements, and how it changed `d` to `d'`. -/
inductive Committed : OriginJob decode → OriginAnswer → List OriginDb → OriginDb → OriginDb → Prop
  | create {tenantId workspaceId id : Uuid} {definition : MetaSchemaDefinition} {now : Instant}
      {version : Int} {versioning : VersioningDiff} {views : List OriginDb} {v d d' : OriginDb}
      (hview : views[0]? = some v)
      (hsame : SameVersions workspaceId definition.name v d)
      (hwrites : Writes workspaceId id (versionRow tenantId definition version
          (inheritOrigin (latest (v.schemasOf workspaceId) (isActive definition.name)) none none
            now))
        (latest (v.schemasOf workspaceId) (isActive definition.name)).isSome d d') :
      Committed (.create tenantId workspaceId id definition now)
        (.created (versionRow tenantId definition version
          (inheritOrigin (latest (v.schemasOf workspaceId) (isActive definition.name)) none none
            now)) versioning) views d d'
  | createFromTemplate {tenantId workspaceId templateId id : Uuid} {now : Instant}
      {template : TemplateRecord} {version : Int} {versioning : VersioningDiff} {archives : Bool}
      {views : List OriginDb} {v d d' : OriginDb}
      (hview : views[0]? = some v)
      (hread : getTemplate decode v.library tenantId templateId = .ok template)
      (hwrites : Writes workspaceId id (versionRow tenantId template.definition version
        (some template.id, some template.definition, some now)) archives d d') :
      Committed (.createFromTemplate tenantId workspaceId templateId id now)
        (.created (versionRow tenantId template.definition version
          (some template.id, some template.definition, some now)) versioning) views d d'
  | merge {tenantId workspaceId schemaId id templateId : Uuid} {now : Instant}
      {schema : SchemaRecord} {base merged : MetaSchemaDefinition} {template : TemplateRecord}
      {version : Int} {versioning : VersioningDiff} {archives : Bool} {views : List OriginDb}
      {v₀ v₂ d d' : OriginDb}
      (hlocal : views[0]? = some v₀)
      (hschema : (v₀.schemasOf workspaceId).get? schemaId = some schema)
      (hactive : schema.status = .active)
      (horigin : schema.originTemplateId = some templateId)
      (hbase : schema.originSnapshot = some base)
      (hread : getTemplate decode d.library tenantId templateId = .ok template)
      (hmerged : applyPlan (threeWay base template.definition schema.definition)
        template.definition schema.definition = .ok merged)
      (hview : views[2]? = some v₂)
      (hkept : KeepsVersions v₀ v₂)
      (hsame : SameVersions workspaceId merged.name v₂ d)
      (hwrites : Writes workspaceId id (versionRow tenantId merged version
        (some templateId, some template.definition, some now)) archives d d') :
      Committed (.merge tenantId workspaceId schemaId id now)
        (.merged (versionRow tenantId merged version
          (some templateId, some template.definition, some now)) versioning
          (threeWay base template.definition schema.definition).summary) views d d'
  | unchanged {tenantId templateId : Uuid} {input : UpdateTemplateInput decode} {now : Instant}
      {record : TemplateRecord} {views : List OriginDb} {d : OriginDb} :
      Committed (.updateTemplate tenantId templateId input now) (.template record) views d d
  | publish {tenantId templateId : Uuid} {input : UpdateTemplateInput decode} {now : Instant}
      {record : TemplateRecord} {told : List (Uuid × Uuid)} {views : List OriginDb}
      {d d' : OriginDb}
      (htold : input.definition.isSome = true →
        ∃ v, views[2]? = some v ∧ told = v.followers templateId)
      (hpublishes : Publishes templateId input now told d d') :
      Committed (.updateTemplate tenantId templateId input now) (.template record) views d d'

end Committed

/-! ## What the locks keep -/

theorem SameVersions.refl (workspaceId : Uuid) (name : String) (a : OriginDb) :
    SameVersions workspaceId name a a := fun _ => rfl

theorem SameVersions.trans {workspaceId : Uuid} {name : String} {a b c : OriginDb}
    (hab : SameVersions workspaceId name a b) (hbc : SameVersions workspaceId name b c) :
    SameVersions workspaceId name a c := fun id => (hab id).trans (hbc id)

/-- The latest of some rows. -/
def lastOf : List (Uuid × SchemaRecord) → Option (Uuid × SchemaRecord)
  | [] => none
  | e :: es => some (es.foldl later e)

theorem latest_eq_lastOf (schemas : Schemas) (p : SchemaRecord → Bool) :
    latest schemas p = lastOf (schemas.rows.entries.filter fun e => p e.2) := by
  unfold latest lastOf
  rfl

/-- What leaves the versions alone leaves their order alone. -/
theorem map_lastOf {g : Uuid × SchemaRecord → Uuid × SchemaRecord}
    (hg : ∀ e, (g e).2.version = e.2.version) (es : List (Uuid × SchemaRecord)) :
    (lastOf es).map g = lastOf (es.map g) := by
  cases es with
  | nil => rfl
  | cons e es =>
      refine congrArg some ?_
      induction es generalizing e with
      | nil => rfl
      | cons d es ih =>
          have hlater : g (later e d) = later (g e) (g d) := by
            unfold later
            rw [hg, hg]
            split_ifs
            · rfl
            · rfl
          rw [List.foldl_cons, ih, hlater]
          rfl

/-- The latest active version with a pending mark, from the rows with pending marks. -/
theorem latest_pending (schemas : Schemas) (name : String) :
    (latest schemas (isActive name)).map (fun e => (e.1, e.2.pending)) =
      lastOf ((schemas.rows.mapValues fun _ r => r.pending).entries.filter
        fun e => isActive name e.2) := by
  rw [latest_eq_lastOf, map_lastOf (g := fun e => (e.1, e.2.pending)) fun _ => rfl]
  have hmapped : (schemas.rows.mapValues fun _ r => r.pending).entries =
      schemas.rows.entries.map fun e => (e.1, e.2.pending) := rfl
  rw [hmapped, List.filter_map]
  rfl

/-- The active version of the name is the same, up to its pending mark. -/
theorem SameVersions.latest {workspaceId : Uuid} {name : String} {a b : OriginDb}
    (h : SameVersions workspaceId name a b) :
    (latest (a.schemasOf workspaceId) (isActive name)).map (fun e => (e.1, e.2.pending)) =
      (latest (b.schemasOf workspaceId) (isActive name)).map fun e => (e.1, e.2.pending) := by
  rw [latest_pending, latest_pending]
  refine congrArg lastOf (OrderedMap.filter_entries_congr (p := fun _ => isActive name)
    (q := fun _ => isActive name) fun k => ?_)
  -- an active row is one of the name
  have hactive : ∀ o : Option SchemaRecord, (o.map SchemaRecord.pending).filter (isActive name) =
      ((o.filter fun r => decide (r.name = name)).map SchemaRecord.pending).filter
        (isActive name) := by
    intro o
    cases o with
    | none => rfl
    | some r =>
        by_cases hname : r.name = name
        · simp [Option.filter, hname]
        · simp [Option.filter, isActive, SchemaRecord.pending, hname]
  rw [OrderedMap.get?_mapValues, OrderedMap.get?_mapValues]
  exact (hactive _).trans ((congrArg _ (h k)).trans (hactive _).symm)

theorem KeepsVersions.refl (a : OriginDb) : KeepsVersions a a := fun _ _ row h => ⟨row, h, rfl⟩

theorem KeepsVersions.trans {a b c : OriginDb} (hab : KeepsVersions a b)
    (hbc : KeepsVersions b c) : KeepsVersions a c := by
  intro l id row h
  obtain ⟨row', h', hfixed⟩ := hab l id row h
  obtain ⟨row'', h'', hfixed'⟩ := hbc l id row' h'
  exact ⟨row'', h'', hfixed'.trans hfixed⟩

/-- What transactions on these tables agree on: a request that commits is as `Committed` says;
versions stay; the version lock keeps the versions of a name, and the lock of a template keeps
the template. -/
def originDiscipline (decode : Decoder) :
    Discipline (OriginJob decode) String OriginDb OriginAnswer where
  inv w := ∀ e ∈ w.log, Committed decode e.job e.result e.seen e.before e.after
  onward w w' := KeepsVersions w.db w'.db
  keeps key w w' :=
    (∀ workspaceId name, key = versionLockKey workspaceId name →
      SameVersions workspaceId name w.db w'.db) ∧
    ∀ templateId, key = templateOriginKey templateId →
      w'.db.library.templates.get? templateId = w.db.library.templates.get? templateId
  met _ _ _ := True
  onward_refl w := .refl w.db
  onward_trans _ _ _ := KeepsVersions.trans
  keeps_refl _ w := ⟨fun _ _ _ => .refl _ _ w.db, fun _ _ => rfl⟩
  keeps_trans _ _ _ _ huv hvw :=
    ⟨fun l name hkey => (huv.1 l name hkey).trans (hvw.1 l name hkey),
      fun t hkey => (hvw.2 t hkey).trans (huv.2 t hkey)⟩

theorem Writes.keepsVersions {workspaceId id : Uuid} {row : SchemaRecord} {archives : Bool}
    {d d' : OriginDb} (h : Writes workspaceId id row archives d d') : KeepsVersions d d' := by
  intro l k r hr
  have hrow := h.rows l k
  rw [hr, Option.map_some] at hrow
  split_ifs at hrow with hnew harchive
  · obtain ⟨rfl, rfl⟩ := hnew
    rw [h.fresh] at hr
    cases hr
  · exact ⟨_, hrow, rfl⟩
  · exact ⟨r, hrow, rfl⟩

/-- Only versions of the one name in the one workspace are touched. -/
theorem Writes.sameVersions {workspaceId id : Uuid} {row : SchemaRecord} {archives : Bool}
    {d d' : OriginDb} (h : Writes workspaceId id row archives d d') {l : Uuid} {name : String}
    (hother : ¬(l = workspaceId ∧ name = row.name)) : SameVersions l name d d' := by
  intro k
  rw [h.rows l k]
  split_ifs with hnew
  · obtain ⟨rfl, rfl⟩ := hnew
    have hne : row.name ≠ name := fun heq => hother ⟨rfl, heq.symm⟩
    simp [h.fresh, Option.filter, hne]
  · cases (d.schemasOf l).get? k with
    | none => rfl
    | some r =>
        by_cases hname : r.name = name
        · -- a row of this name is no active row of the other
          have hkept : ¬(l = workspaceId ∧ (archives && isActive row.name r) = true) := by
            rintro ⟨hl, hactive⟩
            have hrow := (Bool.and_eq_true_iff.mp
              (Bool.and_eq_true_iff.mp hactive).2).1
            exact hother ⟨hl, hname.symm.trans (of_decide_eq_true hrow)⟩
          rw [Option.map_some, if_neg hkept]
        · rw [Option.map_some]
          split_ifs
          · simp [Option.filter, hname]
          · rfl

section Locks

variable {decode : Decoder}

theorem Writes.allows {workspaceId id : Uuid} {row : SchemaRecord} {archives : Bool}
    {w w' : Fence.State (OriginJob decode) OriginDb OriginAnswer}
    (h : Writes workspaceId id row archives w.db w'.db)
    (hinv : (originDiscipline decode).inv w') {held : List String}
    (hheld : versionLockKey workspaceId row.name ∈ held) :
    (originDiscipline decode).Allows held w w' := by
  refine ⟨hinv, h.keepsVersions, fun key hkey => ⟨fun l name hname => ?_, fun t _ => ?_⟩⟩
  · refine h.sameVersions fun ⟨hl, hrow⟩ => hkey ?_
    rw [hname, hl, hrow]
    exact hheld
  · rw [h.library]

theorem Publishes.allows {templateId : Uuid} {input : UpdateTemplateInput decode} {now : Instant}
    {told : List (Uuid × Uuid)} {w w' : Fence.State (OriginJob decode) OriginDb OriginAnswer}
    (h : Publishes templateId input now told w.db w'.db)
    (hinv : (originDiscipline decode).inv w') {held : List String}
    (hheld : templateOriginKey templateId ∈ held) :
    (originDiscipline decode).Allows held w w' := by
  refine ⟨hinv, fun l k r hr => ?_, fun key hkey => ⟨fun l name _ k => ?_, fun t ht => ?_⟩⟩
  · have hrow := h.rows l k
    rw [hr, Option.map_some] at hrow
    refine ⟨_, hrow, ?_⟩
    split_ifs
    · rfl
    · rfl
  · rw [h.rows l k]
    cases (w.db.schemasOf l).get? k with
    | none => rfl
    | some r =>
        by_cases hname : r.name = name
        · rw [Option.map_some]
          split_ifs
          · simp [Option.filter, hname, SchemaRecord.pending]
          · rfl
        · rw [Option.map_some]
          split_ifs
          · simp [Option.filter, hname, SchemaRecord.pending]
          · rfl
  · rw [h.templates t, if_neg]
    rintro rfl
    exact hkey (ht ▸ hheld)

end Locks

/-! ## Interleavings -/

section Interleavings

variable {decode : Decoder} {env : Dialect} {display : ℚ → String} {job : OriginJob decode}
  {pt : Point (OriginJob decode) String OriginDb YorishiroError OriginAnswer}

theorem wp_statement (f : OriginDb → Except YorishiroError OriginDb)
    {K : Unit → Point (OriginJob decode) String OriginDb YorishiroError OriginAnswer → Prop} :
    (statement f).wp (originDiscipline decode) job K pt ↔
      ∀ w, (originDiscipline decode).Rely pt.held pt.state w → ∀ v, pt.pending w.db = .ok v →
        (originDiscipline decode).met job pt.seen v → ∀ v', f v = .ok v' →
          K ()
            { pt with
              seen := pt.seen ++ [v]
              pending := fun d => (pt.pending d).bind f
              state := w } := Iff.rfl

/-- `create_schema` reads the active version under the version lock and commits what it makes
of it. -/
theorem wp_createVersion {tenantId workspaceId id : Uuid} {definition : MetaSchemaDefinition}
    {originTemplateId : Option Uuid} {originSnapshot : Option MetaSchemaDefinition} {now : Instant}
    {K : SchemaRecord × VersioningDiff →
      Point (OriginJob decode) String OriginDb YorishiroError OriginAnswer → Prop}
    (hpending : pt.pending = .ok)
    (hK : ∀ w w' version versioning seen pending,
      (originDiscipline decode).Rely pt.held pt.state w →
      (originDiscipline decode).Rely (versionLockKey workspaceId definition.name :: pt.held) w w' →
      pt.seen ++ [w.db] <+: seen →
      (∀ d d', pending d = .ok d' → Writes workspaceId id (versionRow tenantId definition version
        (inheritOrigin (latest (w.db.schemasOf workspaceId) (isActive definition.name))
          originTemplateId originSnapshot now))
        (latest (w.db.schemasOf workspaceId) (isActive definition.name)).isSome d d') →
      K (versionRow tenantId definition version (inheritOrigin
          (latest (w.db.schemasOf workspaceId) (isActive definition.name)) originTemplateId
          originSnapshot now), versioning)
        { held := versionLockKey workspaceId definition.name :: pt.held
          seen := seen
          pending := pending
          state := w' }) :
    (createVersion env display tenantId workspaceId definition originTemplateId originSnapshot id
      now).wp (originDiscipline decode) job K pt := by
  unfold createVersion
  rw [Script.wp_bind, Script.wp_ofExcept]
  intro _ _
  rw [Script.wp_bind, Script.wp_acquire]
  intro w₀ hw₀
  rw [Script.wp_bind, Script.wp_read]
  intro w hw v hv _
  have hview : v = w.db := by
    simp only [hpending] at hv
    exact (Except.ok.inj hv).symm
  subst hview
  rw [Script.wp_bind, Script.wp_read]
  intro w₁ hw₁ v₁ _ _
  have hpt : (originDiscipline decode).Rely pt.held pt.state w :=
    hw₀.trans (hw.weaken (List.subset_cons_self _ _))
  cases hprevious : (latest (w.db.schemasOf workspaceId) (isActive definition.name)).isSome with
  | true =>
      intro w₂ hw₂ v₂ _ _ _ _ w₃ hw₃ v₃ _ _ _ _ w₄ hw₄ v₄ _ _ _ _
      refine hK w w₄ _ _ _ _ hpt (hw₁.trans (hw₂.trans (hw₃.trans hw₄))) (by simp)
        fun d d' hd => ?_
      rw [hprevious]
      simp only [hpending] at hd
      exact writeVersion_eq_ok true hd
  | false =>
      intro w₃ hw₃ v₃ _ _ _ _ w₄ hw₄ v₄ _ _ _ _
      refine hK w w₄ _ _ _ _ hpt (hw₁.trans (hw₃.trans hw₄)) (by simp) fun d d' hd => ?_
      rw [hprevious]
      simp only [hpending] at hd
      exact writeVersion_eq_ok false hd

/-- What is committed joins the log. -/
theorem inv_commit {w : Fence.State (OriginJob decode) OriginDb OriginAnswer}
    (hw : (originDiscipline decode).inv w) {answer : OriginAnswer} {seen : List OriginDb}
    {d : OriginDb} (h : Committed decode job answer seen w.db d) :
    (originDiscipline decode).inv (w.commit job answer seen d) := by
  intro e he
  rcases List.mem_append.mp he with hold | hnew
  · exact hw e hold
  · rw [List.mem_singleton.mp hnew]
    exact h

/-- A list that begins with another one has its entries. -/
theorem view_of_earlier {xs ys : List OriginDb} (h : xs <+: ys) {n : Nat} {v : OriginDb}
    (hv : xs[n]? = some v) : ys[n]? = some v := by
  obtain ⟨zs, rfl⟩ := h
  rw [List.getElem?_append_left (List.getElem?_eq_some_iff.mp hv).1]
  exact hv

/-- A new version is committed under its lock. -/
theorem commits_writes {workspaceId id : Uuid} {row : SchemaRecord} {archives : Bool}
    {answer : OriginAnswer} (hheld : versionLockKey workspaceId row.name ∈ pt.held)
    (h : ∀ w, (originDiscipline decode).Rely pt.held pt.state w → ∀ d, pt.pending w.db = .ok d →
      Writes workspaceId id row archives w.db d ∧
        Committed decode job answer pt.seen w.db d) :
    (originDiscipline decode).Commits job answer pt := by
  intro w hw d hd
  obtain ⟨hwrites, hcommitted⟩ := h w hw d hd
  exact hwrites.allows (inv_commit hw.inv hcommitted) hheld

theorem wp_create {tenantId workspaceId id : Uuid} {definition : MetaSchemaDefinition}
    {now : Instant} {w : Fence.State (OriginJob decode) OriginDb OriginAnswer}
    (hjob : job = .create tenantId workspaceId id definition now) :
    (job.code env display).wp (originDiscipline decode) job ((originDiscipline decode).Commits job)
      ⟨[], [], .ok, w⟩ := by
  subst hjob
  simp only [OriginJob.code]
  rw [Script.wp_bind]
  refine wp_createVersion rfl fun w₁ w₂ version versioning seen pending _ hkept hseen hwrites => ?_
  rw [Script.wp_pure]
  refine commits_writes ?_ fun w₃ hw₃ d hd => ⟨hwrites _ d hd, ?_⟩
  · exact List.mem_cons_self
  · have hsame : SameVersions workspaceId definition.name w₁.db w₃.db :=
      ((hkept.trans hw₃).keeps _ List.mem_cons_self).1 workspaceId definition.name rfl
    exact .create (view_of_earlier hseen rfl) hsame (hwrites _ d hd)

/-- A caller that names the template inherits nothing. -/
theorem inheritOrigin_some (previous : Option (Uuid × SchemaRecord)) (templateId : Uuid)
    (snapshot : Option MetaSchemaDefinition) (now : Instant) :
    inheritOrigin previous (some templateId) snapshot now =
      (some templateId, snapshot, some now) := by
  cases previous with
  | none => rfl
  | some e => rfl

theorem wp_createFromTemplate {tenantId workspaceId templateId id : Uuid} {now : Instant}
    {w : Fence.State (OriginJob decode) OriginDb OriginAnswer}
    (hjob : job = .createFromTemplate tenantId workspaceId templateId id now) :
    (job.code env display).wp (originDiscipline decode) job ((originDiscipline decode).Commits job)
      ⟨[], [], .ok, w⟩ := by
  subst hjob
  simp only [OriginJob.code, createFromTemplate]
  rw [Script.wp_bind, Script.wp_bind, Script.wp_read]
  intro w₀ _ v _ _
  rw [Script.wp_bind, Script.wp_ofExcept]
  intro template hread
  refine wp_createVersion rfl fun w₁ w₂ version versioning seen pending _ _ hseen hwrites => ?_
  rw [Script.wp_pure]
  simp only [inheritOrigin_some] at hwrites ⊢
  refine commits_writes ?_ fun w₃ hw₃ d hd => ⟨hwrites _ d hd, ?_⟩
  · exact List.mem_cons_self
  · have hview : ([] ++ [v] ++ [w₁.db])[0]? = some v := rfl
    exact .createFromTemplate (view_of_earlier hseen hview) hread (hwrites _ d hd)

/-- `get_template` reads one row. -/
theorem getTemplate_congr {a b : Library} {tenantId id : Uuid}
    (h : a.templates.get? id = b.templates.get? id) :
    getTemplate decode a tenantId id = getTemplate decode b tenantId id := by
  unfold getTemplate
  rw [h]

/-- The local side is read first, the template under its lock. -/
theorem wp_mergeSides {tenantId workspaceId schemaId : Uuid}
    {w : Fence.State (OriginJob decode) OriginDb OriginAnswer}
    {K : MergeSides → Point (OriginJob decode) String OriginDb YorishiroError OriginAnswer → Prop}
    (hK : ∀ w₀ w₁ base template schema templateId,
      (w₀.db.schemasOf workspaceId).get? schemaId = some schema → schema.status = .active →
      schema.originTemplateId = some templateId → schema.originSnapshot = some base →
      (originDiscipline decode).Rely [] w₀ w₁ →
      getTemplate decode w₁.db.library tenantId templateId = .ok template →
      K ⟨base, template.definition, schema, templateId⟩
        { held := [templateOriginKey templateId]
          seen := [w₀.db, w₁.db]
          pending := .ok
          state := w₁ }) :
    (mergeSides decode tenantId workspaceId schemaId).wp (originDiscipline decode) job K
      ⟨[], [], .ok, w⟩ := by
  unfold mergeSides
  rw [Script.wp_bind, Script.wp_read]
  intro w₀ _ v₀ hv₀ _
  cases hv₀
  rw [Script.wp_bind, Script.wp_orFail]
  intro schema hschema
  rw [Script.wp_bind, Script.wp_failIf]
  intro hstatus
  rw [Script.wp_bind, Script.wp_orFail]
  intro templateId horigin
  rw [Script.wp_bind, Script.wp_acquire]
  intro w' hw'
  rw [Script.wp_bind, Script.wp_orFail]
  intro base hbase
  rw [Script.wp_bind, Script.wp_read]
  intro w₁ hw₁ v₁ hv₁ _
  cases hv₁
  rw [Script.wp_bind, Script.wp_ofExcept]
  intro template hread
  rw [Script.wp_pure]
  exact hK w₀ w₁ base template schema templateId hschema (not_not.mp hstatus) horigin hbase
    (hw'.trans (hw₁.weaken (List.nil_subset _))) hread

theorem wp_merge {tenantId workspaceId schemaId id : Uuid} {now : Instant}
    {w : Fence.State (OriginJob decode) OriginDb OriginAnswer}
    (hjob : job = .merge tenantId workspaceId schemaId id now) :
    (job.code env display).wp (originDiscipline decode) job ((originDiscipline decode).Commits job)
      ⟨[], [], .ok, w⟩ := by
  subst hjob
  simp only [OriginJob.code, mergeApply]
  rw [Script.wp_bind, Script.wp_bind]
  refine wp_mergeSides fun w₀ w₁ base template schema templateId hschema hactive horigin hbase
    hmoved hread => ?_
  simp only
  rw [Script.wp_bind, Script.wp_ofExcept]
  intro merged hmerged
  rw [Script.wp_bind]
  refine wp_createVersion rfl fun w₂ w₃ version versioning seen pending hw₂ hw₃ hseen
    hwrites => ?_
  simp only [inheritOrigin_some] at hwrites ⊢
  -- the statement that stamps the new version
  rw [Script.wp_bind, wp_statement]
  intro w₄ hw₄ v₄ _ _ _ _
  rw [Script.wp_pure, Script.wp_pure]
  have hstamped : ∀ d d', (pending d).bind (updateVersions workspaceId (isRow id)
        fun row => { row with originUpdatedAt := some now }) = .ok d' →
      Writes workspaceId id (versionRow tenantId merged version
        (some templateId, some template.definition, some now))
        (latest (w₂.db.schemasOf workspaceId) (isActive merged.name)).isSome d d' := by
    intro d d' h
    obtain ⟨d₁, hd₁, hstamp⟩ := Except.bind_eq_ok.mp h
    exact (hwrites d d₁ hd₁).stamp rfl hstamp
  refine commits_writes ?_ fun w₅ hw₅ d hd => ⟨hstamped _ d hd, ?_⟩
  · exact List.mem_cons_self
  · have hrely := hw₃.trans (hw₄.trans hw₅)
    have hsame : SameVersions workspaceId merged.name w₂.db w₅.db :=
      (hrely.keeps _ List.mem_cons_self).1 workspaceId merged.name rfl
    have hlibrary := hw₂.trans (hrely.weaken (List.subset_cons_self _ _))
    have htemplate := (hlibrary.keeps _ List.mem_cons_self).2 templateId rfl
    have hview : ∀ n v, ([w₀.db, w₁.db] ++ [w₂.db])[n]? = some v →
        (seen ++ [v₄])[n]? = some v :=
      fun n v h => view_of_earlier (hseen.trans (List.prefix_append _ _)) h
    exact .merge (hview 0 _ rfl) hschema hactive horigin hbase
      ((getTemplate_congr htemplate).trans hread) hmerged (hview 2 _ rfl)
      (hmoved.trans (hw₂.weaken (List.nil_subset _))).onward hsame (hstamped _ d hd)

/-- A change of a template is committed under its lock. -/
theorem commits_publishes (templateId : Uuid) (input : UpdateTemplateInput decode) (now : Instant)
    (told : List (Uuid × Uuid)) {answer : OriginAnswer}
    (hheld : templateOriginKey templateId ∈ pt.held)
    (h : ∀ w, (originDiscipline decode).Rely pt.held pt.state w → ∀ d, pt.pending w.db = .ok d →
      Publishes templateId input now told w.db d ∧ Committed decode job answer pt.seen w.db d) :
    (originDiscipline decode).Commits job answer pt := by
  intro w hw d hd
  obtain ⟨hpublishes, hcommitted⟩ := h w hw d hd
  exact hpublishes.allows (inv_commit hw.inv hcommitted) hheld

theorem wp_updateTemplate {tenantId templateId : Uuid} {input : UpdateTemplateInput decode}
    {now : Instant} {w : Fence.State (OriginJob decode) OriginDb OriginAnswer}
    (hjob : job = .updateTemplate tenantId templateId input now) :
    (job.code env display).wp (originDiscipline decode) job ((originDiscipline decode).Commits job)
      ⟨[], [], .ok, w⟩ := by
  subst hjob
  simp only [OriginJob.code, updateTemplate]
  rw [Script.wp_bind, Script.wp_bind, Script.wp_acquire]
  intro w₀ _
  rw [Script.wp_bind, Script.wp_ofExcept]
  intro _ _
  split_ifs with hempty hdefinition
  · -- nothing is given, nothing is written
    rw [Script.wp_bind, Script.wp_read]
    intro w₁ _ v _ _
    rw [Script.wp_ofExcept]
    intro record _
    rw [Script.wp_pure]
    intro w₂ hw₂ d hd
    cases hd
    exact ⟨inv_commit hw₂.inv .unchanged, .refl w₂.db, fun _ _ =>
      ⟨fun _ _ _ => .refl _ _ w₂.db, fun _ _ => rfl⟩⟩
  · rw [Script.wp_bind, Script.wp_read]
    intro w₁ _ v₁ _ _
    rw [Script.wp_bind, Script.wp_orFail]
    intro existing _
    rw [Script.wp_bind, Script.wp_update]
    intro w₂ _ v₂ _ _ record _ _
    rw [Script.wp_bind]
    unfold notifyUpstreamChange
    rw [Script.wp_bind, Script.wp_read]
    intro w₃ _ v₃ _ _
    rw [wp_statement]
    intro w₄ _ v₄ _ _ _ _
    rw [Script.wp_pure, Script.wp_pure]
    refine commits_publishes templateId input now (v₃.followers templateId) ?_
      fun w₅ hw₅ d hd => ?_
    · exact List.mem_cons_self
    · obtain ⟨d₁, hd₁, htold⟩ := Except.bind_eq_ok.mp hd
      obtain ⟨⟨record', _⟩, hwrite, rfl⟩ := Except.map_eq_ok hd₁
      have hpublishes := (writeTemplate_eq_ok hwrite).tell htold
      exact ⟨hpublishes, .publish (fun _ => ⟨v₃, rfl, rfl⟩) hpublishes⟩
  · rw [Script.wp_bind, Script.wp_read]
    intro w₁ _ v₁ _ _
    rw [Script.wp_bind, Script.wp_orFail]
    intro existing _
    rw [Script.wp_bind, Script.wp_update]
    intro w₂ _ v₂ _ _ record _ _
    rw [Script.wp_pure, Script.wp_pure]
    refine commits_publishes templateId input now [] ?_ fun w₅ hw₅ d hd => ?_
    · exact List.mem_cons_self
    · obtain ⟨⟨record', _⟩, hwrite, rfl⟩ := Except.map_eq_ok hd
      have hpublishes := writeTemplate_eq_ok hwrite
      exact ⟨hpublishes, .publish (fun hsome => absurd hsome hdefinition) hpublishes⟩

/-- **Every request commits what it should**, whatever runs beside it. -/
theorem verified_code (env : Dialect) (display : ℚ → String) :
    Verified (originDiscipline decode) (OriginJob.code env display) := by
  intro job w _
  cases job with
  | create tenantId workspaceId id definition now => exact wp_create rfl
  | createFromTemplate tenantId workspaceId templateId id now => exact wp_createFromTemplate rfl
  | merge tenantId workspaceId schemaId id now => exact wp_merge rfl
  | updateTemplate tenantId templateId input now => exact wp_updateTemplate rfl

/-- No transactions but these write the tables. -/
def noOther : Empty → OriginDb → OriginDb := nofun

/-- The state after the transactions have been interleaved in some way. -/
def runOrigin (env : Dialect) (display : ℚ → String) (db : OriginDb)
    (is : List (Event (OriginJob decode) Empty)) :
    Fence.Server (OriginJob decode) String OriginDb YorishiroError OriginAnswer :=
  Transition.run (Server.step (OriginJob.code env display) noOther) (Server.init db) is

theorem sound_runOrigin (env : Dialect) (display : ℚ → String) (db : OriginDb)
    (is : List (Event (OriginJob decode) Empty)) :
    (runOrigin env display db is).Sound (originDiscipline decode) := by
  refine Server.sound_run (verified_code env display) (fun e => nomatch e) ?_ ?_
  · intro e he
    cases he
  · exact Server.stepsMeet (fun _ _ _ => trivial) _ is

/-- **Every commit of every interleaving is as it should be.** -/
theorem committed_run (env : Dialect) (display : ℚ → String) (db : OriginDb)
    (is : List (Event (OriginJob decode) Empty)) :
    ∀ e ∈ (runOrigin env display db is).state.log,
      Committed decode e.job e.result e.seen e.before e.after :=
  (sound_runOrigin env display db is).inv

/-- **A transaction that runs alone** is committed as in an interleaving. -/
theorem committed_alone {db db' : OriginDb} {answer : OriginAnswer}
    (h : (job.code env display).alone db = .ok (answer, db')) :
    Committed decode job answer ((job.code env display).views db) db db' := by
  obtain ⟨held, hallows⟩ := (verified_code env display).alone (w := ⟨db, []⟩)
    (fun e he => by cases he) (fun _ _ => trivial) h
  exact hallows.inv _ (List.mem_append_right _ List.mem_cons_self)

end Interleavings

end Yorishiro.Schema
