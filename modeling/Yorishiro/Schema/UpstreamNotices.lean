import Yorishiro.Schema.LostEdits

/-!
# Reports of upstream changes

An active version that follows a template is reported as behind it while `origin_updated_at` is
null. `ChangesReported` asks that every version whose snapshot is not what its template says is
reported. Publication and merges share a lock of the template, but `create_schema` does not take
it: a version is stored with a mark that an update has meanwhile withdrawn, or beside an update
that does not see it (`not_changesReported_updatedCopy`). `changesReported_run` says what the
requests must meet for every report to be made.
-/

set_option autoImplicit false

namespace Yorishiro.Schema

open Yorishiro.Lib Yorishiro.Lib.Fence Yorishiro.Lib.JsonSchema Yorishiro.Metaschema
open Yorishiro.Queue (Instant)
open Yorishiro.Template

section Reports

variable {decode : Decoder}

/-- The version is reported, or its snapshot is what its template says. -/
def Reported (decode : Decoder) (library : Library) (row : SchemaRecord) : Prop :=
  ∀ templateId template definition, row.follows templateId = true →
    library.templates.get? templateId = some template →
      decode template.definition = .ok definition →
        row.originSnapshot ≠ some definition → row.originUpdatedAt = none

/-- **Every upstream change is reported**: an active version with another snapshot than its
template's definition has a pending mark. -/
def ChangesReported (decode : Decoder) (db : OriginDb) : Prop :=
  ∀ l id row, (db.schemasOf l).get? id = some row → row.status = .active →
    Reported decode db.library row

/-- The versions with an origin are linked to it. -/
def Linked (db : OriginDb) : Prop :=
  ∀ l id row, (db.schemasOf l).get? id = some row → row.originTemplateId.isSome = true →
    row.originStatus = .linked

/-- What was read is still so when the request is committed. A new version inherits the mark its
predecessor still has, a copy of a template has the definition the template still has, and an
update has told every follower that is reported to be up to date. -/
def InTime (job : OriginJob decode) (views : List OriginDb) (d : OriginDb) : Prop :=
  match job with
  | .create _ workspaceId _ definition _ =>
      ∀ v id row row', views[0]? = some v →
        latest (v.schemasOf workspaceId) (isActive definition.name) = some (id, row) →
          (d.schemasOf workspaceId).get? id = some row' →
            row'.originUpdatedAt = row.originUpdatedAt
  | .createFromTemplate tenantId _ templateId _ _ =>
      ∀ v template row definition, views[0]? = some v →
        getTemplate decode v.library tenantId templateId = .ok template →
          d.library.templates.get? templateId = some row →
            decode row.definition = .ok definition → definition = template.definition
  | .merge .. => True
  | .updateTemplate _ templateId input _ =>
      input.definition.isSome = true → ∀ v l id row, views[2]? = some v →
        (d.schemasOf l).get? id = some row → row.status = .active →
          row.follows templateId = true → row.originUpdatedAt.isSome = true →
            (l, id) ∈ v.followers templateId

/-! ## What a request keeps -/

/-- `get_template` returns what the template's stored definition reads as. -/
theorem getTemplate_eq_ok {library : Library} {tenantId id : Uuid} {template : TemplateRecord}
    (h : getTemplate decode library tenantId id = .ok template) :
    (∃ row, library.templates.get? id = some row ∧
      decode row.definition = .ok template.definition) ∧ template.id = id := by
  unfold getTemplate at h
  split at h
  · rename_i row hrow
    obtain ⟨hstored, -⟩ := Option.filter_eq_some_iff.mp hrow
    refine ⟨⟨row, hstored, (TemplateRow.toRecord_eq_ok h).1⟩, ?_⟩
    unfold TemplateRow.toRecord at h
    obtain ⟨_, -, h⟩ := Except.bind_eq_ok.mp h
    obtain ⟨_, -, h⟩ := Except.bind_eq_ok.mp h
    cases h
    rfl
  · cases h

theorem Reported.congr {a b : Library} {row : SchemaRecord} (h : Reported decode a row)
    (hsame : ∀ t, row.follows t = true → b.templates.get? t = a.templates.get? t) :
    Reported decode b row := by
  intro t template definition hfollows htemplate
  rw [hsame t hfollows] at htemplate
  exact h t template definition hfollows htemplate

theorem Writes.linked {workspaceId id : Uuid} {row : SchemaRecord} {archives : Bool}
    {d d' : OriginDb} (h : Writes workspaceId id row archives d d')
    (hrow : row.originTemplateId.isSome = true → row.originStatus = .linked) (hd : Linked d) :
    Linked d' := by
  intro l k r hr
  rw [h.rows] at hr
  split_ifs at hr
  · cases hr
    exact hrow
  · obtain ⟨r₀, hr₀, rfl⟩ := Option.map_eq_some_iff.mp hr
    split_ifs
    · exact hd l k r₀ hr₀
    · exact hd l k r₀ hr₀

/-- A new version that is reported joins those that are. -/
theorem Writes.changesReported {workspaceId id : Uuid} {row : SchemaRecord} {archives : Bool}
    {d d' : OriginDb} (h : Writes workspaceId id row archives d d')
    (hrow : Reported decode d.library row) (hd : ChangesReported decode d) :
    ChangesReported decode d' := by
  intro l k r hr hactive
  rw [h.library]
  rw [h.rows] at hr
  split_ifs at hr
  · cases hr
    exact hrow
  · obtain ⟨r₀, hr₀, rfl⟩ := Option.map_eq_some_iff.mp hr
    by_cases harchived : l = workspaceId ∧ (archives && isActive row.name r₀) = true
    · rw [if_pos harchived] at hactive
      cases hactive
    · rw [if_neg harchived] at hactive ⊢
      exact hd l k r₀ hr₀ hactive

section Publication

variable {templateId : Uuid} {input : UpdateTemplateInput decode} {now : Instant}
  {told : List (Uuid × Uuid)} {d d' : OriginDb}

theorem Publishes.linked (h : Publishes templateId input now told d d') (hd : Linked d) :
    Linked d' := by
  intro l k r hr
  rw [h.rows] at hr
  obtain ⟨r₀, hr₀, rfl⟩ := Option.map_eq_some_iff.mp hr
  split_ifs
  · exact hd l k r₀ hr₀
  · exact hd l k r₀ hr₀

/-- An update without a definition leaves the definition alone. -/
theorem definition_apply (input : UpdateTemplateInput decode) (now : Instant) (row : TemplateRow)
    (h : input.definition.isSome = false) : (input.apply now row).definition = row.definition := by
  unfold UpdateTemplateInput.apply
  rw [Option.isSome_eq_false_iff, Option.isNone_iff_eq_none] at h
  rw [h]
  rfl

/-- An update that tells every follower reports the change. -/
theorem Publishes.changesReported (h : Publishes templateId input now told d d')
    (htold : input.definition.isSome = true → ∀ l k row, (d.schemasOf l).get? k = some row →
      row.status = .active → row.follows templateId = true → row.originUpdatedAt.isSome = true →
        (l, k) ∈ told) (hd : ChangesReported decode d) : ChangesReported decode d' := by
  intro l k r hr hactive t template definition hfollows htemplate hdefinition hsnapshot
  rw [h.rows] at hr
  obtain ⟨r₀, hr₀, rfl⟩ := Option.map_eq_some_iff.mp hr
  split_ifs at hactive hfollows hsnapshot ⊢ with hcase
  · rfl
  · rw [h.templates] at htemplate
    split_ifs at htemplate with ht
    · subst ht
      obtain ⟨row, hrow, rfl⟩ := Option.map_eq_some_iff.mp htemplate
      cases hinput : input.definition.isSome with
      | false =>
          rw [definition_apply input now row hinput] at hdefinition
          exact hd l k r₀ hr₀ hactive t row definition hfollows hrow hdefinition hsnapshot
      | true =>
          by_contra hmark
          exact hcase ⟨htold hinput l k r₀ hr₀ hactive hfollows (Option.isSome_iff_ne_none.mpr
            hmark), hfollows⟩
    · exact hd l k r₀ hr₀ hactive t template definition hfollows htemplate hdefinition hsnapshot

end Publication

/-- **Step lemma.** A request that is in time keeps every change reported. -/
theorem Committed.changesReported {job : OriginJob decode} {answer : OriginAnswer}
    {views : List OriginDb} {d d' : OriginDb} (h : Committed decode job answer views d d')
    (hlinked : Linked d) (hd : ChangesReported decode d) (htime : InTime job views d) :
    Linked d' ∧ ChangesReported decode d' := by
  cases h with
  | @create tenantId workspaceId id definition now version versioning _ v _ _ hview hsame hwrites =>
      refine ⟨hwrites.linked (fun horigin => if_pos horigin) hlinked,
        hwrites.changesReported ?_ hd⟩
      cases hprevious : latest (v.schemasOf workspaceId) (isActive definition.name) with
      | none =>
          -- the first version of a name follows nothing
          intro t template d' hfollows
          have hnone := of_decide_eq_true (Bool.and_eq_true_iff.mp hfollows).1
          cases hnone
      | some e =>
          -- the predecessor is still active, and by the condition its mark is the one inherited
          have hlatest := hsame.latest
          rw [hprevious, Option.map_some] at hlatest
          obtain ⟨⟨l, active⟩, hfound, hpending⟩ := Option.map_eq_some_iff.mp hlatest.symm
          obtain ⟨rfl, hpending⟩ := Prod.mk.inj hpending
          obtain ⟨hactive, hstatus⟩ := latest_eq_some hfound
          obtain ⟨-, -, htemplate, -, hsnapshot⟩ := SchemaRecord.of_fixed
            (SchemaRecord.fixed_of_pending hpending)
          have hmark := htime v e.1 e.2 active hview hprevious hactive
          intro t template d' hfollows hstored hread hdiffers
          have horigin : e.2.originTemplateId = some t :=
            of_decide_eq_true (Bool.and_eq_true_iff.mp hfollows).1
          refine hmark.symm.trans (hd workspaceId e.1 active hactive
            (of_decide_eq_true (Bool.and_eq_true_iff.mp hstatus).2) t template d' ?_ hstored hread
            (fun heq => hdiffers (hsnapshot.symm.trans heq)))
          have hlink := hlinked workspaceId e.1 active hactive (by rw [htemplate, horigin]; rfl)
          exact Bool.and_eq_true_iff.mpr
            ⟨decide_eq_true (htemplate.trans horigin), decide_eq_true hlink⟩
  | @createFromTemplate tenantId workspaceId templateId id now template version versioning archives
      _ v _ _ hview hread hwrites =>
      refine ⟨hwrites.linked (fun _ => rfl) hlinked, hwrites.changesReported ?_ hd⟩
      intro t row definition hfollows hstored hdecode hdiffers
      obtain ⟨-, hid⟩ := getTemplate_eq_ok hread
      have ht : templateId = t := hid.symm.trans (Option.some.inj
        (of_decide_eq_true (Bool.and_eq_true_iff.mp hfollows).1))
      subst ht
      exact absurd (congrArg some (htime v template row definition hview hread hstored hdecode).symm)
        hdiffers
  | @merge tenantId workspaceId schemaId id templateId now schema base merged template version
      versioning archives _ v₀ v₂ _ _ hlocal hschema hactive horigin hbase hread hmerged hview
      hkept hsame hwrites =>
      refine ⟨hwrites.linked (fun _ => rfl) hlinked, hwrites.changesReported ?_ hd⟩
      intro t row definition hfollows hstored hdecode hdiffers
      have ht : templateId = t := Option.some.inj
        (of_decide_eq_true (Bool.and_eq_true_iff.mp hfollows).1)
      subst ht
      -- the lock of the template kept it as the merge read it
      obtain ⟨⟨row', hrow', hdecode'⟩, -⟩ := getTemplate_eq_ok hread
      obtain rfl := Option.some.inj (hstored.symm.trans hrow')
      exact absurd (congrArg some (Except.ok.inj (hdecode'.symm.trans hdecode))) hdiffers
  | unchanged => exact ⟨hlinked, hd⟩
  | @publish tenantId templateId input now record told _ _ _ htold hpublishes =>
      refine ⟨hpublishes.linked hlinked, hpublishes.changesReported ?_ hd⟩
      intro hsome l k row hrow hactive hfollows hmark
      obtain ⟨v, hview, rfl⟩ := htold hsome
      exact htime hsome v l k row hview hrow hactive hfollows hmark

/-- **When every upstream change is reported.** In a run whose commits are in time, every change
is reported in every state reached. -/
theorem changesReported_run (env : Dialect) (display : ℚ → String) (db : OriginDb)
    (hlinked : Linked db) (hdb : ChangesReported decode db)
    (is : List (Event (OriginJob decode) Empty))
    (htime : ∀ e ∈ (runOrigin env display db is).state.log, InTime e.job e.seen e.before) :
    ∀ done, done <+: is → ChangesReported decode (runOrigin env display db done).state.db := by
  rintro done ⟨rest, rfl⟩
  refine (Server.log_invariant (Q := fun d => Linked d ∧ ChangesReported decode d)
    (fun e => nomatch e) ⟨hlinked, hdb⟩ fun e he hbefore => ?_).2
  refine (committed_run env display db done e he).changesReported hbefore.1 hbefore.2 (htime e ?_)
  -- what is committed after the first part is committed after the whole
  unfold runOrigin at he ⊢
  rw [Transition.run_append]
  exact (Server.log_prefix_run _ _ _ rest).subset he

end Reports

/-! ## A change that is not reported -/

/-- Reads the two definitions. -/
def notesDecoder : Decoder := fun value =>
  if value = blankDefinition.toJson then .ok blankDefinition
  else if value = taskDefinition.toJson then .ok taskDefinition
  else .error "missing field"

/-- The update that gives the template its second definition. -/
def publishTasks : OriginJob notesDecoder :=
  .updateTemplate 1 1 ⟨none, none, some ⟨taskDefinition, taskDefinition.toJson, rfl⟩, none, none⟩ 8

/-- A schema is made from the template, which is updated after the first `early` statements. -/
def updatedCopy (early : Nat) : List (Event (OriginJob notesDecoder) Empty) :=
  .start 0 (.createFromTemplate 1 5 1 10 7) :: Event.steps 0 early ++
    .start 1 publishTasks :: Event.steps 1 6 ++ Event.steps 0 7

/-- The state after such a run. -/
def updatedNotes (is : List (Event (OriginJob notesDecoder) Empty)) :
    Fence.Server (OriginJob notesDecoder) String OriginDb YorishiroError OriginAnswer :=
  runOrigin lenientDialect (fun _ => "") notesDb is

/-- The copy has read the template when its update is committed, and is stored as up to date. -/
theorem not_changesReported_updatedCopy :
    (updatedNotes (updatedCopy 1)).sessions.entries = [] ∧
      ¬ ChangesReported notesDecoder (updatedNotes (updatedCopy 1)).state.db := by
  refine ⟨rfl, fun h => ?_⟩
  have hmark := h 5 10 _ rfl rfl 1 _ taskDefinition rfl rfl rfl fun hsnapshot => by
    have hkeys := congrArg (Option.map fun d => d.entityTypes.keys) hsnapshot
    change some ["note"] = some ["note", "task"] at hkeys
    cases hkeys
  cases hmark

/-- The workspace has no version to begin with. -/
theorem schemasOf_notesDb {l id : Uuid} {row : SchemaRecord} :
    (notesDb.schemasOf l).get? id ≠ some row := by
  intro hrow
  obtain ⟨space, hspace, hrow⟩ := OriginDb.get?_schemasOf.mp hrow
  cases List.mem_singleton.mp ((OrderedMap.mem_entries_iff notesDb.spaces l space).mpr hspace)
  cases hrow

/-- A copy that is stored before the update is reported. -/
theorem changesReported_run_updatedCopy :
    ((updatedNotes (updatedCopy 7)).state.db.schemasOf 5).rows.count (fun _ r =>
        r.originUpdatedAt.isNone) = 1 ∧
      ChangesReported notesDecoder (updatedNotes (updatedCopy 7)).state.db := by
  refine ⟨rfl, changesReported_run lenientDialect (fun _ => "") notesDb ?_ ?_ (updatedCopy 7) ?_ _
    List.prefix_rfl⟩
  · exact fun l id row hrow => absurd hrow schemasOf_notesDb
  · exact fun l id row hrow => absurd hrow schemasOf_notesDb
  · intro e he
    rcases List.mem_cons.mp he with rfl | he
    · intro v template row definition hv hread hstored hdecode
      cases hv
      cases hread
      cases hstored
      cases hdecode
      rfl
    · obtain rfl := List.mem_singleton.mp he
      intro _ v l id row hv hrow _ hfollows _
      cases hv
      exact mem_followers_iff.mpr ⟨row, hrow, hfollows⟩

end Yorishiro.Schema
