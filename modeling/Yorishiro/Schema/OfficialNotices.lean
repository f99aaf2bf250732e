import Yorishiro.Schema.UpstreamNotices

/-!
# Reports of changes, operation by operation

The requests of `Schema.Origin` one after the other, none beside another, and the seeding of the
built-in templates between them. A request that runs alone is always in time, but seeding writes
the official templates by a statement of its own and tells nobody
(`not_changesReported_reseeded`). `changesReported_ops` says which seedings keep every change
reported.
-/

set_option autoImplicit false

namespace Yorishiro.Schema

open Yorishiro.Lib Yorishiro.Lib.Fence Yorishiro.Lib.JsonSchema Yorishiro.Metaschema
open Yorishiro.Queue (Instant)
open Yorishiro.Template Yorishiro.Template.Marketplace

/-! ## Operations -/

/-- A request that runs alone, or a round of seeding. -/
inductive OriginOp (decode : Decoder) where
  | request (job : OriginJob decode)
  | seed (officialTenantId : Uuid) (builtins : List (BuiltinTemplate decode × SeedIds))
      (now : Instant)

section Operations

variable {decode : Decoder} (env : Dialect) (display : ℚ → String) (backend : Backend)

/-- The database after an operation, which leaves it alone where it fails. Seeding keeps what it
has written. -/
def originStep (db : OriginDb) : OriginOp decode → OriginDb
  | .request job =>
      match (job.code env display).alone db with
      | .ok (_, db') => db'
      | .error _ => db
  | .seed officialTenantId builtins now =>
      db.withLibrary
        (seedOfficialTemplates backend officialTenantId now db.library builtins ⟨[], [], []⟩).1

/-- Every schema version follows a template that is there. -/
def Anchored (db : OriginDb) : Prop :=
  ∀ l id row t, (db.schemasOf l).get? id = some row → row.originTemplateId = some t →
    (db.library.templates.get? t).isSome = true

/-- Seeding changes nothing for those who are up to date: an active follower without a pending
mark of the official template of a built-in was made from that built-in's definition. -/
def SeedsQuietly (db : OriginDb) : OriginOp decode → Prop
  | .request _ => True
  | .seed officialTenantId builtins _ =>
      ∀ e ∈ builtins, ∀ t template, db.library.templates.get? t = some template →
        template.tenantId = officialTenantId → template.name = e.1.id →
          ∀ l id row, (db.schemasOf l).get? id = some row → row.status = .active →
            row.follows t = true → row.originUpdatedAt.isSome = true →
              row.originSnapshot = some e.1.definition.definition

end Operations

/-! ## Requests that run alone -/

section Alone

variable {decode : Decoder} {env : Dialect} {display : ℚ → String}

/-- No follower is lost. -/
def KeepsFollowers (a b : OriginDb) : Prop :=
  ∀ t l id, (l, id) ∈ a.followers t → (l, id) ∈ b.followers t

theorem keepsFollowers_of_rows {a b : OriginDb}
    (h : ∀ l id row, (a.schemasOf l).get? id = some row →
      ∃ row', (b.schemasOf l).get? id = some row' ∧ ∀ t, row'.follows t = row.follows t) :
    KeepsFollowers a b := by
  intro t l id hmem
  obtain ⟨row, hrow, hfollows⟩ := mem_followers_iff.mp hmem
  obtain ⟨row', hrow', hsame⟩ := h l id row hrow
  exact mem_followers_iff.mpr ⟨row', hrow', (hsame t).trans hfollows⟩

theorem Publishes.keepsFollowers {templateId : Uuid} {input : UpdateTemplateInput decode}
    {now : Instant} {told : List (Uuid × Uuid)} {d d' : OriginDb}
    (h : Publishes templateId input now told d d') : KeepsFollowers d d' := by
  refine keepsFollowers_of_rows fun l id row hrow => ?_
  refine ⟨_, (h.rows l id).trans (by rw [hrow, Option.map_some]), fun t => ?_⟩
  split_ifs
  · rfl
  · rfl

/-- The statements of an update leave the followers of each template alone. -/
theorem within_updateTemplate {tenantId templateId : Uuid} {input : UpdateTemplateInput decode}
    {now : Instant} :
    Script.Within KeepsFollowers (updateTemplate env display tenantId templateId input now) := by
  have hwrite : ∀ s record s', writeTemplate templateId input now s = .ok (record, s') →
      KeepsFollowers s s' := fun s record s' h => (writeTemplate_eq_ok h).keepsFollowers
  have hnotify : Script.Within KeepsFollowers (notifyUpstreamChange templateId) := by
    refine (Script.within_read _).bind fun told => .exec (fun s s' h => ?_) fun _ => .done ()
    obtain ⟨-, hrows⟩ := foldlM_markPending h
    refine keepsFollowers_of_rows fun l id row hrow => ?_
    refine ⟨_, (hrows l id).trans (by rw [hrow, Option.map_some]), fun t => ?_⟩
    split_ifs
    · rfl
    · rfl
  unfold updateTemplate
  refine (Script.within_acquire _).bind fun _ => (Script.within_ofExcept _).bind fun _ => ?_
  split_ifs
  · exact (Script.within_read _).bind fun found => Script.within_ofExcept found
  · refine (Script.within_read _).bind fun existing => (Script.within_orFail _ existing).bind
      fun _ => (Script.within_update hwrite).bind fun record => ?_
    exact hnotify.bind fun _ => Script.within_pure record
  · refine (Script.within_read _).bind fun existing => (Script.within_orFail _ existing).bind
      fun _ => (Script.within_update hwrite).bind fun record => ?_
    exact Script.within_pure record

/-- **A request that runs alone is in time.** -/
theorem inTime_alone {job : OriginJob decode} {db : OriginDb} :
    InTime job ((job.code env display).views db) db := by
  cases job with
  | create tenantId workspaceId id definition now =>
      intro v l row row' hview hlatest hrow
      obtain rfl := Script.views_zero hview
      obtain ⟨hstored, -⟩ := latest_eq_some hlatest
      exact congrArg SchemaRecord.originUpdatedAt (Option.some.inj (hrow.symm.trans hstored))
  | createFromTemplate tenantId workspaceId templateId id now =>
      intro v template row definition hview hread hstored hdecode
      obtain rfl := Script.views_zero hview
      obtain ⟨⟨row', hrow', hdecode'⟩, -⟩ := getTemplate_eq_ok hread
      obtain rfl := Option.some.inj (hstored.symm.trans hrow')
      exact Except.ok.inj (hdecode.symm.trans hdecode')
  | merge tenantId workspaceId schemaId id now => trivial
  | updateTemplate tenantId templateId input now =>
      intro _ v l id row hview hrow _ hfollows _
      have hwithin : Script.Within KeepsFollowers
          (OriginJob.code env display (.updateTemplate tenantId templateId input now)) :=
        within_updateTemplate.bind fun _ => Script.within_pure _
      refine hwithin.views (fun s t l id h => h) (fun _ _ _ h h' t l id hmem => h' t l id
        (h t l id hmem)) (List.mem_of_getElem? hview) templateId l id ?_
      exact mem_followers_iff.mpr ⟨row, hrow, hfollows⟩

theorem Writes.anchored {workspaceId id : Uuid} {row : SchemaRecord} {archives : Bool}
    {d d' : OriginDb} (h : Writes workspaceId id row archives d d')
    (hrow : ∀ t, row.originTemplateId = some t → (d.library.templates.get? t).isSome = true)
    (hd : Anchored d) : Anchored d' := by
  intro l k r t hr horigin
  rw [h.library]
  rw [h.rows] at hr
  split_ifs at hr
  · cases hr
    exact hrow t horigin
  · obtain ⟨r₀, hr₀, rfl⟩ := Option.map_eq_some_iff.mp hr
    refine hd l k r₀ t hr₀ ?_
    split_ifs at horigin
    · exact horigin
    · exact horigin

theorem Publishes.anchored {templateId : Uuid} {input : UpdateTemplateInput decode}
    {now : Instant} {told : List (Uuid × Uuid)} {d d' : OriginDb}
    (h : Publishes templateId input now told d d') (hd : Anchored d) : Anchored d' := by
  intro l k r t hr horigin
  rw [h.rows] at hr
  obtain ⟨r₀, hr₀, rfl⟩ := Option.map_eq_some_iff.mp hr
  have hstored : (d.library.templates.get? t).isSome = true := by
    refine hd l k r₀ t hr₀ ?_
    split_ifs at horigin
    · exact horigin
    · exact horigin
  rw [h.templates]
  split_ifs
  · rw [Option.isSome_map]
    exact hstored
  · exact hstored

/-- A request that runs alone follows templates that are there. -/
theorem anchored_alone {job : OriginJob decode} {answer : OriginAnswer} {db db' : OriginDb}
    (h : (job.code env display).alone db = .ok (answer, db')) (hdb : Anchored db) :
    Anchored db' := by
  have hfirst : ∀ v, ((job.code env display).views db)[0]? = some v → v = db :=
    fun v hv => Script.views_zero hv
  have hcommitted := committed_alone h
  generalize (job.code env display).views db = views at hcommitted hfirst
  cases hcommitted with
  | @create tenantId workspaceId id definition now version versioning _ v _ _ hview hsame hwrites =>
      refine hwrites.anchored (fun t horigin => ?_) hdb
      obtain rfl := hfirst v hview
      cases hprevious : latest (v.schemasOf workspaceId) (isActive definition.name) with
      | none =>
          rw [hprevious] at horigin
          cases horigin
      | some e =>
          rw [hprevious] at horigin
          exact hdb workspaceId e.1 e.2 t (latest_eq_some hprevious).1 horigin
  | @createFromTemplate tenantId workspaceId templateId id now template version versioning archives
      _ v _ _ hview hread hwrites =>
      refine hwrites.anchored (fun t horigin => ?_) hdb
      obtain rfl := hfirst v hview
      obtain ⟨⟨row, hrow, -⟩, hid⟩ := getTemplate_eq_ok hread
      cases horigin
      rw [hid, hrow]
      rfl
  | @merge tenantId workspaceId schemaId id templateId now schema base merged template version
      versioning archives _ v₀ v₂ _ _ hlocal hschema hactive horigin hbase hread hmerged hview
      hkept hsame hwrites =>
      refine hwrites.anchored (fun t horigin => ?_) hdb
      obtain ⟨⟨row, hrow, -⟩, -⟩ := getTemplate_eq_ok hread
      cases horigin
      rw [hrow]
      rfl
  | unchanged => exact hdb
  | publish htold hpublishes => exact hpublishes.anchored hdb

end Alone

/-! ## Seeding -/

section Seeding

variable {decode : Decoder} {officialTenantId : Uuid}
  {rounds : List (BuiltinTemplate decode × SeedIds)} {now : Instant}

/-- A template after some rounds of seeding: it is as it was, or was not there, or has the
definition of the built-in of its name. -/
def Refreshed (officialTenantId : Uuid) (rounds : List (BuiltinTemplate decode × SeedIds))
    (a b : Option TemplateRow) : Prop :=
  b = a ∨ a = none ∨ ∃ e ∈ rounds, ∃ row row', a = some row ∧ b = some row' ∧
    row'.tenantId = row.tenantId ∧ row'.name = row.name ∧ row.tenantId = officialTenantId ∧
      row.name = e.1.id ∧ row'.definition = e.1.definition.definition.toJson

/-- `upsert_template` refreshes one template. -/
theorem Refreshed.upsert {e : BuiltinTemplate decode × SeedIds} (he : e ∈ rounds)
    {start : Uuid → Option TemplateRow} {lib lib' : Library} {templateId : Uuid}
    (h : ∀ t, Refreshed officialTenantId rounds (start t) (lib.templates.get? t))
    (hok : upsertTemplate officialTenantId lib e.2.templateId e.1.id
      e.1.definition.definition.description e.1.definition.definition.toJson now =
        .ok (lib', templateId)) (t : Uuid) :
    Refreshed officialTenantId rounds (start t) (lib'.templates.get? t) := by
  unfold upsertTemplate at hok
  split at hok
  · rename_i _ row₁ hfind
    obtain ⟨⟨templates, n⟩, hupdate, hok⟩ := Except.bind_eq_ok.mp hok
    cases hok
    have hupdated := Except.mapError_eq_ok hupdate
    have hget := Table.get?_updateWhere hupdated
    have hstored := (OrderedMap.mem_entries_iff _ templateId row₁).mp (List.mem_of_find?_eq_some hfind)
    have hfound := List.find?_some hfind
    obtain ⟨htenant, hname⟩ := Bool.and_eq_true_iff.mp hfound
    by_cases ht : t = templateId
    · subst ht
      have hafter := hget t
      rw [show lib.templates.get? t = some row₁ from hstored, Option.map_some, if_pos (by simp)]
        at hafter
      rcases h t with hsame | hnone | ⟨_, _, row, row', hrow, hrow', htenant', hname', -⟩
      · exact Or.inr (Or.inr ⟨e, he, row₁, _, hsame.symm.trans hstored, hafter, rfl, rfl,
          of_decide_eq_true htenant, of_decide_eq_true hname, rfl⟩)
      · exact Or.inr (Or.inl hnone)
      · obtain rfl := Option.some.inj (hstored.symm.trans hrow')
        exact Or.inr (Or.inr ⟨e, he, row, _, hrow, hafter, htenant', hname',
          htenant'.symm.trans (of_decide_eq_true htenant),
          hname'.symm.trans (of_decide_eq_true hname), rfl⟩)
    · have hsame : (lib.withTemplates templates).templates.get? t = lib.templates.get? t := by
        refine (hget t).trans ?_
        simp [ht]
      rw [hsame]
      exact h t
  · obtain ⟨templates, hinsert, hok⟩ := Except.bind_eq_ok.mp hok
    cases hok
    have hok := Except.mapError_eq_ok hinsert
    have hget : (lib.withTemplates templates).templates.get? t =
        if t = e.2.templateId then _ else lib.templates.get? t := Table.get?_insert hok t
    rw [hget]
    split_ifs with ht
    · -- a new template takes the id of none that is there
      subst ht
      have hfree := (Table.insert_eq_ok hok).1
      rcases h e.2.templateId with hsame | hnone | ⟨_, _, row, row', -, hrow', -⟩
      · exact Or.inr (Or.inl (hsame.symm.trans hfree))
      · exact Or.inr (Or.inl hnone)
      · rw [hfree] at hrow'
        cases hrow'
    · exact h t

variable (officialTenantId rounds now) in
theorem seedOfficialTemplates_refreshed (backend : Backend) (lib : Library)
    (outcome : SeedOutcome) (t : Uuid) :
    Refreshed officialTenantId rounds (lib.templates.get? t)
      ((seedOfficialTemplates backend officialTenantId now lib rounds outcome).1.templates.get? t) :=
  seedOfficialTemplates_keeps officialTenantId
    (P := fun templates => ∀ t, Refreshed officialTenantId rounds (lib.templates.get? t)
      (templates.get? t))
    (fun _ he _ _ _ hlib hok => Refreshed.upsert he hlib hok) (fun _ => Or.inl rfl) t

/-- Seeding that finds no follower up to date with another definition keeps every change
reported. -/
theorem seed_keeps (hdecode : decode.Faithful) (db : OriginDb) {db' : OriginDb}
    (hschemas : ∀ l, db'.schemasOf l = db.schemasOf l)
    (hrefreshed : ∀ t, Refreshed officialTenantId rounds (db.library.templates.get? t)
      (db'.library.templates.get? t))
    (hanchored : Anchored db) (hdb : ChangesReported decode db)
    (hquiet : SeedsQuietly db (.seed officialTenantId rounds now)) :
    Anchored db' ∧ ChangesReported decode db' := by
  constructor
  · intro l id row t hrow horigin
    rw [hschemas] at hrow
    have hbefore := hanchored l id row t hrow horigin
    rcases hrefreshed t with hsame | hnone | ⟨_, _, _, row', _, hrow', -⟩
    · rw [hsame]
      exact hbefore
    · rw [hnone] at hbefore
      cases hbefore
    · rw [hrow']
      rfl
  · intro l id row hrow hactive t template definition hfollows htemplate hread hdiffers
    rw [hschemas] at hrow
    rcases hrefreshed t with hsame | hnone | ⟨e, he, old, new, hold, hnew, -, -, htenant, hname,
      hwritten⟩
    · exact hdb l id row hrow hactive t template definition hfollows (hsame.symm.trans htemplate)
        hread hdiffers
    · have horigin := of_decide_eq_true (Bool.and_eq_true_iff.mp hfollows).1
      have hbefore := hanchored l id row t hrow horigin
      rw [hnone] at hbefore
      cases hbefore
    · -- a follower that is up to date has the built-in's definition
      obtain rfl := Option.some.inj (htemplate.symm.trans hnew)
      obtain ⟨value, hvalue⟩ := e.1.definition.read
      rw [hwritten, hdecode value _ hvalue] at hread
      cases hread
      by_contra hmark
      exact hdiffers (hquiet e he t old hold htenant hname l id row hrow hactive hfollows
        (Option.isSome_iff_ne_none.mpr hmark))

end Seeding

/-! ## Sequences of operations -/

section Sequences

variable {decode : Decoder} {env : Dialect} {display : ℚ → String} {backend : Backend}

/-- **Step lemma.** -/
theorem originStep_keeps (hdecode : decode.Faithful) {db : OriginDb} {op : OriginOp decode}
    (hdb : Linked db ∧ Anchored db ∧ ChangesReported decode db) (hquiet : SeedsQuietly db op) :
    Linked (originStep env display backend db op) ∧ Anchored (originStep env display backend db op) ∧
      ChangesReported decode (originStep env display backend db op) := by
  obtain ⟨hlinked, hanchored, hreported⟩ := hdb
  cases op with
  | request job =>
      simp only [originStep]
      cases hrun : (job.code env display).alone db with
      | error e => exact ⟨hlinked, hanchored, hreported⟩
      | ok r =>
          obtain ⟨hlinked', hreported'⟩ := (committed_alone hrun).changesReported hlinked hreported
            inTime_alone
          exact ⟨hlinked', anchored_alone hrun hanchored, hreported'⟩
  | seed officialTenantId rounds now =>
      simp only [originStep]
      refine ⟨hlinked, seed_keeps hdecode db (fun _ => rfl) ?_ hanchored hreported hquiet⟩
      exact seedOfficialTemplates_refreshed officialTenantId rounds now backend db.library _

/-- **When every operation tells the followers.** In a sequence of operations whose seedings
change no official template with a follower that is up to date, every change is reported after
each operation. -/
theorem changesReported_ops (hdecode : decode.Faithful) {db : OriginDb} (hlinked : Linked db)
    (hanchored : Anchored db) (hreported : ChangesReported decode db)
    {ops : List (OriginOp decode)}
    (hquiet : Transition.StepsMeet (originStep env display backend) SeedsQuietly db ops) :
    ∀ done, done <+: ops →
      ChangesReported decode (Transition.run (originStep env display backend) db done) := by
  rintro done ⟨rest, rfl⟩
  exact (Transition.run_invariant
    (fun db => Linked db ∧ Anchored db ∧ ChangesReported decode db)
    (fun _ _ => originStep_keeps hdecode) ⟨hlinked, hanchored, hreported⟩ hquiet.append.1).2.2

end Sequences

/-! ## A change that is not told -/

/-- The built-in template of the notes. -/
def builtinNotes (definition : Received notesDecoder) :
    List (BuiltinTemplate notesDecoder × SeedIds) :=
  [(⟨"notes", definition⟩, ⟨20, 21⟩)]

/-- The built-in template is seeded, a schema is made from it, and it is seeded again. -/
def reseeded (definition : Received notesDecoder) : List (OriginOp notesDecoder) :=
  [ .seed 9 (builtinNotes ⟨blankDefinition, blankDefinition.toJson, rfl⟩) 3,
    .request (.createFromTemplate 1 5 20 10 7),
    .seed 9 (builtinNotes definition) 8 ]

/-- The database after these operations. -/
def reseededNotes (ops : List (OriginOp notesDecoder)) : OriginDb :=
  Transition.run (originStep lenientDialect (fun _ => "") .postgres) notesDb ops

/-- The second seeding brings another definition, and the schema is still up to date. -/
theorem not_changesReported_reseeded :
    ¬ ChangesReported notesDecoder
      (reseededNotes (reseeded ⟨taskDefinition, taskDefinition.toJson, rfl⟩)) := by
  intro h
  have hmark := h 5 10 _ rfl rfl 20 _ taskDefinition rfl rfl rfl fun hsnapshot => by
    have hkeys := congrArg (Option.map fun d => d.entityTypes.keys) hsnapshot
    change some ["note"] = some ["note", "task"] at hkeys
    cases hkeys
  cases hmark

theorem notesDecoder_faithful : notesDecoder.Faithful := by
  intro v d h
  unfold notesDecoder at h
  split_ifs at h
  · cases h
    rfl
  · cases h
    rfl

/-- Seeding the same definition again changes nothing for the schema. -/
theorem changesReported_ops_reseeded :
    ChangesReported notesDecoder
      (reseededNotes (reseeded ⟨blankDefinition, blankDefinition.toJson, rfl⟩)) := by
  have hall : ∀ done, done <+: reseeded ⟨blankDefinition, blankDefinition.toJson, rfl⟩ →
      ChangesReported notesDecoder (reseededNotes done) := by
    refine changesReported_ops notesDecoder_faithful
      (fun l id row hrow => absurd hrow schemasOf_notesDb)
      (fun l id row t hrow => absurd hrow schemasOf_notesDb)
      (fun l id row hrow => absurd hrow schemasOf_notesDb) ⟨?_, trivial, ?_, trivial⟩
    · exact fun e _ t template _ _ _ l id row hrow => absurd hrow schemasOf_notesDb
    · intro e he t template _ _ _ l id row hrow _ _ _
      -- one schema is stored, with the definition of the one built-in
      obtain rfl := List.mem_singleton.mp he
      obtain ⟨space, hspace, hrow⟩ := OriginDb.get?_schemasOf.mp hrow
      cases List.mem_singleton.mp ((OrderedMap.mem_entries_iff _ l space).mpr hspace)
      cases List.mem_singleton.mp ((OrderedMap.mem_entries_iff _ id row).mpr hrow)
      rfl
  exact hall _ List.prefix_rfl

end Yorishiro.Schema
