import Yorishiro.Lib.Transition
import Yorishiro.Metaschema.Compatibility
import Yorishiro.Template.Marketplace

/-!
# When the template library can be read

`list_templates` and `get_template` read every definition they return, so one row that does not
read as a definition fails the listing of every tenant that sees it. `LibraryReadable` is what
the readers rely on: each stored definition reads as one and passes `validate_definition`, and
no reader fails.

Templates are created, updated and seeded from definitions that were read before, and the base
edition's fork writes again what it has read. The marketplace's fork copies a published version
as it is, and a version is any JSON value: the library stays readable exactly as long as what
these forks copy reads as a valid definition (`library_readable_iff`), which nothing checks
(`library_not_readable`).
-/

set_option autoImplicit false

namespace Yorishiro.Template

open Yorishiro.Lib Yorishiro.Lib.JsonSchema Yorishiro.Metaschema
open Yorishiro.Queue (Instant)
open Marketplace

/-! ## Steps -/

/-- What tenants and the operator do to the library. -/
inductive LibraryOp (decode : Decoder) where
  | create (id tenantId : Uuid) (createdBy : Option Uuid) (input : CreateTemplateInput decode)
  | update (tenantId id : Uuid) (input : UpdateTemplateInput decode)
  | delete (tenantId id : Uuid)
  | fork (id tenantId : Uuid) (createdBy : Option Uuid) (sourceTemplateId : Uuid)
      (newName : String)
  | publishVersion (id tenantId templateId : Uuid) (userId : Option Uuid)
      (request : PublishVersionRequest)
  | submitReview (id tenantId templateId : Uuid) (userId : Option Uuid)
      (request : SubmitReviewRequest)
  | forkVersion (id tenantId templateId : Uuid) (version : Option Int) (userId : Option Uuid)
  | setVisibility (tenantId templateId : Uuid) (visibility : TemplateVisibility)
  | seed (ids : String → SeedIds)

section Steps

variable {decode : Decoder} (env : Dialect) (display : ℚ → String) (backend : Backend)
  (officialTenantId : Uuid) (builtins : List (BuiltinTemplate decode))

/-- The library after an operation at an instant, unless it fails. Seeding keeps the templates it
has written when it fails. -/
def Library.apply (lib : Library) (now : Instant) : LibraryOp decode →
    Except YorishiroError Library
  | .create id tenantId createdBy input =>
      (createTemplate env display lib id tenantId createdBy input now).map Prod.fst
  | .update tenantId id input => (updateTemplate env display lib tenantId id input now).map Prod.fst
  | .delete tenantId id => deleteTemplate lib tenantId id
  | .fork id tenantId createdBy sourceTemplateId newName =>
      (forkTemplate decode lib id tenantId createdBy sourceTemplateId newName now).map Prod.fst
  | .publishVersion id tenantId templateId userId request =>
      (publishVersion backend lib id tenantId templateId userId request now).map Prod.fst
  | .submitReview id tenantId templateId userId request =>
      (submitReview lib id tenantId templateId userId request now).map Prod.fst
  | .forkVersion id tenantId templateId version userId =>
      (Marketplace.forkTemplate lib id tenantId templateId version userId now).map Prod.fst
  | .setVisibility tenantId templateId visibility =>
      setVisibility lib tenantId templateId visibility now
  | .seed ids =>
      .ok (seedOfficialTemplates backend officialTenantId now lib
        (builtins.map fun builtin => (builtin, ids builtin.id)) ⟨[], [], []⟩).1

/-- One step; an operation that fails is rolled back. -/
def Library.step (lib : Library) (e : Instant × LibraryOp decode) : Library :=
  match lib.apply env display backend officialTenantId builtins e.1 e.2 with
  | .ok lib' => lib'
  | .error _ => lib

end Steps

/-! ## Readable rows -/

section Readable

variable (env : Dialect) (display : ℚ → String) (decode : Decoder)

/-- The value reads as a definition that passes `validate_definition`. -/
def ReadsValid (value : Json) : Prop :=
  ∃ d, decode value = .ok d ∧ validateDefinition env display d = .ok ()

/-- Every stored definition reads as a valid one, and no reader fails: not the listing of any
tenant, not the access of a tenant to a template it sees. -/
structure LibraryReadable (lib : Library) : Prop where
  definitions : ∀ id row, lib.templates.get? id = some row →
    ReadsValid env display decode row.definition
  listed : ∀ tenantId page, ∃ records, listTemplates decode lib tenantId page = .ok records
  fetched : ∀ tenantId id row, lib.templates.get? id = some row → visibleTo tenantId row = true →
    ∃ record, getTemplate decode lib tenantId id = .ok record

/-- A row whose definition and tags can be read. -/
structure TemplateRow.Readable (row : TemplateRow) : Prop where
  definition : ReadsValid env display decode row.definition
  tags : ∃ tags, readTags row.tags = some tags

/-- Every row of the table meets `P`. -/
def AllRows (P : TemplateRow → Prop) (lib : Library) : Prop :=
  ∀ id row, lib.templates.get? id = some row → P row

variable {env display decode}

theorem readTags_tagsToJson (tags : List String) : readTags (tagsToJson tags) = some tags := by
  have hmap : (tags.map Json.string).mapM Json.asStr = some tags := by
    induction tags with
    | nil => rfl
    | cons tag tags ih =>
        rw [List.map_cons, List.mapM_cons, ih]
        rfl
  exact hmap

/-- A readable row is returned as a record. -/
theorem TemplateRow.Readable.toRecord {row : TemplateRow} (h : row.Readable env display decode)
    (id : Uuid) : ∃ record, row.toRecord decode id = .ok record := by
  obtain ⟨d, hd, -⟩ := h.definition
  obtain ⟨tags, htags⟩ := h.tags
  unfold TemplateRow.toRecord tagsFromJson
  rw [hd, htags]
  exact ⟨_, rfl⟩

/-- A row that was returned as a record has tags that can be read, and its definition was read. -/
theorem TemplateRow.toRecord_eq_ok {row : TemplateRow} {id : Uuid} {record : TemplateRecord}
    (h : row.toRecord decode id = .ok record) :
    decode row.definition = .ok record.definition ∧ readTags row.tags = some record.tags := by
  unfold toRecord at h
  obtain ⟨d, hd, h⟩ := Except.bind_eq_ok.mp h
  obtain ⟨tags, htags, h⟩ := Except.bind_eq_ok.mp h
  cases h
  refine ⟨Except.mapError_eq_ok hd, ?_⟩
  unfold tagsFromJson at htags
  split at htags
  · rename_i found hfound
    cases htags
    exact hfound
  · cases htags

theorem mapM_of_forall_ok {ε α β : Type} {f : α → Except ε β} {xs : List α}
    (h : ∀ x ∈ xs, ∃ y, f x = .ok y) : ∃ ys, xs.mapM f = .ok ys := by
  induction xs with
  | nil => exact ⟨[], rfl⟩
  | cons x xs ih =>
      obtain ⟨y, hy⟩ := h x List.mem_cons_self
      obtain ⟨ys, hys⟩ := ih fun x' hx' => h x' (List.mem_cons_of_mem x hx')
      rw [List.mapM_cons, hy, hys]
      exact ⟨y :: ys, rfl⟩

/-- The readers work exactly as long as every row can be read. -/
theorem libraryReadable_iff {lib : Library} :
    LibraryReadable env display decode lib ↔
      AllRows (TemplateRow.Readable env display decode) lib := by
  constructor
  · intro h id row hrow
    refine ⟨h.definitions id row hrow, ?_⟩
    -- the owner reads the row, tags included
    have howner : visibleTo row.tenantId row = true := by simp [visibleTo]
    obtain ⟨record, hrecord⟩ := h.fetched row.tenantId id row hrow howner
    unfold getTemplate at hrecord
    rw [hrow, Option.filter_some, if_pos howner] at hrecord
    exact ⟨record.tags, (TemplateRow.toRecord_eq_ok hrecord).2⟩
  · intro h
    refine ⟨fun id row hrow => (h id row hrow).definition, fun tenantId page => ?_,
      fun tenantId id row hrow hvisible => ?_⟩
    · refine mapM_of_forall_ok fun e he => ?_
      have hmem := (List.mem_insertionSort _).mp (List.mem_of_mem_drop (List.mem_of_mem_take he))
      have hrow := (lib.templates.rows.mem_entries_iff e.1 e.2).mp (List.mem_filter.mp hmem).1
      exact (h e.1 e.2 hrow).toRecord e.1
    · unfold getTemplate
      rw [hrow, Option.filter_some, if_pos hvisible]
      exact (h id row hrow).toRecord id

/-! ## What keeps the rows readable -/

section Statements

variable {P : TemplateRow → Prop} {lib : Library}
  {templates : Table Uuid TemplateRow TemplateRow.clash} {id : Uuid} {row : TemplateRow}

theorem AllRows.insert (h : AllRows P lib) (hrow : P row)
    (hinsert : lib.templates.insert id row = .ok templates) :
    AllRows P (lib.withTemplates templates) := by
  intro l y hy
  have hget : (if l = id then some row else lib.templates.get? l) = some y :=
    (Table.get?_insert hinsert l).symm.trans hy
  split_ifs at hget with hl
  · cases hget
    exact hrow
  · exact h l y hget

theorem AllRows.updateWhere (h : AllRows P lib) {p : Uuid → TemplateRow → Bool}
    {f : TemplateRow → TemplateRow} {n : Nat}
    (hupdate : lib.templates.updateWhere p f = .ok (templates, n))
    (hf : ∀ row, P row → P (f row)) : AllRows P (lib.withTemplates templates) := by
  intro l y hy
  have hget : (lib.templates.get? l).map _ = some y :=
    (Table.get?_updateWhere hupdate l).symm.trans hy
  obtain ⟨x, hx, rfl⟩ := Option.map_eq_some_iff.mp hget
  split_ifs
  · exact hf x (h l x hx)
  · exact h l x hx

end Statements

variable {lib lib' : Library} {now : Instant}

/-- What is written from a definition that was read is read again. -/
theorem Received.readsValid (hdecode : decode.Faithful) (d : Received decode)
    (hd : validateDefinition env display d.definition = .ok ()) :
    ReadsValid env display decode d.definition.toJson := by
  obtain ⟨v, hv⟩ := d.read
  exact ⟨d.definition, hdecode v d.definition hv, hd⟩

theorem createTemplate_readable (hdecode : decode.Faithful) {id tenantId : Uuid}
    {createdBy : Option Uuid} {input : CreateTemplateInput decode} {record : TemplateRecord}
    (h : AllRows (TemplateRow.Readable env display decode) lib)
    (hok : createTemplate env display lib id tenantId createdBy input now = .ok (lib', record)) :
    AllRows (TemplateRow.Readable env display decode) lib' := by
  unfold createTemplate at hok
  obtain ⟨_, hvalid, hok⟩ := Except.bind_eq_ok.mp hok
  obtain ⟨templates, hinsert, hok⟩ := Except.bind_eq_ok.mp hok
  obtain ⟨_, -, hok⟩ := Except.bind_eq_ok.mp hok
  cases hok
  exact h.insert ⟨input.definition.readsValid hdecode hvalid, input.tags, readTags_tagsToJson _⟩
    (Except.mapError_eq_ok hinsert)

/-- The fields an update gives are readable, and it leaves the others. -/
theorem UpdateTemplateInput.readable_apply (hdecode : decode.Faithful)
    {input : UpdateTemplateInput decode}
    (hvalid : ∀ d, input.definition = some d →
      validateDefinition env display d.definition = .ok ())
    {row : TemplateRow} (h : row.Readable env display decode) :
    (input.apply now row).Readable env display decode where
  definition := by
    unfold apply
    cases hd : input.definition with
    | none => exact h.definition
    | some d => exact d.readsValid hdecode (hvalid d hd)
  tags := by
    unfold apply
    cases input.tags with
    | none => exact h.tags
    | some tags => exact ⟨tags, readTags_tagsToJson tags⟩

theorem updateTemplate_readable (hdecode : decode.Faithful) {tenantId id : Uuid}
    {input : UpdateTemplateInput decode} {record : TemplateRecord}
    (h : AllRows (TemplateRow.Readable env display decode) lib)
    (hok : updateTemplate env display lib tenantId id input now = .ok (lib', record)) :
    AllRows (TemplateRow.Readable env display decode) lib' := by
  unfold updateTemplate at hok
  obtain ⟨_, hvalid, hok⟩ := Except.bind_eq_ok.mp hok
  split_ifs at hok
  · obtain ⟨_, -, hok⟩ := Except.bind_eq_ok.mp hok
    cases hok
    exact h
  · split at hok
    · cases hok
    · obtain ⟨⟨templates, n⟩, hupdate, hok⟩ := Except.bind_eq_ok.mp hok
      obtain ⟨_, -, hok⟩ := Except.bind_eq_ok.mp hok
      cases hok
      refine h.updateWhere (Except.mapError_eq_ok hupdate) fun row hrow =>
        input.readable_apply hdecode (fun d hd => ?_) hrow
      unfold UpdateTemplateInput.validate at hvalid
      rw [hd] at hvalid
      exact hvalid

theorem remove_readable {id : Uuid} (h : AllRows (TemplateRow.Readable env display decode) lib)
    (hok : lib.remove id = .ok lib') : AllRows (TemplateRow.Readable env display decode) lib' := by
  unfold Library.remove at hok
  obtain ⟨⟨templates, n⟩, hupdate, hok⟩ := Except.bind_eq_ok.mp hok
  cases hok
  -- the rows that are left, and only their lineage changes
  have hleft : AllRows (TemplateRow.Readable env display decode)
      (lib.withTemplates (lib.templates.delete id)) := by
    intro l y hy
    have hget : (if l = id then none else lib.templates.get? l) = some y :=
      (Table.get?_delete lib.templates id l).symm.trans hy
    split_ifs at hget
    exact h l y hget
  exact AllRows.updateWhere hleft (Except.mapError_eq_ok hupdate)
    fun row hrow => ⟨hrow.definition, hrow.tags⟩

theorem forkTemplate_readable (hdecode : decode.Faithful) {id tenantId sourceTemplateId : Uuid}
    {createdBy : Option Uuid} {newName : String} {record : TemplateRecord}
    (h : AllRows (TemplateRow.Readable env display decode) lib)
    (hok : forkTemplate decode lib id tenantId createdBy sourceTemplateId newName now =
      .ok (lib', record)) : AllRows (TemplateRow.Readable env display decode) lib' := by
  unfold forkTemplate at hok
  obtain ⟨source, hsource, hok⟩ := Except.bind_eq_ok.mp hok
  obtain ⟨templates, hinsert, hok⟩ := Except.bind_eq_ok.mp hok
  obtain ⟨_, -, hok⟩ := Except.bind_eq_ok.mp hok
  cases hok
  -- the source was read from a readable row, so its definition is valid
  unfold getTemplate at hsource
  split at hsource
  · rename_i row hrow
    obtain ⟨d, hd, hvalid⟩ := (h _ row (Option.filter_eq_some_iff.mp hrow).1).definition
    have hread := (TemplateRow.toRecord_eq_ok hsource).1
    obtain rfl : source.definition = d := Except.ok.inj (hread.symm.trans hd)
    exact h.insert ⟨⟨source.definition, hdecode _ _ hread, hvalid⟩, source.tags,
      readTags_tagsToJson _⟩ (Except.mapError_eq_ok hinsert)
  · cases hsource

theorem setVisibility_readable {tenantId id : Uuid} {visibility : TemplateVisibility}
    (h : AllRows (TemplateRow.Readable env display decode) lib)
    (hok : setVisibility lib tenantId id visibility now = .ok lib') :
    AllRows (TemplateRow.Readable env display decode) lib' := by
  unfold setVisibility at hok
  obtain ⟨_, -, hok⟩ := Except.bind_eq_ok.mp hok
  obtain ⟨⟨templates, n⟩, hupdate, hok⟩ := Except.bind_eq_ok.mp hok
  cases hok
  exact h.updateWhere (Except.mapError_eq_ok hupdate) fun row hrow =>
    ⟨hrow.definition, hrow.tags⟩

/-! ### The marketplace -/

theorem publishVersion_templates {id tenantId templateId : Uuid} {userId : Option Uuid}
    {request : PublishVersionRequest} {record : TemplateVersionRecord} {backend : Backend}
    (hok : publishVersion backend lib id tenantId templateId userId request now =
      .ok (lib', record)) : lib'.templates = lib.templates := by
  unfold publishVersion at hok
  obtain ⟨_, -, hok⟩ := Except.bind_eq_ok.mp hok
  exact insertNextVersion_templates hok

theorem submitReview_templates {id tenantId templateId : Uuid} {userId : Option Uuid}
    {request : SubmitReviewRequest} {record : TemplateReviewRecord}
    (hok : submitReview lib id tenantId templateId userId request now = .ok (lib', record)) :
    lib'.templates = lib.templates := by
  unfold submitReview at hok
  obtain ⟨_, -, hok⟩ := Except.bind_eq_ok.mp hok
  unfold upsertReview at hok
  split at hok
  · obtain ⟨_, -, hok⟩ := Except.bind_eq_ok.mp hok
    cases hok
    rfl
  · obtain ⟨_, -, hok⟩ := Except.bind_eq_ok.mp hok
    cases hok
    rfl

/-- A marketplace fork succeeds exactly when the tenant sees the template, there is a version to
copy, and the tenant has no template of its name; what it stores is the version's definition. -/
theorem forkVersion_eq_ok {id tenantId templateId : Uuid} {version : Option Int}
    {userId : Option Uuid} {r : Library × Uuid} :
    Marketplace.forkTemplate lib id tenantId templateId version userId now = .ok r ↔
      ∃ source definition templates, findForkSource lib tenantId templateId = .ok (some source) ∧
        findForkableDefinition lib templateId version = some definition ∧
        lib.templates.insert id (source.row tenantId definition templateId userId now) =
          .ok templates ∧
        r = (lib.withTemplates templates, id) := by
  unfold Marketplace.forkTemplate insertFork
  cases findForkSource lib tenantId templateId with
  | error e => simp [bind, Except.bind]
  | ok found =>
      cases found with
      | none => simp [bind, Except.bind]
      | some source =>
          cases findForkableDefinition lib templateId version with
          | none => simp [bind, Except.bind]
          | some definition =>
              cases hinsert : lib.templates.insert id
                  (source.row tenantId definition templateId userId now) with
              | error e => simp [bind, Except.bind, hinsert, Except.map, Except.mapError]
              | ok templates =>
                  simp [bind, Except.bind, hinsert, Except.map, Except.mapError, pure, Except.pure,
                    eq_comm]

/-! ### Seeding -/

theorem upsertTemplate_readable (hdecode : decode.Faithful) {officialTenantId id templateId : Uuid}
    {name : String} {description : Option String} {d : Received decode}
    (hd : validateDefinition env display d.definition = .ok ())
    (h : AllRows (TemplateRow.Readable env display decode) lib)
    (hok : upsertTemplate officialTenantId lib id name description d.definition.toJson now =
      .ok (lib', templateId)) : AllRows (TemplateRow.Readable env display decode) lib' := by
  unfold upsertTemplate at hok
  split at hok
  · obtain ⟨⟨templates, n⟩, hupdate, hok⟩ := Except.bind_eq_ok.mp hok
    cases hok
    exact h.updateWhere (Except.mapError_eq_ok hupdate) fun row hrow =>
      ⟨d.readsValid hdecode hd, hrow.tags⟩
  · obtain ⟨templates, hinsert, hok⟩ := Except.bind_eq_ok.mp hok
    cases hok
    exact h.insert ⟨d.readsValid hdecode hd, [], readTags_tagsToJson []⟩
      (Except.mapError_eq_ok hinsert)

theorem seedOfficialTemplates_readable (hdecode : decode.Faithful) {backend : Backend}
    {officialTenantId : Uuid} {rounds : List (BuiltinTemplate decode × SeedIds)}
    (hvalid : ∀ e ∈ rounds, validateDefinition env display e.1.definition.definition = .ok ())
    {outcome : SeedOutcome} (h : AllRows (TemplateRow.Readable env display decode) lib) :
    AllRows (TemplateRow.Readable env display decode)
      (seedOfficialTemplates backend officialTenantId now lib rounds outcome).1 :=
  seedOfficialTemplates_keeps officialTenantId
    (P := fun templates => ∀ l row, templates.get? l = some row → row.Readable env display decode)
    (fun e he _ _ _ hlib hok => upsertTemplate_readable hdecode (hvalid e he) hlib hok) h

end Readable

/-! ## Runs -/

section Runs

variable {decode : Decoder} (env : Dialect) (display : ℚ → String) (backend : Backend)
  (officialTenantId : Uuid) (builtins : List (BuiltinTemplate decode))

/-- Where the operation is a marketplace fork that stores a copy, what it copies reads as a valid
definition: the tenant sees the template, there is a version to copy, and the tenant has no
template of its name yet. -/
def CopiesValid (lib : Library) (e : Instant × LibraryOp decode) : Prop :=
  match e.2 with
  | .forkVersion id tenantId templateId version _ =>
      ∀ source definition, findForkSource lib tenantId templateId = .ok (some source) →
        findForkableDefinition lib templateId version = some definition →
        lib.templates.get? id = none →
        (∀ l row, lib.templates.get? l = some row → row.tenantId = tenantId →
          row.name ≠ source.name) →
        ReadsValid env display decode definition
  | _ => True

variable {env display backend officialTenantId builtins}

/-- A row that shares its tenant's name with no other can be inserted. -/
theorem clash_free {lib : Library} {source : ForkSource} {tenantId forkOf : Uuid}
    {definition : Json} {userId : Option Uuid} {now : Instant} :
    (∀ l row, lib.templates.get? l = some row →
      (source.row tenantId definition forkOf userId now).clash row = false) ↔
      ∀ l row, lib.templates.get? l = some row → row.tenantId = tenantId →
        row.name ≠ source.name := by
  refine forall₃_congr fun l row _ => ?_
  unfold TemplateRow.clash
  rw [Bool.and_eq_false_iff, decide_eq_false_iff_not, decide_eq_false_iff_not]
  constructor
  · rintro (howner | hname) hown
    · exact absurd hown.symm howner
    · exact fun heq => hname heq.symm
  · intro hfree
    by_cases hown : row.tenantId = tenantId
    · exact Or.inr fun heq => hfree hown heq.symm
    · exact Or.inl fun heq => hown heq.symm

/-- An operation that fails leaves the library. -/
theorem step_readable {lib : Library} {now : Instant} {op : LibraryOp decode}
    (hall : AllRows (TemplateRow.Readable env display decode) lib)
    (hok : ∀ lib', lib.apply env display backend officialTenantId builtins now op = .ok lib' →
      AllRows (TemplateRow.Readable env display decode) lib') :
    AllRows (TemplateRow.Readable env display decode)
      (lib.step env display backend officialTenantId builtins (now, op)) := by
  unfold Library.step
  split
  · rename_i lib' happly
    exact hok lib' happly
  · exact hall

/-- A marketplace fork that keeps the library readable has copied a valid definition: the copy is
a row of the library afterwards. -/
theorem readsValid_of_forkVersion {lib : Library} {now : Instant} {id tenantId templateId : Uuid}
    {version : Option Int} {userId : Option Uuid} {source : ForkSource} {definition : Json}
    (hafter : AllRows (TemplateRow.Readable env display decode)
      (lib.step env display backend officialTenantId builtins
        (now, .forkVersion id tenantId templateId version userId)))
    (hsource : findForkSource lib tenantId templateId = .ok (some source))
    (hdefinition : findForkableDefinition lib templateId version = some definition)
    (hid : lib.templates.get? id = none)
    (hname : ∀ l row, lib.templates.get? l = some row → row.tenantId = tenantId →
      row.name ≠ source.name) : ReadsValid env display decode definition := by
  have hfree : ∀ l row, lib.templates.get? l = some row →
      (source.row tenantId definition templateId userId now).clash row = false :=
    clash_free.mpr hname
  obtain ⟨templates, hinsert⟩ := Table.insert_total TemplateRow.clash_comm hid hfree
  have hok := forkVersion_eq_ok.mpr ⟨source, definition, templates, hsource, hdefinition,
    hinsert, rfl⟩
  have hstep : lib.step env display backend officialTenantId builtins
      (now, .forkVersion id tenantId templateId version userId) =
        lib.withTemplates templates := by
    unfold Library.step Library.apply
    simp only [hok, Except.map]
  rw [hstep] at hafter
  have hstored : (lib.withTemplates templates).templates.get? id =
      some (source.row tenantId definition templateId userId now) := by
    refine (Table.get?_insert hinsert id).trans ?_
    rw [if_pos rfl]
  exact (hafter id _ hstored).definition

/-- A marketplace fork that copies a valid definition keeps the library readable. -/
theorem forkVersion_readable {lib lib' : Library} {now : Instant} {id tenantId templateId : Uuid}
    {version : Option Int} {userId : Option Uuid}
    (hall : AllRows (TemplateRow.Readable env display decode) lib)
    (hvalid : CopiesValid env display lib
      (now, (.forkVersion id tenantId templateId version userId : LibraryOp decode)))
    (hok : lib.apply env display backend officialTenantId builtins now
      (.forkVersion id tenantId templateId version userId) = .ok lib') :
    AllRows (TemplateRow.Readable env display decode) lib' := by
  obtain ⟨r, hfork, rfl⟩ := Except.map_eq_ok hok
  obtain ⟨source, definition, templates, hsource, hdefinition, hinsert, rfl⟩ :=
    forkVersion_eq_ok.mp hfork
  have hid := (Table.insert_eq_ok hinsert).1
  have hname := clash_free.mp
    ((Table.insert_ok_iff TemplateRow.clash_comm hid).mp ⟨templates, hinsert⟩)
  exact hall.insert ⟨hvalid source definition hsource hdefinition hid hname,
    source.tags, readTags_tagsToJson _⟩ hinsert

/-- **Step.** From a library that can be read, an operation leads to one that can be read exactly
if what it copies is valid. -/
theorem step_readable_iff (hdecode : decode.Faithful)
    (hbuiltins : ∀ b ∈ builtins, validateDefinition env display b.definition.definition = .ok ())
    (lib : Library) (e : Instant × LibraryOp decode) (h : LibraryReadable env display decode lib) :
    LibraryReadable env display decode
        (lib.step env display backend officialTenantId builtins e) ↔
      CopiesValid env display lib e := by
  have hall := libraryReadable_iff.mp h
  rw [libraryReadable_iff]
  obtain ⟨now, op⟩ := e
  have hsame : ∀ {lib' : Library}, lib'.templates = lib.templates →
      AllRows (TemplateRow.Readable env display decode) lib' := by
    intro lib' heq l row hrow
    rw [heq] at hrow
    exact hall l row hrow
  cases op with
  | create id tenantId createdBy input =>
      refine iff_of_true (step_readable hall fun lib' hok => ?_) trivial
      obtain ⟨⟨_, record⟩, hcreate, rfl⟩ := Except.map_eq_ok hok
      exact createTemplate_readable hdecode hall hcreate
  | update tenantId id input =>
      refine iff_of_true (step_readable hall fun lib' hok => ?_) trivial
      obtain ⟨⟨_, record⟩, hupdate, rfl⟩ := Except.map_eq_ok hok
      exact updateTemplate_readable hdecode hall hupdate
  | delete tenantId id =>
      refine iff_of_true (step_readable hall fun lib' hok => ?_) trivial
      unfold Library.apply deleteTemplate at hok
      simp only at hok
      split at hok
      · cases hok
      · exact remove_readable hall hok
  | fork id tenantId createdBy sourceTemplateId newName =>
      refine iff_of_true (step_readable hall fun lib' hok => ?_) trivial
      obtain ⟨⟨_, record⟩, hfork, rfl⟩ := Except.map_eq_ok hok
      exact forkTemplate_readable hdecode hall hfork
  | publishVersion id tenantId templateId userId request =>
      refine iff_of_true (step_readable hall fun lib' hok => ?_) trivial
      obtain ⟨⟨_, record⟩, hpublish, rfl⟩ := Except.map_eq_ok hok
      exact hsame (publishVersion_templates hpublish)
  | submitReview id tenantId templateId userId request =>
      refine iff_of_true (step_readable hall fun lib' hok => ?_) trivial
      obtain ⟨⟨_, record⟩, hsubmit, rfl⟩ := Except.map_eq_ok hok
      exact hsame (submitReview_templates hsubmit)
  | setVisibility tenantId templateId visibility =>
      refine iff_of_true (step_readable hall fun lib' hok => ?_) trivial
      exact setVisibility_readable hall hok
  | seed ids =>
      refine iff_of_true (step_readable hall fun lib' hok => ?_) trivial
      obtain rfl := Except.ok.inj hok
      refine seedOfficialTemplates_readable hdecode (fun e he => ?_) hall
      obtain ⟨builtin, hbuiltin, rfl⟩ := List.mem_map.mp he
      exact hbuiltins builtin hbuiltin
  | forkVersion id tenantId templateId version userId =>
      constructor
      · intro hafter source definition hsource hdefinition hid hname
        exact readsValid_of_forkVersion hafter hsource hdefinition hid hname
      · intro hvalid
        exact step_readable hall fun lib' hok => forkVersion_readable hall hvalid hok

/-- **When the library can be read.** In a run from the empty library, every state can be read
exactly if every marketplace fork that stores a copy copies a valid definition. -/
theorem library_readable_iff (hdecode : decode.Faithful)
    (hbuiltins : ∀ b ∈ builtins, validateDefinition env display b.definition.definition = .ok ())
    (ops : List (Instant × LibraryOp decode)) :
    (∀ done, done <+: ops → LibraryReadable env display decode
        (Transition.run (Library.step env display backend officialTenantId builtins) .empty done)) ↔
      Transition.StepsMeet (Library.step env display backend officialTenantId builtins)
        (CopiesValid env display) .empty ops := by
  refine Transition.run_invariant_iff (step_readable_iff hdecode hbuiltins) ?_
  exact libraryReadable_iff.mpr fun id row hrow => by cases hrow

end Runs

/-! ## A poisoned listing -/

/-- A definition of one entity type without fields. -/
def blankDefinition : MetaSchemaDefinition where
  name := "notes"
  description := none
  entityTypes := .ofList [("note", ⟨none, .empty⟩)]
  relationTypes := .empty

/-- Reads the one definition. -/
def blankDecoder : Decoder := fun value =>
  if value = blankDefinition.toJson then .ok blankDefinition else .error "missing field"

theorem blankDecoder_faithful : blankDecoder.Faithful := by
  intro v d h
  unfold blankDecoder at h ⊢
  split_ifs at h
  cases h
  rw [if_pos rfl]

/-- A tenant shares a template, and another one forks the version it publishes and shares the
fork. -/
def sharedForks (published : Json) : List (Instant × LibraryOp blankDecoder) :=
  [ (0, .create 1 1 none ⟨"notes", none, ⟨blankDefinition, blankDefinition.toJson, if_pos rfl⟩, [],
      none, none⟩),
    (1, .setVisibility 1 1 .community),
    (2, .publishVersion 10 1 1 none ⟨published, none, .stable⟩),
    (3, .forkVersion 2 2 1 none none),
    (4, .setVisibility 2 2 .community) ]

/-- The library after some of these steps, with no built-in templates. -/
def sharedLibrary (done : List (Instant × LibraryOp blankDecoder)) : Library :=
  Transition.run (Library.step lenientDialect (fun _ => "") .postgres 0 []) .empty done

/-- A version published as the empty object ends up in everybody's listing, and fails it. -/
theorem library_not_readable :
    (∃ e, listTemplates blankDecoder (sharedLibrary (sharedForks (.object []))) 3 ⟨50, 0⟩ =
      .error e) ∧
    ¬ ∀ done, done <+: sharedForks (.object []) →
      LibraryReadable lenientDialect (fun _ => "") blankDecoder (sharedLibrary done) := by
  have hfail : listTemplates blankDecoder (sharedLibrary (sharedForks (.object []))) 3 ⟨50, 0⟩ =
      .error (.internal (.custom "missing field")) := rfl
  refine ⟨⟨_, hfail⟩, fun h => ?_⟩
  obtain ⟨records, hrecords⟩ := (h _ List.prefix_rfl).listed 3 ⟨50, 0⟩
  rw [hfail] at hrecords
  cases hrecords

theorem library_readable_iff_sharedForks :
    LibraryReadable lenientDialect (fun _ => "") blankDecoder
      (sharedLibrary (sharedForks blankDefinition.toJson)) := by
  refine (library_readable_iff blankDecoder_faithful (fun b hb => by cases hb)
    (sharedForks blankDefinition.toJson)).mpr
    ⟨trivial, trivial, trivial, fun source definition _ hdefinition _ _ => ?_, trivial, trivial⟩ _
    List.prefix_rfl
  have hcopied : findForkableDefinition
      (sharedLibrary ((sharedForks blankDefinition.toJson).take 3)) 1 none =
        some blankDefinition.toJson := rfl
  obtain rfl := Option.some.inj (hcopied.symm.trans hdefinition)
  exact ⟨blankDefinition, rfl, rfl⟩

end Yorishiro.Template
