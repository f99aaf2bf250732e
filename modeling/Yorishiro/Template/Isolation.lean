import Yorishiro.Template.Marketplace

/-!
# What the marketplace shows of other tenants

`SameShared` relates two libraries that differ only in rows other tenants own and do not share:
their private templates with all that belongs to them, and the drafts of their shared ones.
`marketplace_sameShared` says that the marketplace answers a tenant the same in both, errors
included. No query looks at the rows of another tenant without one of two filters, and each of
them selects shared rows only (`versionsOf_filter`, `reviewsOf_eq`); a fork reads the version it
copies by number, drafts included, and refuses a draft only then (`findForkableDefinition_eq`).
-/

set_option autoImplicit false

namespace Yorishiro.Template.Marketplace

open Yorishiro.Lib
open Yorishiro.Queue (Instant)

/-! ## Shared rows -/

/-- The tenant owns the version's template, or the template is shared and the version published. -/
def versionShared (lib : Library) (tenantId : Uuid) (row : VersionRow) : Bool :=
  (lib.templates.get? row.templateId).any fun template =>
    decide (template.tenantId = tenantId) ||
      decide (template.visibility = .community) && !decide (row.status = .draft)

/-- The tenant sees the review's template. -/
def reviewShared (lib : Library) (tenantId : Uuid) (row : ReviewRow) : Bool :=
  isVisible lib tenantId row.templateId

/-- The libraries differ only in rows that other tenants own and do not share with this one. -/
structure SameShared (tenantId : Uuid) (a b : Library) : Prop where
  templates : ∀ id, (a.templates.get? id).filter (visibleTo tenantId) =
    (b.templates.get? id).filter (visibleTo tenantId)
  versions : ∀ id, (a.versions.get? id).filter (versionShared a tenantId) =
    (b.versions.get? id).filter (versionShared b tenantId)
  reviews : ∀ id, (a.reviews.get? id).filter (reviewShared a tenantId) =
    (b.reviews.get? id).filter (reviewShared b tenantId)

/-- A selection from a selection that has all of it. -/
theorem filter_within {α : Type} {xs : List α} {p r : α → Bool}
    (h : ∀ x ∈ xs, p x = true → r x = true) : xs.filter p = (xs.filter r).filter p := by
  rw [List.filter_filter]
  refine List.filter_congr fun x hx => ?_
  cases hp : p x with
  | false => rfl
  | true => rw [h x hx hp]; rfl

/-- Where what both lists select is among what they have in common, they select the same. -/
theorem filter_of_common {α : Type} {xs ys : List α} {s t p : α → Bool}
    (h : xs.filter s = ys.filter t) (hs : ∀ x ∈ xs, p x = true → s x = true)
    (ht : ∀ y ∈ ys, p y = true → t y = true) : xs.filter p = ys.filter p := by
  rw [filter_within hs, filter_within ht, h]

/-- Two computations that agree on every element of a list. -/
theorem mapM_congr_mem {ε α β : Type} {f g : α → Except ε β} {xs : List α}
    (h : ∀ x ∈ xs, f x = g x) : xs.mapM f = xs.mapM g := by
  induction xs with
  | nil => rfl
  | cons x xs ih =>
      rw [List.mapM_cons, List.mapM_cons, h x List.mem_cons_self,
        ih fun y hy => h y (List.mem_cons_of_mem x hy)]

theorem isVisible_of_get? {lib : Library} {tenantId id : Uuid} {template : TemplateRow}
    (h : lib.templates.get? id = some template) (hvisible : visibleTo tenantId template = true) :
    isVisible lib tenantId id = true := by
  unfold isVisible
  rw [h]
  exact hvisible

/-- What is hidden is there for another tenant, or not at all. -/
theorem visibleTo_of_hidden {lib : Library} {tenantId id : Uuid} {template : TemplateRow}
    (h : isVisible lib tenantId id = false) (hget : lib.templates.get? id = some template) :
    visibleTo tenantId template = false := by
  rw [isVisible, hget] at h
  exact h

/-- A template the tenant does not see has no version for it. -/
theorem listVersions_of_hidden {lib : Library} {tenantId id : Uuid} {page : ListParams}
    (h : isVisible lib tenantId id = false) : listVersions lib tenantId id page = [] := by
  unfold listVersions
  cases htemplate : lib.templates.get? id with
  | none => rfl
  | some template => simp [visibleTo_of_hidden h htemplate, ListParams.page]

/-- A template the tenant does not see has no review for it. -/
theorem listReviews_of_hidden {lib : Library} {tenantId id : Uuid} {page : ListParams}
    (h : isVisible lib tenantId id = false) : listReviews lib tenantId id page = [] := by
  unfold listReviews
  cases htemplate : lib.templates.get? id with
  | none => rfl
  | some template => simp [visibleTo_of_hidden h htemplate, ListParams.page]

namespace SameShared

variable {tenantId : Uuid} {a b : Library}

theorem symm (h : SameShared tenantId a b) : SameShared tenantId b a :=
  ⟨fun id => (h.templates id).symm, fun id => (h.versions id).symm, fun id => (h.reviews id).symm⟩

/-- A template the tenant sees is there in both. -/
theorem template (h : SameShared tenantId a b) {id : Uuid} {row : TemplateRow}
    (hrow : a.templates.get? id = some row) (hvisible : visibleTo tenantId row = true) :
    b.templates.get? id = some row := by
  have heq := h.templates id
  rw [hrow, Option.filter_some, if_pos hvisible] at heq
  exact (Option.filter_eq_some_iff.mp heq.symm).1

theorem isVisible_eq (h : SameShared tenantId a b) (id : Uuid) :
    isVisible a tenantId id = isVisible b tenantId id := by
  have hany : ∀ lib : Library, isVisible lib tenantId id =
      ((lib.templates.get? id).filter (visibleTo tenantId)).isSome := by
    intro lib
    unfold isVisible
    cases lib.templates.get? id with
    | none => rfl
    | some row => cases hrow : visibleTo tenantId row <;> simp [hrow, Option.filter]
  rw [hany a, hany b, h.templates id]

/-- The tenant sees a template in neither library, or the same one in both. -/
theorem cases_visible (h : SameShared tenantId a b) (id : Uuid) :
    (isVisible a tenantId id = false ∧ isVisible b tenantId id = false) ∨
      ∃ template, a.templates.get? id = some template ∧ b.templates.get? id = some template ∧
        visibleTo tenantId template = true := by
  cases hvisible : isVisible a tenantId id with
  | false => exact Or.inl ⟨rfl, (h.isVisible_eq id).symm.trans hvisible⟩
  | true =>
      obtain ⟨template, htemplate, hsees⟩ := Option.any_eq_true _ _ |>.mp hvisible
      exact Or.inr ⟨template, htemplate, h.template htemplate hsees, hsees⟩

/-- A version of a template the tenant sees is shared, unless it is a draft of another's. -/
theorem shared_of_version {lib : Library} {id : Uuid} {template : TemplateRow} {row : VersionRow}
    (htemplate : lib.templates.get? id = some template)
    (hvisible : visibleTo tenantId template = true) (hid : row.templateId = id)
    (hrow : template.tenantId = tenantId ∨ row.status ≠ .draft) :
    versionShared lib tenantId row = true := by
  unfold versionShared
  rw [hid, htemplate]
  unfold visibleTo at hvisible
  rcases hrow with hown | hstatus
  · simp [hown]
  · rcases Bool.or_eq_true_iff.mp hvisible with hown | hcommunity
    · simpa using Or.inl (of_decide_eq_true hown)
    · simpa [hstatus] using Or.inr (of_decide_eq_true hcommunity)

/-- **Versions.** Of a template the tenant sees, both libraries select the same versions, as long
as no draft of another tenant is selected. -/
theorem versionsOf_filter (h : SameShared tenantId a b) {id : Uuid} {template : TemplateRow}
    (htemplate : a.templates.get? id = some template)
    (hvisible : visibleTo tenantId template = true) {p : Uuid × VersionRow → Bool}
    (hp : ∀ e, p e = true → template.tenantId = tenantId ∨ e.2.status ≠ .draft) :
    (versionsOf a id).filter p = (versionsOf b id).filter p := by
  have hside : ∀ {lib : Library}, lib.templates.get? id = some template →
      ∀ e ∈ lib.versions.rows.entries, (p e && decide (e.2.templateId = id)) = true →
        versionShared lib tenantId e.2 = true := by
    intro lib hlib e _ he
    obtain ⟨hpe, hid⟩ := Bool.and_eq_true_iff.mp he
    exact shared_of_version hlib hvisible (of_decide_eq_true hid) (hp e hpe)
  unfold versionsOf
  rw [List.filter_filter, List.filter_filter]
  exact filter_of_common (OrderedMap.filter_entries_congr h.versions) (hside htemplate)
    (hside (h.template htemplate hvisible))

/-- **Reviews.** A template the tenant sees has the same reviews in both. -/
theorem reviewsOf_eq (h : SameShared tenantId a b) {id : Uuid}
    (hvisible : isVisible a tenantId id = true) : reviewsOf a id = reviewsOf b id := by
  have hside : ∀ {lib : Library}, isVisible lib tenantId id = true →
      ∀ e ∈ lib.reviews.rows.entries, decide (e.2.templateId = id) = true →
        reviewShared lib tenantId e.2 = true := by
    intro lib hlib e _ he
    unfold reviewShared
    rw [of_decide_eq_true he]
    exact hlib
  unfold reviewsOf
  exact filter_of_common (OrderedMap.filter_entries_congr h.reviews) (hside hvisible)
    (hside ((h.isVisible_eq id).symm.trans hvisible))

/-! ## The queries -/

/-- The published versions of a template the tenant sees. -/
theorem versionsOf_published (h : SameShared tenantId a b) {id : Uuid} {template : TemplateRow}
    (htemplate : a.templates.get? id = some template)
    (hvisible : visibleTo tenantId template = true) {p : TemplateVersionStatus → Bool}
    (hp : p .draft = false) :
    ((versionsOf a id).filter fun e => p e.2.status) =
      (versionsOf b id).filter fun e => p e.2.status := by
  refine h.versionsOf_filter htemplate hvisible fun e he => Or.inr ?_
  intro hdraft
  rw [hdraft, hp] at he
  cases he

theorem isListed_eq (h : SameShared tenantId a b) {e : Uuid × TemplateRow}
    (htemplate : a.templates.get? e.1 = some e.2) (hvisible : visibleTo tenantId e.2 = true) :
    isListed a e = isListed b e := by
  have hany : ∀ (xs : List (Uuid × VersionRow)) (p : Uuid × VersionRow → Bool),
      xs.any p = (xs.filter p).any p := by
    intro xs p
    rw [List.any_filter]
    simp only [Bool.and_self]
  unfold isListed
  rw [hany, hany (versionsOf b e.1), h.versionsOf_published htemplate hvisible
    (p := fun s => decide (s = .pre) || decide (s = .stable)) rfl]

theorem listing_eq (h : SameShared tenantId a b) {e : Uuid × TemplateRow}
    (htemplate : a.templates.get? e.1 = some e.2) (hvisible : visibleTo tenantId e.2 = true)
    (tags : List String) : listing a e tags = listing b e tags := by
  have hreviews : reviewsOf a e.1 = reviewsOf b e.1 :=
    h.reviewsOf_eq (isVisible_of_get? htemplate hvisible)
  have hversions :=
    h.versionsOf_published htemplate hvisible (p := fun s => decide (s = .stable)) rfl
  unfold listing
  rw [hreviews, hversions]

/-- `list_marketplace` reads shared templates and their published versions only. -/
theorem listMarketplace_eq (h : SameShared tenantId a b) (collate : String → String → Bool)
    (backend : Backend) (page : ListParams) :
    listMarketplace collate backend a page = listMarketplace collate backend b page := by
  have hlisted : ∀ lib : Library, ∀ e ∈ lib.templates.rows.entries, isListed lib e = true →
      visibleTo tenantId e.2 = true := by
    intro lib e _ he
    unfold visibleTo
    rw [(Bool.and_eq_true_iff.mp he).1, Bool.or_true]
  have hstored : ∀ e ∈ b.templates.rows.entries.filter fun e => visibleTo tenantId e.2,
      a.templates.get? e.1 = some e.2 ∧ visibleTo tenantId e.2 = true := by
    intro e he
    obtain ⟨hmem, hvisible⟩ := List.mem_filter.mp he
    exact ⟨h.symm.template ((b.templates.rows.mem_entries_iff e.1 e.2).mp hmem) hvisible, hvisible⟩
  have hrows : a.templates.rows.entries.filter (isListed a) =
      b.templates.rows.entries.filter (isListed b) := by
    rw [filter_within (hlisted a), filter_within (hlisted b),
      OrderedMap.filter_entries_congr h.templates]
    refine List.filter_congr fun e he => ?_
    obtain ⟨htemplate, hvisible⟩ := hstored e he
    exact h.isListed_eq htemplate hvisible
  unfold listMarketplace
  rw [hrows]
  cases requirePostgres backend "listing the marketplace" with
  | error e => rfl
  | ok _ =>
      refine mapM_congr_mem fun e he => ?_
      -- an entry of the page is a listed template
      have hmem : e ∈ b.templates.rows.entries.filter (isListed b) :=
        (List.mem_insertionSort _).mp (List.mem_of_mem_drop (List.mem_of_mem_take he))
      obtain ⟨hentry, hlist⟩ := List.mem_filter.mp hmem
      obtain ⟨htemplate, hvisible⟩ := hstored e
        (List.mem_filter.mpr ⟨hentry, hlisted b e hentry hlist⟩)
      simp only [h.listing_eq htemplate hvisible]

/-- `list_versions` shows drafts to their owner only. -/
theorem listVersions_eq (h : SameShared tenantId a b) (id : Uuid) (page : ListParams) :
    listVersions a tenantId id page = listVersions b tenantId id page := by
  rcases h.cases_visible id with ⟨ha, hb⟩ | ⟨template, htemplate, htemplate', hsees⟩
  · rw [listVersions_of_hidden ha, listVersions_of_hidden hb]
  · have hrows := h.versionsOf_filter htemplate hsees (p := fun e => visibleTo tenantId template &&
      (!decide (e.2.status = .draft) || decide (template.tenantId = tenantId))) fun e he => by
        have hguard := (Bool.and_eq_true_iff.mp he).2
        rcases Bool.or_eq_true_iff.mp hguard with hstatus | hown
        · exact Or.inr (by simpa using hstatus)
        · exact Or.inl (of_decide_eq_true hown)
    unfold listVersions
    rw [htemplate, htemplate']
    simp only [hrows]

/-- `list_reviews` shows the reviews of what the tenant sees. -/
theorem listReviews_eq (h : SameShared tenantId a b) (id : Uuid) (page : ListParams) :
    listReviews a tenantId id page = listReviews b tenantId id page := by
  rcases h.cases_visible id with ⟨ha, hb⟩ | ⟨template, htemplate, htemplate', hsees⟩
  · rw [listReviews_of_hidden ha, listReviews_of_hidden hb]
  · unfold listReviews
    rw [htemplate, htemplate']
    simp only [h.reviewsOf_eq (isVisible_of_get? htemplate hsees)]

/-- What `submit_review` decides before it writes. -/
theorem requireReviewable_eq (h : SameShared tenantId a b) (id : Uuid)
    (request : SubmitReviewRequest) :
    requireReviewable a tenantId id request = requireReviewable b tenantId id request := by
  unfold requireReviewable
  rw [h.isVisible_eq id]

/-! ## Forks -/

theorem findForkSource_eq (h : SameShared tenantId a b) (id : Uuid) :
    findForkSource a tenantId id = findForkSource b tenantId id := by
  unfold findForkSource
  rw [h.templates id]

/-- A version asked for by its number is refused if it is a draft, so only published versions
are looked up. -/
theorem findForkableDefinition_some (lib : Library) (id : Uuid) (version : Int) :
    findForkableDefinition lib id (some version) =
      (((versionsOf lib id).filter fun e => !decide (e.2.status = .draft)).find? fun e =>
        decide (e.2.version = version)).map fun e => e.2.definition := by
  have hclash : ∀ d e : Uuid × VersionRow,
      (decide (d.2.templateId = id) && decide (d.2.version = version)) = true →
      (decide (e.2.templateId = id) && decide (e.2.version = version)) = true →
      VersionRow.clash d.2 e.2 = true := by
    intro d e hd he
    simp only [Bool.and_eq_true, decide_eq_true_eq] at hd he
    simp [VersionRow.clash, hd, he]
  have hfind := Table.find?_and (r := fun e => !decide (e.2.status = .draft)) hclash lib.versions
  have hrows : (((versionsOf lib id).filter fun e => !decide (e.2.status = .draft)).find? fun e =>
      decide (e.2.version = version)) =
      ((versionsOf lib id).find? fun e => decide (e.2.version = version)).filter fun e =>
        !decide (e.2.status = .draft) := by
    unfold versionsOf
    rw [List.find?_filter, List.find?_filter, List.find?_filter]
    simp only [Bool.decide_and, Bool.decide_eq_true, ← Bool.and_assoc]
    rw [← hfind]
    refine congrArg (fun p => List.find? p lib.versions.rows.entries) (funext fun e => ?_)
    rw [Bool.and_right_comm]
  rw [hrows]
  unfold findForkableDefinition
  simp only [Option.isNone_some, Bool.false_or]
  cases (versionsOf lib id).find? fun e => decide (e.2.version = version) with
  | none => rfl
  | some e =>
      by_cases hstatus : e.2.status = .draft
      · simp [Option.filter, hstatus]
      · simp [Option.filter, hstatus]

/-- `find_forkable_definition` reads published versions of what the tenant sees. -/
theorem findForkableDefinition_eq (h : SameShared tenantId a b) {id : Uuid}
    {template : TemplateRow} (htemplate : a.templates.get? id = some template)
    (hvisible : visibleTo tenantId template = true) (version : Option Int) :
    findForkableDefinition a id version = findForkableDefinition b id version := by
  cases version with
  | some version =>
      rw [findForkableDefinition_some, findForkableDefinition_some,
        h.versionsOf_published htemplate hvisible (p := fun s => !decide (s = .draft)) rfl]
  | none =>
      unfold findForkableDefinition
      simp only [h.versionsOf_published htemplate hvisible (p := fun s => decide (s = .stable)) rfl]

/-- A name is taken in both or in neither: it is taken by a template of the tenant's own. -/
theorem insertFork_eq (h : SameShared tenantId a b) {id : Uuid} (ha : a.templates.get? id = none)
    (hb : b.templates.get? id = none) (source : ForkSource) (definition : Json) (forkOf : Uuid)
    (userId : Option Uuid) (now : Instant) :
    (insertFork a id tenantId source definition forkOf userId now).map (fun _ => id) =
      (insertFork b id tenantId source definition forkOf userId now).map fun _ => id := by
  have hclash : ∀ {a b : Library}, SameShared tenantId a b →
      (∀ l y, a.templates.get? l = some y →
        (source.row tenantId definition forkOf userId now).clash y = false) →
      ∀ l y, b.templates.get? l = some y →
        (source.row tenantId definition forkOf userId now).clash y = false := by
    intro a b h ha l y hy
    by_cases hown : y.tenantId = tenantId
    · exact ha l y (h.symm.template hy (by simp [visibleTo, hown]))
    · unfold TemplateRow.clash
      have hne : tenantId ≠ y.tenantId := fun heq => hown heq.symm
      simp [ForkSource.row, hne]
  have hiff :
      (∃ t, a.templates.insert id (source.row tenantId definition forkOf userId now) = .ok t) ↔
        ∃ t, b.templates.insert id (source.row tenantId definition forkOf userId now) = .ok t := by
    rw [Table.insert_ok_iff TemplateRow.clash_comm ha,
      Table.insert_ok_iff TemplateRow.clash_comm hb]
    exact ⟨hclash h, hclash h.symm⟩
  unfold insertFork
  cases hinserta : a.templates.insert id (source.row tenantId definition forkOf userId now) with
  | ok t =>
      obtain ⟨t', hinsertb⟩ := hiff.mp ⟨t, hinserta⟩
      rw [hinsertb]
      rfl
  | error e =>
      cases hinsertb : b.templates.insert id (source.row tenantId definition forkOf userId now) with
      | ok t' =>
          obtain ⟨t, hok⟩ := hiff.mpr ⟨t', hinsertb⟩
          rw [hinserta] at hok
          cases hok
      | error e' =>
          rw [Table.insert_eq_error hinserta, Table.insert_eq_error hinsertb]
          rfl

/-- `fork_template` gives the same answer, as long as the id of the copy is new to both. -/
theorem forkTemplate_eq (h : SameShared tenantId a b) {id : Uuid} (ha : a.templates.get? id = none)
    (hb : b.templates.get? id = none) (templateId : Uuid) (version : Option Int)
    (userId : Option Uuid) (now : Instant) :
    (forkTemplate a id tenantId templateId version userId now).map Prod.snd =
      (forkTemplate b id tenantId templateId version userId now).map Prod.snd := by
  unfold forkTemplate
  rw [← h.findForkSource_eq templateId]
  cases hsource : findForkSource a tenantId templateId with
  | error e => rfl
  | ok found =>
      cases found with
      | none => rfl
      | some source =>
          -- there is a source only where the tenant sees the template
          obtain ⟨template, htemplate, hvisible⟩ : ∃ template,
              a.templates.get? templateId = some template ∧ visibleTo tenantId template = true := by
            unfold findForkSource at hsource
            cases hfound : (a.templates.get? templateId).filter (visibleTo tenantId) with
            | none =>
                rw [hfound] at hsource
                cases hsource
            | some template => exact ⟨template, Option.filter_eq_some_iff.mp hfound⟩
          have hdefinition := h.findForkableDefinition_eq htemplate hvisible version
          simp only [bind, Except.bind]
          rw [← hdefinition]
          cases findForkableDefinition a templateId version with
          | none => rfl
          | some definition =>
              have hinsert := h.insertFork_eq ha hb source definition templateId userId now
              cases hinserta : insertFork a id tenantId source definition templateId userId now with
              | error e =>
                  cases hinsertb :
                    insertFork b id tenantId source definition templateId userId now with
                  | error e' =>
                      rw [hinserta, hinsertb] at hinsert
                      cases hinsert
                      simp only [hinserta, hinsertb]
                  | ok lib' =>
                      rw [hinserta, hinsertb] at hinsert
                      cases hinsert
              | ok lib =>
                  cases hinsertb :
                    insertFork b id tenantId source definition templateId userId now with
                  | error e' =>
                      rw [hinserta, hinsertb] at hinsert
                      cases hinsert
                  | ok lib' =>
                      simp only [hinserta, hinsertb]
                      rfl

end SameShared

/-- **Drafts and private templates do not leak.** Two libraries that differ only in rows other
tenants own and do not share answer a tenant the same: the listing, the versions and reviews of
any template, whether it may be reviewed, and what a fork of it comes to, errors included. The
id of a fork is one the database has not given before. -/
theorem marketplace_sameShared {tenantId : Uuid} {a b : Library} (h : SameShared tenantId a b) :
    (∀ collate backend page, listMarketplace collate backend a page =
      listMarketplace collate backend b page) ∧
    (∀ templateId page, listVersions a tenantId templateId page =
      listVersions b tenantId templateId page) ∧
    (∀ templateId page, listReviews a tenantId templateId page =
      listReviews b tenantId templateId page) ∧
    (∀ templateId request, requireReviewable a tenantId templateId request =
      requireReviewable b tenantId templateId request) ∧
    ∀ id templateId version userId now, a.templates.get? id = none → b.templates.get? id = none →
      (forkTemplate a id tenantId templateId version userId now).map Prod.snd =
        (forkTemplate b id tenantId templateId version userId now).map Prod.snd :=
  ⟨h.listMarketplace_eq, h.listVersions_eq, h.listReviews_eq, h.requireReviewable_eq,
    fun _ templateId version userId now ha hb =>
      h.forkTemplate_eq ha hb templateId version userId now⟩

/-- A library of one shared template with a published version. -/
def publishedLibrary : Library where
  templates := ⟨.ofList [(1, officialRow 2 "notes" none (.object []) 0)], by decide⟩
  versions := ⟨.ofList [(10, ⟨1, 1, .object [], none, .stable, none, 0⟩)], by decide⟩
  reviews := .empty

/-- The same, with a draft of its next version and a private template beside it. -/
def draftedLibrary : Library where
  templates :=
    ⟨.ofList [(1, officialRow 2 "notes" none (.object []) 0),
      (3, { officialRow 2 "plans" none .null 0 with visibility := .tenant })], by decide⟩
  versions :=
    ⟨.ofList [(10, ⟨1, 1, .object [], none, .stable, none, 0⟩),
      (11, ⟨1, 2, .null, none, .draft, none, 0⟩)], by decide⟩
  reviews := .empty

/-- Libraries whose shared rows are the same. -/
theorem SameShared.of_filter {tenantId : Uuid} {a b : Library}
    (ht : (a.templates.rows.filter fun _ => visibleTo tenantId) =
      b.templates.rows.filter fun _ => visibleTo tenantId)
    (hv : (a.versions.rows.filter fun _ => versionShared a tenantId) =
      b.versions.rows.filter fun _ => versionShared b tenantId)
    (hr : (a.reviews.rows.filter fun _ => reviewShared a tenantId) =
      b.reviews.rows.filter fun _ => reviewShared b tenantId) : SameShared tenantId a b where
  templates := fun id => by
    simpa [Table.get?] using congrArg (OrderedMap.get? · id) ht
  versions := fun id => by
    simpa [Table.get?] using congrArg (OrderedMap.get? · id) hv
  reviews := fun id => by
    simpa [Table.get?] using congrArg (OrderedMap.get? · id) hr

theorem sameShared_draftedLibrary : SameShared 5 publishedLibrary draftedLibrary :=
  .of_filter (by decide) (by decide) (by decide)

theorem marketplace_sameShared_draftedLibrary :
    (forkTemplate publishedLibrary 20 5 1 (some 2) none 0).map Prod.snd =
      (forkTemplate draftedLibrary 20 5 1 (some 2) none 0).map Prod.snd :=
  (marketplace_sameShared sameShared_draftedLibrary).2.2.2.2 20 1 (some 2) none 0 (by decide)
    (by decide)

end Yorishiro.Template.Marketplace
