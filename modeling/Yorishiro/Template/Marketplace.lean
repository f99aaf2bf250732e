import Yorishiro.Template.Library

/-!
# The template marketplace

The enterprise edition's functions on the template library: listing, publishing, reviewing and
forking templates across tenants, and the seeding of the built-in ones.

The tables have no row-level security, so each query filters by itself. A fork takes the
definition of a published version as it is, and any JSON value can be published.
-/

set_option autoImplicit false

namespace Yorishiro.Template.Marketplace

open Yorishiro.Lib Yorishiro.Metaschema
open Yorishiro.Queue (Instant)

/-- `require_postgres`. -/
def requirePostgres (backend : Backend) (what : String) : Except YorishiroError Unit :=
  if backend = .postgres then .ok ()
  else .error (.backendUnsupported (what ++ " requires PostgreSQL"))

/-! ## Reads -/

/-- `MarketplaceListing`. The average is exact. -/
structure MarketplaceListing where
  templateId : Uuid
  name : String
  description : Option String
  tags : List String
  author : Option String
  tenantId : Uuid
  latestStableVersion : Option Int
  reviewCount : Nat
  averageRating : Option ℚ
deriving DecidableEq

/-- `TemplateVersionRecord`. -/
structure TemplateVersionRecord where
  id : Uuid
  templateId : Uuid
  version : Int
  definition : Json
  changelog : Option String
  status : TemplateVersionStatus
  createdAt : Instant
deriving DecidableEq

/-- `TemplateReviewRecord`. -/
structure TemplateReviewRecord where
  id : Uuid
  templateId : Uuid
  tenantId : Uuid
  rating : Int
  comment : Option String
  createdAt : Instant
  updatedAt : Instant
deriving DecidableEq, Repr

/-- `TemplateVersionRecord::try_from`. -/
def VersionRow.toRecord (id : Uuid) (row : VersionRow) : TemplateVersionRecord where
  id := id
  templateId := row.templateId
  version := row.version
  definition := row.definition
  changelog := row.changelog
  status := row.status
  createdAt := row.createdAt

/-- `TemplateReviewRecord::try_from`. -/
def ReviewRow.toRecord (id : Uuid) (row : ReviewRow) : TemplateReviewRecord where
  id := id
  templateId := row.templateId
  tenantId := row.tenantId
  rating := row.rating
  comment := row.comment
  createdAt := row.createdAt
  updatedAt := row.updatedAt

/-- The versions of a template, in the order of their ids. -/
def versionsOf (lib : Library) (templateId : Uuid) : List (Uuid × VersionRow) :=
  lib.versions.rows.entries.filter fun e => decide (e.2.templateId = templateId)

/-- The reviews of a template, in the order of their ids. -/
def reviewsOf (lib : Library) (templateId : Uuid) : List (Uuid × ReviewRow) :=
  lib.reviews.rows.entries.filter fun e => decide (e.2.templateId = templateId)

/-- `max(version)` among the rows. -/
def highestVersion (rows : List (Uuid × VersionRow)) : Option Int :=
  (rows.map fun e => e.2.version).max?

/-- `avg(rating)` among the rows. -/
def averageRating (rows : List (Uuid × ReviewRow)) : Option ℚ :=
  if rows.isEmpty then none
  else some ((rows.map fun e => (e.2.rating : ℚ)).sum / rows.length)

/-- The entry of a template in the listing, before its tags are read. -/
def listing (lib : Library) (e : Uuid × TemplateRow) (tags : List String) : MarketplaceListing where
  templateId := e.1
  name := e.2.name
  description := e.2.description
  tags := tags
  author := e.2.author
  tenantId := e.2.tenantId
  latestStableVersion :=
    highestVersion ((versionsOf lib e.1).filter fun v => decide (v.2.status = .stable))
  reviewCount := (reviewsOf lib e.1).length
  averageRating := averageRating (reviewsOf lib e.1)

/-- The template is shared and has a version that is not a draft. -/
def isListed (lib : Library) (e : Uuid × TemplateRow) : Bool :=
  decide (e.2.visibility = .community) &&
    (versionsOf lib e.1).any fun v => decide (v.2.status = .pre) || decide (v.2.status = .stable)

/-- `list_marketplace`. Names are compared by the database's collation. -/
def listMarketplace (collate : String → String → Bool) (backend : Backend) (lib : Library)
    (page : ListParams) : Except YorishiroError (List MarketplaceListing) := do
  requirePostgres backend "listing the marketplace"
  -- the rows come in the order of their ids, and the sort is stable
  let rows := (lib.templates.rows.entries.filter (isListed lib)).insertionSort
    fun a b => collate a.2.name b.2.name = true
  (page.page rows).mapM fun e => do
    let tags ← tagsFromJson e.2.tags
    pure (listing lib e tags)

/-- `list_versions`: drafts are shown to the owner only. -/
def listVersions (lib : Library) (tenantId templateId : Uuid) (page : ListParams) :
    List TemplateVersionRecord :=
  match lib.templates.get? templateId with
  | none => []
  | some template =>
      let rows := ((versionsOf lib templateId).filter fun e =>
        visibleTo tenantId template &&
          (!decide (e.2.status = .draft) || decide (template.tenantId = tenantId))).insertionSort
        fun a b => b.2.version ≤ a.2.version
      (page.page rows).map fun e => VersionRow.toRecord e.1 e.2

/-- `list_reviews`. Reviews of the same instant come in the order of their ids. -/
def listReviews (lib : Library) (tenantId templateId : Uuid) (page : ListParams) :
    List TemplateReviewRecord :=
  match lib.templates.get? templateId with
  | none => []
  | some template =>
      let rows := ((reviewsOf lib templateId).filter fun _ =>
        visibleTo tenantId template).insertionSort fun a b => b.2.createdAt ≤ a.2.createdAt
      (page.page rows).map fun e => ReviewRow.toRecord e.1 e.2

/-- `is_visible`. -/
def isVisible (lib : Library) (tenantId templateId : Uuid) : Bool :=
  (lib.templates.get? templateId).any (visibleTo tenantId)

/-- `ForkSource`. -/
structure ForkSource where
  name : String
  description : Option String
  tags : List String
  author : Option String
deriving DecidableEq, Repr

/-- `find_fork_source`. -/
def findForkSource (lib : Library) (tenantId templateId : Uuid) :
    Except YorishiroError (Option ForkSource) :=
  match (lib.templates.get? templateId).filter (visibleTo tenantId) with
  | none => .ok none
  | some row => do
      let tags ← tagsFromJson row.tags
      pure (some ⟨row.name, row.description, tags, row.author⟩)

/-- Of two versions of a template, the later one. -/
def laterVersion (a b : Uuid × VersionRow) : Uuid × VersionRow :=
  if a.2.version < b.2.version then b else a

/-- The first of the rows in descending order of versions. -/
def latestOf : List (Uuid × VersionRow) → Option (Uuid × VersionRow)
  | [] => none
  | e :: es => some (es.foldl laterVersion e)

/-- `find_forkable_definition`: the version asked for unless it is a draft, or the latest stable
one. -/
def findForkableDefinition (lib : Library) (templateId : Uuid) (version : Option Int) :
    Option Json :=
  let row : Option (Uuid × VersionRow) := match version with
    | some version => (versionsOf lib templateId).find? fun e => decide (e.2.version = version)
    | none => latestOf ((versionsOf lib templateId).filter fun e => decide (e.2.status = .stable))
  row.bind fun e =>
    if version.isNone || !decide (e.2.status = .draft) then some e.2.definition else none

/-! ## Writes -/

/-- `require_ownership`. -/
def requireOwnership (lib : Library) (tenantId templateId : Uuid) : Except YorishiroError Unit :=
  if (lib.owned tenantId templateId).isSome then .ok () else .error (templateMissing templateId)

/-- `SubmitReviewRequest`. -/
structure SubmitReviewRequest where
  rating : Int
  comment : Option String
deriving DecidableEq, Repr

/-- What `submit_review` decides before it writes: the rating is in range, and the tenant sees
the template. -/
def requireReviewable (lib : Library) (tenantId templateId : Uuid)
    (request : SubmitReviewRequest) : Except YorishiroError Unit := do
  if ¬(1 ≤ request.rating ∧ request.rating ≤ 5) then
    .error (.validationFailed "rating must be between 1 and 5" []
      "send an integer rating from 1 (worst) to 5 (best)")
  else if isVisible lib tenantId templateId then .ok ()
  else .error (templateMissing templateId)

/-- `upsert_review`: a tenant's second review of a template replaces its first. -/
def upsertReview (lib : Library) (id tenantId templateId : Uuid) (userId : Option Uuid)
    (request : SubmitReviewRequest) (now : Instant) :
    Except YorishiroError (Library × TemplateReviewRecord) :=
  match lib.reviews.rows.entries.find? fun e =>
      decide (e.2.templateId = templateId) && decide (e.2.tenantId = tenantId) with
  | some (id, row) => do
      let row := { row with rating := request.rating, comment := request.comment, updatedAt := now }
      let (reviews, _) ← (lib.reviews.updateRow id (fun _ => true) fun _ => row).mapError .internal
      pure ({ lib with reviews := reviews }, ReviewRow.toRecord id row)
  | none => do
      let row : ReviewRow :=
        ⟨templateId, tenantId, request.rating, request.comment, userId, now, now⟩
      let reviews ← (lib.reviews.insert id row).mapError .internal
      pure ({ lib with reviews := reviews }, ReviewRow.toRecord id row)

/-- `submit_review`. -/
def submitReview (lib : Library) (id tenantId templateId : Uuid) (userId : Option Uuid)
    (request : SubmitReviewRequest) (now : Instant) :
    Except YorishiroError (Library × TemplateReviewRecord) := do
  requireReviewable lib tenantId templateId request
  upsertReview lib id tenantId templateId userId request now

/-- `PublishVersionRequest`: any JSON value is taken as a definition. -/
structure PublishVersionRequest where
  definition : Json
  changelog : Option String
  status : TemplateVersionStatus
deriving DecidableEq

/-- The largest value of a column of type `integer`. -/
def maxInteger : Int := 2 ^ 31 - 1

/-- `insert_next_version`: the highest version there is and one, in the same statement. -/
def insertNextVersion (backend : Backend) (lib : Library) (id templateId : Uuid)
    (request : PublishVersionRequest) (userId : Option Uuid) (now : Instant) :
    Except YorishiroError (Library × TemplateVersionRecord) := do
  requirePostgres backend "publishing a template version"
  let version := (highestVersion (versionsOf lib templateId)).getD 0 + 1
  if maxInteger < version then .error (.internal .outOfRange)
  else if (lib.templates.get? templateId).isNone then .error (.internal .foreignKeyViolation)
  else do
    let row : VersionRow := ⟨templateId, version, request.definition, request.changelog,
      request.status, userId, now⟩
    let versions ← (lib.versions.insert id row).mapError .internal
    pure ({ lib with versions := versions }, VersionRow.toRecord id row)

theorem insertNextVersion_templates {backend : Backend} {lib lib' : Library}
    {id templateId : Uuid} {request : PublishVersionRequest} {userId : Option Uuid} {now : Instant}
    {record : TemplateVersionRecord}
    (h : insertNextVersion backend lib id templateId request userId now = .ok (lib', record)) :
    lib'.templates = lib.templates := by
  unfold insertNextVersion at h
  obtain ⟨_, -, h⟩ := Except.bind_eq_ok.mp h
  simp only at h
  split_ifs at h
  obtain ⟨_, -, h⟩ := Except.bind_eq_ok.mp h
  cases h
  rfl

/-- `publish_version`: only the owner publishes. -/
def publishVersion (backend : Backend) (lib : Library) (id tenantId templateId : Uuid)
    (userId : Option Uuid) (request : PublishVersionRequest) (now : Instant) :
    Except YorishiroError (Library × TemplateVersionRecord) := do
  requireOwnership lib tenantId templateId
  insertNextVersion backend lib id templateId request userId now

/-- The row `insert_fork` inserts: the caller's own, and private. -/
def ForkSource.row (source : ForkSource) (tenantId : Uuid) (definition : Json) (forkOf : Uuid)
    (userId : Option Uuid) (now : Instant) : TemplateRow where
  tenantId := tenantId
  name := source.name
  description := source.description
  definition := definition
  tags := tagsToJson source.tags
  locale := none
  visibility := .tenant
  author := source.author
  forkOf := some forkOf
  createdBy := userId
  createdAt := now
  updatedAt := now

/-- `insert_fork`; a unique violation of any kind is reported as a name that is taken. -/
def insertFork (lib : Library) (id tenantId : Uuid) (source : ForkSource) (definition : Json)
    (forkOf : Uuid) (userId : Option Uuid) (now : Instant) : Except YorishiroError Library :=
  ((lib.templates.insert id (source.row tenantId definition forkOf userId now)).map
    lib.withTemplates).mapError fun
      | .uniqueViolation =>
          .conflict ("this tenant already has a template named '" ++ source.name ++ "'")
      | err => .internal err

/-- `fork_template`: what is copied is the version's definition, as it is. -/
def forkTemplate (lib : Library) (id tenantId templateId : Uuid) (version : Option Int)
    (userId : Option Uuid) (now : Instant) : Except YorishiroError (Library × Uuid) := do
  match ← findForkSource lib tenantId templateId with
  | none => .error (templateMissing templateId)
  | some source =>
      match findForkableDefinition lib templateId version with
      | none => .error (.notFound "no published version of this template is available to fork")
      | some definition => do
          let lib ← insertFork lib id tenantId source definition templateId userId now
          pure (lib, id)

/-- `set_visibility`. -/
def setVisibility (lib : Library) (tenantId templateId : Uuid) (visibility : TemplateVisibility)
    (now : Instant) : Except YorishiroError Library := do
  requireOwnership lib tenantId templateId
  let (templates, _) ← (lib.templates.updateRow templateId (fun _ => true) fun row =>
    { row with visibility := visibility, updatedAt := now }).mapError .internal
  pure (lib.withTemplates templates)

/-! ## Seeding -/

/-- A built-in template: its id, and the definition its source reads as. -/
structure BuiltinTemplate (decode : Decoder) where
  id : String
  definition : Received decode

/-- `SeedOutcome`. -/
structure SeedOutcome where
  published : List String
  updated : List String
  unchanged : List String
deriving DecidableEq, Repr

section Seeding

variable {decode : Decoder} (backend : Backend) (officialTenantId : Uuid)

/-- `OFFICIAL_AUTHOR`. -/
def officialAuthor : String := "Yorishiro"

/-- The row `upsert_template` inserts. -/
def officialRow (name : String) (description : Option String) (definition : Json)
    (now : Instant) : TemplateRow where
  tenantId := officialTenantId
  name := name
  description := description
  definition := definition
  tags := tagsToJson []
  locale := none
  visibility := .community
  author := some officialAuthor
  forkOf := none
  createdBy := none
  createdAt := now
  updatedAt := now

/-- `upsert_template`: the official template of this name is created, or refreshed. -/
def upsertTemplate (lib : Library) (id : Uuid) (name : String) (description : Option String)
    (definition : Json) (now : Instant) : Except YorishiroError (Library × Uuid) :=
  match lib.templates.rows.entries.find? fun e =>
      decide (e.2.tenantId = officialTenantId) && decide (e.2.name = name) with
  | some (id, _) => do
      let (templates, _) ← (lib.templates.updateRow id (fun _ => true) fun row =>
        { row with
          description := description
          definition := definition
          visibility := .community
          author := some officialAuthor
          updatedAt := now }).mapError .internal
      pure (lib.withTemplates templates, id)
  | none => do
      let templates ← (lib.templates.insert id
        (officialRow officialTenantId name description definition now)).mapError .internal
      pure (lib.withTemplates templates, id)

/-- The ids a seeded template and its version get, should they be new. -/
structure SeedIds where
  templateId : Uuid
  versionId : Uuid
deriving DecidableEq, Repr

/-- The version a round publishes, in a transaction of its own. -/
def publishOfficial (lib : Library) (builtin : BuiltinTemplate decode) (id templateId : Uuid)
    (now : Instant) (outcome : SeedOutcome) : Library × Except YorishiroError SeedOutcome :=
  let request : PublishVersionRequest :=
    { definition := builtin.definition.definition.toJson
      changelog := some ("Built-in template '" ++ builtin.id ++ "'")
      status := .stable }
  match insertNextVersion backend lib id templateId request none now with
  | .error e => (lib, .error e)
  | .ok (lib, _) => (lib, .ok outcome)

/-- One round of `seed_official_templates`. The template is written for good before its version
is, so the library comes back even where the round fails. -/
def seedTemplate (lib : Library) (builtin : BuiltinTemplate decode) (ids : SeedIds)
    (now : Instant) (outcome : SeedOutcome) : Library × Except YorishiroError SeedOutcome :=
  let definition := builtin.definition.definition.toJson
  match upsertTemplate officialTenantId lib ids.templateId builtin.id
      builtin.definition.definition.description definition now with
  | .error e => (lib, .error e)
  | .ok (lib, templateId) =>
      match latestOf (versionsOf lib templateId) with
      | some latest =>
          if latest.2.definition = definition then
            (lib, .ok { outcome with unchanged := outcome.unchanged ++ [builtin.id] })
          else
            publishOfficial backend lib builtin ids.versionId templateId now
              { outcome with updated := outcome.updated ++ [builtin.id] }
      | none =>
          publishOfficial backend lib builtin ids.versionId templateId now
            { outcome with published := outcome.published ++ [builtin.id] }

/-- `seed_official_templates`: round after round, until one fails. -/
def seedOfficialTemplates (now : Instant) :
    Library → List (BuiltinTemplate decode × SeedIds) → SeedOutcome →
      Library × Except YorishiroError SeedOutcome
  | lib, [], outcome => (lib, .ok outcome)
  | lib, (builtin, ids) :: rest, outcome =>
      match seedTemplate backend officialTenantId lib builtin ids now outcome with
      | (lib, .error e) => (lib, .error e)
      | (lib, .ok outcome) => seedOfficialTemplates now lib rest outcome

variable {backend}

theorem publishOfficial_templates {lib : Library} {builtin : BuiltinTemplate decode}
    {id templateId : Uuid} {now : Instant} {outcome : SeedOutcome} :
    (publishOfficial backend lib builtin id templateId now outcome).1.templates =
      lib.templates := by
  unfold publishOfficial
  simp only
  split
  · rfl
  · rename_i lib' record hinsert
    exact insertNextVersion_templates hinsert

/-- **Rule for seeding.** What every `upsert_template` of the rounds keeps of the templates, the
whole seeding keeps, wherever it stops. -/
theorem seedOfficialTemplates_keeps
    {P : Table Uuid TemplateRow TemplateRow.clash → Prop} {now : Instant}
    {rounds : List (BuiltinTemplate decode × SeedIds)}
    (hupsert : ∀ e ∈ rounds, ∀ lib lib' templateId, P lib.templates →
      upsertTemplate officialTenantId lib e.2.templateId e.1.id
        e.1.definition.definition.description e.1.definition.definition.toJson now =
          .ok (lib', templateId) → P lib'.templates)
    {lib : Library} {outcome : SeedOutcome} (h : P lib.templates) :
    P (seedOfficialTemplates backend officialTenantId now lib rounds outcome).1.templates := by
  induction rounds generalizing lib outcome with
  | nil => exact h
  | cons e rounds ih =>
      obtain ⟨builtin, ids⟩ := e
      have hround : P (seedTemplate backend officialTenantId lib builtin ids now
          outcome).1.templates := by
        unfold seedTemplate
        simp only
        split
        · exact h
        · rename_i lib₁ templateId hok
          have hwritten := hupsert (builtin, ids) List.mem_cons_self lib lib₁ templateId h hok
          -- publishing the version leaves the templates as they were written
          split
          · split_ifs
            · exact hwritten
            · rw [publishOfficial_templates]
              exact hwritten
          · rw [publishOfficial_templates]
            exact hwritten
      unfold seedOfficialTemplates
      split
      · rename_i lib₁ err hseed
        rw [hseed] at hround
        exact hround
      · rename_i lib₁ outcome₁ hseed
        rw [hseed] at hround
        exact ih (fun e he => hupsert e (List.mem_cons_of_mem _ he)) hround

end Seeding

end Yorishiro.Template.Marketplace
