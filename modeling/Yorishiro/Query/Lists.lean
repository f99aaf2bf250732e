import Mathlib.Data.Prod.Lex
import Mathlib.Data.String.Basic
import Mathlib.Order.OrderDual
import Yorishiro.Entity.Workspace
import Yorishiro.Lib.Paging
import Yorishiro.Template.Library
import Yorishiro.Tenancy.Database

/-!
# Lists

The lists of entities, relations, API keys and templates are ordered by the time of creation alone,
and a client walks over them page by page. Rows of one transaction have one time of creation, an
import's for instance, and their order is another one in every query. `lists_exact_iff` says which
walks can be relied on: those over a list in which no page boundary separates rows of one time. The
list of schemas is ordered by what is unique, and every walk over it is exact.
-/

set_option autoImplicit false

namespace Yorishiro.Query

open Yorishiro.Lib Yorishiro.Lib.Paging Yorishiro.Lib.Ranking
open Yorishiro.Entity Yorishiro.Schema
open Yorishiro.Queue (Instant)
open Yorishiro.Template (ListParams maxListLimit TemplateRow visibleTo)
open Yorishiro.Tenancy (ApiKey)

/-! ## Pages -/

/-- `ListParams::limit`. -/
def clampedLimit (page : ListParams) : Nat := (max 1 (min page.limit maxListLimit)).toNat

/-- `ListParams::offset`. -/
def clampedOffset (page : ListParams) : Nat := (max page.offset 0).toNat

/-- The number of rows on a page, for the `page_size` of a request. -/
def pageLimit (pageSize : Nat) : Nat := max 1 (min pageSize maxListLimit.toNat)

/-- `from_pagination_query`. -/
def fromPaginationQuery (page pageSize : Nat) : Except YorishiroError ListParams :=
  let offset := (max page 1 - 1) * pageLimit pageSize
  if max page 1 - 1 < 2 ^ 63 ∧ offset < 2 ^ 63 then .ok ⟨pageLimit pageSize, offset⟩
  else .error (.validationFailed "pagination offset is too large" [] "use a smaller page number")

/-! ## Queries -/

section Listings

variable {ρ κ : Type}

/-- A list: the rows that are kept, and the columns of `ORDER BY`. -/
structure Listing (ρ κ : Type) where
  keeps : ρ → Bool
  key : ρ → κ

/-- The rows that the list is about. -/
def Listing.matching (l : Listing ρ κ) (rows : List ρ) : List ρ := rows.filter l.keeps

variable [LinearOrder κ]

/-- A page that the database may return. -/
def Listing.Answers (l : Listing ρ κ) (page : ListParams) (rows out : List ρ) : Prop :=
  Page (byKey l.key) (clampedOffset page) (clampedLimit page) (l.matching rows) out

/-- What a client may be shown that asks for the first pages. -/
def Listing.Shows (l : Listing ρ κ) (pageSize : Nat) (rows : List ρ) (outs : List (List ρ)) :
    Prop :=
  ∀ i out, outs[i]? = some out →
    ∃ page, fromPaginationQuery (i + 1) pageSize = .ok page ∧ l.Answers page rows out

/-- Whatever `n` pages the client is shown: together they are the rows of the list, each one once,
in their order. -/
def Listing.Exact (l : Listing ρ κ) (pageSize n : Nat) (rows : List ρ) : Prop :=
  ∀ outs, outs.length = n → l.Shows pageSize rows outs →
    Ordered (byKey l.key) (l.matching rows) outs.flatten

/-- `n` pages are enough for the list, and their offsets fit. -/
def Listing.Covered (l : Listing ρ κ) (pageSize n : Nat) (rows : List ρ) : Prop :=
  (l.matching rows).length ≤ n * pageLimit pageSize ∧ n * pageLimit pageSize ≤ 2 ^ 63

/-- A page boundary separates two rows of one key. -/
def Listing.tied (l : Listing ρ κ) (pageSize : Nat) (rows : List ρ) : Bool :=
  Paging.tied (pageLimit pageSize) (((l.matching rows).map l.key).insertionSort (· ≤ ·))

end Listings

/-- `EntityRecord`. -/
structure EntityRecord where
  id : Uuid
  schemaId : Uuid
  schemaVersion : Int
  entityType : String
  data : Json
  createdAt : Instant
  updatedAt : Instant
  createdBy : Option Uuid
  updatedBy : Option Uuid

/-- The entities of a workspace, with their column `created_at`. -/
def entityRecords (store : EntityStore) (createdAt : Uuid → Instant) : List EntityRecord :=
  store.rows.entries.map fun e =>
    { id := e.1
      schemaId := e.2.schemaId
      schemaVersion := e.2.schemaVersion
      entityType := e.2.entityType
      data := e.2.data
      createdAt := createdAt e.1
      updatedAt := e.2.updatedAt
      createdBy := e.2.createdBy
      updatedBy := e.2.updatedBy }

/-- `ListEntitiesQuery`, without its page. -/
structure ListEntitiesQuery where
  entityType : Option String
  filter : Option Json
  schemaVersion : Option Int

/-- `list` of entities. -/
def listEntities (backend : Backend) (contains : Json → Json → Bool) (query : ListEntitiesQuery) :
    Except YorishiroError (Listing EntityRecord (OrderDual Instant)) :=
  if query.filter.isSome = true ∧ backend = .sqlite then
    .error (.backendUnsupported
      "entity filter (JSONB containment) is not supported on SQLite")
  else
    .ok
      { keeps := fun row =>
          (query.entityType.all fun t => decide (row.entityType = t)) &&
            (query.filter.all fun filter => contains row.data filter) &&
              query.schemaVersion.all fun v => decide (row.schemaVersion = v)
        key := fun row => OrderDual.toDual row.createdAt }

/-- `ListRelationsQuery`, without its page. -/
structure ListRelationsQuery where
  sourceId : Option Uuid
  targetId : Option Uuid
  relationType : Option String
  status : Option RelationStatus

/-- `list` of relations. -/
def listRelations (createdAt : Uuid → Instant) (query : ListRelationsQuery) :
    Listing (Uuid × RelationRecord) (OrderDual Instant) where
  keeps row :=
    (query.sourceId.all fun id => decide (row.2.sourceId = id)) &&
      (query.targetId.all fun id => decide (row.2.targetId = id)) &&
        (query.relationType.all fun t => decide (row.2.relationType = t)) &&
          query.status.all fun status => decide (row.2.status = status)
  key row := OrderDual.toDual (createdAt row.1)

/-- `list_for_workspace` of API keys. -/
def listKeys (workspaceId : Uuid) : Listing (Uuid × ApiKey) Instant where
  keeps row := decide (row.2.workspaceId = some workspaceId)
  key row := row.2.createdAt

/-- The query of `list_templates`. -/
def templateListing (tenantId : Uuid) : Listing (Uuid × TemplateRow) Instant where
  keeps row := visibleTo tenantId row.2
  key row := row.2.createdAt

/-- `list` of schemas; `collate` is the order that the database has for names. -/
def schemaListing {κ : Type} [LinearOrder κ] (collate : String → κ) :
    Listing (Uuid × SchemaRecord) (κ ×ₗ Int) where
  keeps _ := true
  key row := toLex (collate row.2.name, row.2.version)

/-! ## Walks over pages -/

section Walks

variable {ρ κ : Type} [LinearOrder κ] {l : Listing ρ κ} {pageSize n : Nat} {rows : List ρ}

theorem pageLimit_pos (pageSize : Nat) : 0 < pageLimit pageSize :=
  lt_of_lt_of_le Nat.one_pos (le_max_left _ _)

/-- The page `i`, counted from 0, as long as offsets fit. -/
theorem fromPaginationQuery_eq {i : Nat} (h : (i + 1) * pageLimit pageSize ≤ 2 ^ 63) :
    ∃ page, fromPaginationQuery (i + 1) pageSize = .ok page ∧
      clampedOffset page = i * pageLimit pageSize ∧ clampedLimit page = pageLimit pageSize := by
  have hpos := pageLimit_pos pageSize
  have hle : i + 1 ≤ (i + 1) * pageLimit pageSize := Nat.le_mul_of_pos_right _ hpos
  have hoffset : i * pageLimit pageSize < 2 ^ 63 := by
    rw [Nat.succ_mul] at h
    omega
  have hindex : max (i + 1) 1 - 1 = i := by omega
  refine ⟨⟨pageLimit pageSize, i * pageLimit pageSize⟩, ?_, ?_, ?_⟩
  · unfold fromPaginationQuery
    rw [hindex, if_pos ⟨by omega, hoffset⟩]
    rfl
  · unfold clampedOffset
    dsimp only
    rw [max_eq_left (by positivity), ← Nat.cast_mul, Int.toNat_natCast]
  · unfold clampedLimit pageLimit maxListLimit
    dsimp only
    omega

/-- A client that asks for pages walks over the list. -/
theorem shows_iff {outs : List (List ρ)} (hfits : outs.length * pageLimit pageSize ≤ 2 ^ 63) :
    l.Shows pageSize rows outs ↔
      Walk (byKey l.key) (pageLimit pageSize) (l.matching rows) outs := by
  refine forall₃_congr fun i out hout => ?_
  have hi : i + 1 ≤ outs.length := (List.getElem?_eq_some_iff.mp hout).1
  have hfit : (i + 1) * pageLimit pageSize ≤ 2 ^ 63 :=
    (Nat.mul_le_mul_right _ hi).trans hfits
  obtain ⟨page, hpage, hoffset, hlimit⟩ := fromPaginationQuery_eq hfit
  unfold Listing.Answers
  constructor
  · rintro ⟨page', hpage', hanswers⟩
    obtain rfl : page = page' := Except.ok.inj (hpage.symm.trans hpage')
    rwa [hoffset, hlimit] at hanswers
  · intro hwalk
    refine ⟨page, hpage, ?_⟩
    rwa [hoffset, hlimit]

/-- A walk can be relied on if and only if no page boundary separates two rows of one key. -/
theorem exact_iff (hnodup : rows.Nodup) (hcovered : l.Covered pageSize n rows) :
    l.Exact pageSize n rows ↔ l.tied pageSize rows = false := by
  obtain ⟨hcover, hfits⟩ := hcovered
  obtain ⟨all, hall⟩ := exists_ordered l.key (l.matching rows)
  have hpos := pageLimit_pos pageSize
  unfold Listing.tied
  rw [← map_key_eq hall, ← firm_iff hpos hall,
    ← walk_ordered_iff hpos (hnodup.filter l.keeps) hcover hall]
  refine forall₂_congr fun outs hlength => ?_
  rw [shows_iff (hlength.symm ▸ hfits)]
  rfl

/-- Keys that tell the rows apart do not tie. -/
theorem not_tied (hkeys : (rows.map l.key).Nodup) : l.tied pageSize rows = false := by
  have hnodup : (((l.matching rows).map l.key).insertionSort (· ≤ ·)).Nodup :=
    (List.perm_insertionSort _ _).nodup_iff.mpr (hkeys.sublist (List.filter_sublist.map l.key))
  refine List.any_eq_false.mpr fun b hb htied => ?_
  simp only [Bool.and_eq_true, decide_eq_true_eq] at htied
  obtain ⟨⟨hpos, -⟩, heq⟩ := htied
  have hb := List.mem_range.mp hb
  rw [List.getElem?_eq_getElem (by omega), List.getElem?_eq_getElem hb] at heq
  have hsame := (List.Nodup.getElem_inj_iff hnodup).mp (Option.some.inj heq)
  omega

end Walks

/-! ## Main result -/

theorem nodup_entityRecords (store : EntityStore) (createdAt : Uuid → Instant) :
    (entityRecords store createdAt).Nodup := by
  refine List.Nodup.of_map EntityRecord.id ?_
  have hids : (entityRecords store createdAt).map EntityRecord.id = store.rows.keys := by
    unfold entityRecords
    rw [List.map_map]
    rfl
  rw [hids]
  exact store.rows.nodup_keys

theorem nodup_entries {ρ : Type} (m : OrderedMap Uuid ρ) : m.entries.Nodup :=
  List.Nodup.of_map Prod.fst m.nodup_keys

theorem nodup_schemaKeys {κ : Type} [LinearOrder κ] {collate : String → κ}
    (hcollate : Function.Injective collate) (schemas : Schemas) :
    (schemas.rows.entries.map (schemaListing collate).key).Nodup := by
  refine List.pairwise_map.mpr (schemas.unique.imp fun {a b} hclash hsame => ?_)
  have hpair : (collate a.2.name, a.2.version) = (collate b.2.name, b.2.version) := hsame
  rw [Prod.mk.injEq] at hpair
  simp [SchemaRecord.clash, hcollate hpair.1, hpair.2] at hclash

/-- **Lists.** For all rows, filters and page sizes, on both databases: a walk over enough pages of
the list of entities, relations, keys or templates is sure to show every row once and in order if
and only if no page boundary separates two rows of one time of creation. A walk over the list of
schemas always does, however the database orders names that differ. -/
theorem lists_exact_iff (pageSize n : Nat) :
    (∀ (store : EntityStore) (createdAt : Uuid → Instant) (backend : Backend)
      (contains : Json → Json → Bool) (query : ListEntitiesQuery)
      (l : Listing EntityRecord (OrderDual Instant)),
      listEntities backend contains query = .ok l →
        l.Covered pageSize n (entityRecords store createdAt) →
          (l.Exact pageSize n (entityRecords store createdAt) ↔
            l.tied pageSize (entityRecords store createdAt) = false)) ∧
      (∀ (relations : Relations) (createdAt : Uuid → Instant) (query : ListRelationsQuery),
        (listRelations createdAt query).Covered pageSize n relations.rows.entries →
          ((listRelations createdAt query).Exact pageSize n relations.rows.entries ↔
            (listRelations createdAt query).tied pageSize relations.rows.entries = false)) ∧
      (∀ (db : Tenancy.Db) (workspaceId : Uuid),
        (listKeys workspaceId).Covered pageSize n db.keys.rows.entries →
          ((listKeys workspaceId).Exact pageSize n db.keys.rows.entries ↔
            (listKeys workspaceId).tied pageSize db.keys.rows.entries = false)) ∧
      (∀ (library : Template.Library) (tenantId : Uuid),
        (templateListing tenantId).Covered pageSize n library.templates.rows.entries →
          ((templateListing tenantId).Exact pageSize n library.templates.rows.entries ↔
            (templateListing tenantId).tied pageSize library.templates.rows.entries = false)) ∧
      ∀ {κ : Type} [LinearOrder κ] (collate : String → κ), Function.Injective collate →
        ∀ schemas : Schemas, (schemaListing collate).Covered pageSize n schemas.rows.entries →
          (schemaListing collate).Exact pageSize n schemas.rows.entries := by
  refine ⟨fun store createdAt _ _ _ _ _ hcovered => ?_, fun _ _ _ hcovered => ?_,
    fun _ _ hcovered => ?_, fun _ _ hcovered => ?_, fun collate hcollate schemas hcovered => ?_⟩
  · exact exact_iff (nodup_entityRecords store createdAt) hcovered
  · exact exact_iff (nodup_entries _) hcovered
  · exact exact_iff (nodup_entries _) hcovered
  · exact exact_iff (nodup_entries _) hcovered
  · exact (exact_iff (nodup_entries _) hcovered).mpr (not_tied (nodup_schemaKeys hcollate schemas))

/-! ### Two entities of one transaction -/

/-- Two notes that an import has created. -/
def twoNotes : EntityStore where
  rows := OrderedMap.ofList
    [(1, ⟨5, 1, "note", .object [], 10, none, none, "a"⟩),
      (2, ⟨5, 1, "note", .object [], 10, none, none, "b"⟩)]
  tables := ⟨⟨false, none, none⟩, .empty, [], .empty, .empty⟩

/-- All entities. -/
def everyEntity : ListEntitiesQuery := ⟨none, none, none⟩

/-- A walk in pages of one row may show one of the notes twice. -/
theorem lists_exact_iff_twoNotes : ∃ l, listEntities .postgres (fun _ _ => true) everyEntity =
    .ok l ∧ ¬ l.Exact 1 2 (entityRecords twoNotes fun _ => 10) := by
  obtain ⟨l, hl⟩ : ∃ l, listEntities .postgres (fun _ _ => true) everyEntity = .ok l := ⟨_, rfl⟩
  have hcovered : l.Covered 1 2 (entityRecords twoNotes fun _ => 10) := by
    cases hl
    exact ⟨by decide, by decide⟩
  have htied : l.tied 1 (entityRecords twoNotes fun _ => 10) = true := by
    cases hl
    decide
  refine ⟨l, hl, fun hexact => ?_⟩
  rw [((lists_exact_iff 1 2).1 twoNotes (fun _ => 10) .postgres _ everyEntity l hl hcovered).mp
    hexact] at htied
  cases htied

end Yorishiro.Query
