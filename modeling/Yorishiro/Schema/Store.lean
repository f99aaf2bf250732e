import Yorishiro.Base.Uuid
import Yorishiro.Metaschema.Validate
import Yorishiro.Queue.Lifecycle

/-!
# Stored schema versions

The table `schema_schemas` of one workspace and the functions that write it. A
version's definition is never rewritten: `create_schema` adds a version and
archives the one before, `archive` only changes a status. `Extends` says so, and
`createSchema_extends` and `archive_extends` are the results about the two.
-/

set_option autoImplicit false

namespace Yorishiro.Schema

open Yorishiro.Lib Yorishiro.Lib.JsonSchema Yorishiro.Metaschema
open Yorishiro.Queue (Instant)

/-- `SchemaStatus`. -/
inductive SchemaStatus where
  | active
  | archived
deriving DecidableEq, Repr

/-- `SchemaOriginStatus`. -/
inductive SchemaOriginStatus where
  | linked
  | detached
deriving DecidableEq, Repr

/-- A row of `schema_schemas` (its primary key is the table's key). -/
structure SchemaRecord where
  tenantId : Uuid
  name : String
  version : Int
  definition : MetaSchemaDefinition
  status : SchemaStatus
  originTemplateId : Option Uuid
  originStatus : SchemaOriginStatus
  originSnapshot : Option MetaSchemaDefinition
  originUpdatedAt : Option Instant

/-- `schema_schemas_workspace_name_version_key`. -/
def SchemaRecord.clash (a b : SchemaRecord) : Bool :=
  decide (a.name = b.name) && decide (a.version = b.version)

/-- The table `schema_schemas`. -/
abbrev Schemas := Table Uuid SchemaRecord SchemaRecord.clash

/-- The part of a workspace's own row that the schema and entity functions use. -/
structure Workspace where
  schemaPending : Bool
  schemaId : Option Uuid
  maxEntities : Option Int
deriving DecidableEq, Repr

/-- Of two versions, the later one. -/
def later (a b : Uuid × SchemaRecord) : Uuid × SchemaRecord :=
  if a.2.version < b.2.version then b else a

/-- The first row in descending order of versions, among the rows `p` selects. -/
def latest (schemas : Schemas) (p : SchemaRecord → Bool) : Option (Uuid × SchemaRecord) :=
  match schemas.rows.entries.filter fun e => p e.2 with
  | [] => none
  | e :: es => some (es.foldl later e)

/-- The active rows of a name. -/
def isActive (name : String) (row : SchemaRecord) : Bool :=
  decide (row.name = name) && decide (row.status = .active)

/-- `get_active_schema`. -/
def getActiveSchema (schemas : Schemas) (name : String) :
    Except YorishiroError (Uuid × SchemaRecord) :=
  match latest schemas (isActive name) with
  | some row => .ok row
  | none => .error (.notFound ("no active schema named '" ++ name ++ "'"))

/-- `get_by_id`. -/
def getById (schemas : Schemas) (id : Uuid) : Except YorishiroError SchemaRecord :=
  match schemas.get? id with
  | some row => .ok row
  | none => .error (.notFound ("schema '" ++ id.toString ++ "' was not found"))

/-- `archive`: retires one version. -/
def archive (schemas : Schemas) (id : Uuid) : Except YorishiroError (Schemas × SchemaRecord) := do
  let _ ← getById schemas id
  let (schemas', _) ← (schemas.updateRow id (fun row => decide (row.status = .active))
    fun row => { row with status := .archived }).mapError .internal
  let row ← getById schemas' id
  pure (schemas', row)

/-- The origin of a new version: inherited from the version before, unless the caller
names one. -/
def inheritOrigin (previous : Option (Uuid × SchemaRecord)) (originTemplateId : Option Uuid)
    (originSnapshot : Option MetaSchemaDefinition) (now : Instant) :
    Option Uuid × Option MetaSchemaDefinition × Option Instant :=
  match previous, originTemplateId with
  | some (_, row), none => (row.originTemplateId, row.originSnapshot, row.originUpdatedAt)
  | _, _ => (originTemplateId, originSnapshot, if originTemplateId.isSome then some now else none)

/-- `mark_active`. -/
def markActive (workspace : Workspace) (id : Uuid) : Workspace :=
  { workspace with
    schemaPending := false
    schemaId := some (workspace.schemaId.getD id) }

/-- The part of `create_schema` that archives the version before, when there is one. -/
def archivePrevious (schemas : Schemas) (name : String)
    (previous : Option (Uuid × SchemaRecord)) : Except YorishiroError Schemas :=
  if previous.isSome then
    ((schemas.updateWhere (fun _ row => isActive name row)
      fun row => { row with status := .archived }).mapError .internal).map Prod.fst
  else .ok schemas

/-- The highest version of a name, archived versions included, or 0. -/
def latestVersion (schemas : Schemas) (name : String) : Int :=
  ((latest schemas fun row => decide (row.name = name)).map fun e => e.2.version).getD 0

/-- The next version of a name. The addition is on 32-bit integers, and the released
program is built without overflow checks. -/
def nextVersion (schemas : Schemas) (name : String) : Int :=
  Int.bmod (latestVersion schemas name + 1) (2 ^ 32)

/-- The name of the lock that new versions of a schema share. -/
def versionLockKey (workspace : Uuid) (name : String) : String :=
  workspace.toString ++ ":" ++ name

/-- `create_schema`, with the id and the time the new version gets. -/
def createSchema (env : Dialect) (display : ℚ → String) (schemas : Schemas)
    (workspace : Workspace) (tenantId : Uuid) (definition : MetaSchemaDefinition)
    (originTemplateId : Option Uuid) (originSnapshot : Option MetaSchemaDefinition)
    (id : Uuid) (now : Instant) :
    Except YorishiroError (Schemas × Workspace × SchemaRecord × VersioningDiff) := do
  validateDefinition env display definition
  let name := definition.name
  let previous := latest schemas (isActive name)
  let origin := inheritOrigin previous originTemplateId originSnapshot now
  let versioning := (previous.map fun e => diff e.2.definition definition).getD
    { isBreaking := false, reasons := [] }
  -- every active version of the name is archived, not only the one compared with
  let archived ← archivePrevious schemas name previous
  let row : SchemaRecord :=
    { tenantId := tenantId
      name := name
      version := nextVersion schemas name
      definition := definition
      status := .active
      originTemplateId := origin.1
      originStatus := if origin.1.isSome then .linked else .detached
      originSnapshot := origin.2.1
      originUpdatedAt := origin.2.2 }
  let schemas' ← (archived.insert id row).mapError fun
    -- two creations that read the same latest version collide on the unique index
    | .uniqueViolation => .conflict ("schema '" ++ name ++ "' version " ++
        toString (nextVersion schemas name) ++ " already exists (concurrent create?)")
    | err => .internal err
  pure (schemas', markActive workspace id, row, versioning)

/-! ## Versions are kept -/

/-- Every version of `a` is in `b` with the name and definition it had. -/
def Extends (a b : Schemas) : Prop :=
  ∀ id row, a.get? id = some row → ∃ row', b.get? id = some row' ∧
    row'.name = row.name ∧ row'.definition = row.definition

theorem Extends.refl (a : Schemas) : Extends a a := fun _ row h => ⟨row, h, rfl, rfl⟩

theorem Extends.trans {a b c : Schemas} (hab : Extends a b) (hbc : Extends b c) :
    Extends a c := by
  intro id row h
  obtain ⟨row', h', hname, hdef⟩ := hab id row h
  obtain ⟨row'', h'', hname', hdef'⟩ := hbc id row' h'
  exact ⟨row'', h'', hname'.trans hname, hdef'.trans hdef⟩

theorem getById_eq_ok {schemas : Schemas} {id : Uuid} {row : SchemaRecord} :
    getById schemas id = .ok row ↔ schemas.get? id = some row := by
  unfold getById
  cases schemas.get? id with
  | none => simp
  | some row' => simp

theorem foldl_later_mem (e : Uuid × SchemaRecord) (es : List (Uuid × SchemaRecord)) :
    es.foldl later e ∈ e :: es := by
  induction es generalizing e with
  | nil => exact List.mem_cons_self
  | cons d es ih =>
      rw [List.foldl_cons]
      have hlater : later e d = e ∨ later e d = d := by
        unfold later
        split_ifs
        · exact Or.inr rfl
        · exact Or.inl rfl
      rcases List.mem_cons.mp (ih (later e d)) with hmem | hmem
      · rw [hmem]
        rcases hlater with h | h
        · rw [h]
          exact List.mem_cons_self
        · rw [h]
          exact List.mem_cons_of_mem _ List.mem_cons_self
      · exact List.mem_cons_of_mem _ (List.mem_cons_of_mem _ hmem)

theorem version_le_foldl_later (e : Uuid × SchemaRecord) (es : List (Uuid × SchemaRecord)) :
    ∀ d ∈ e :: es, d.2.version ≤ (es.foldl later e).2.version := by
  induction es generalizing e with
  | nil =>
      intro d hd
      rw [List.mem_singleton.mp hd]
      exact le_rfl
  | cons c es ih =>
      intro d hd
      rw [List.foldl_cons]
      -- the later of the first two is at least each of them
      have hle : e.2.version ≤ (later e c).2.version ∧ c.2.version ≤ (later e c).2.version := by
        unfold later
        split_ifs with h
        · exact ⟨h.le, le_rfl⟩
        · exact ⟨le_rfl, not_lt.mp h⟩
      have hlater := ih (later e c) _ List.mem_cons_self
      rcases List.mem_cons.mp hd with rfl | hd
      · exact hle.1.trans hlater
      rcases List.mem_cons.mp hd with rfl | hd
      · exact hle.2.trans hlater
      · exact ih (later e c) d (List.mem_cons_of_mem _ hd)

/-- The latest of the selected rows is one of them. -/
theorem latest_eq_some {schemas : Schemas} {p : SchemaRecord → Bool} {e : Uuid × SchemaRecord}
    (h : latest schemas p = some e) : schemas.get? e.1 = some e.2 ∧ p e.2 = true := by
  unfold latest at h
  split at h
  · cases h
  · rename_i d es hfilter
    cases h
    have hmem := hfilter ▸ foldl_later_mem d es
    obtain ⟨hentry, hp⟩ := List.mem_filter.mp hmem
    exact ⟨(schemas.rows.mem_entries_iff _ _).mp hentry, hp⟩

/-- `get_active_schema` returns a stored version. -/
theorem get?_of_getActiveSchema {schemas : Schemas} {name : String}
    {active : Uuid × SchemaRecord} (h : getActiveSchema schemas name = .ok active) :
    schemas.get? active.1 = some active.2 := by
  unfold getActiveSchema at h
  split at h
  · rename_i row hrow
    cases h
    exact (latest_eq_some hrow).1
  · cases h

/-- It is the active version of the name. -/
theorem getActiveSchema_eq_ok {schemas : Schemas} {name : String} {active : Uuid × SchemaRecord}
    (h : getActiveSchema schemas name = .ok active) :
    schemas.get? active.1 = some active.2 ∧ active.2.name = name ∧ active.2.status = .active := by
  refine ⟨get?_of_getActiveSchema h, ?_⟩
  unfold getActiveSchema at h
  split at h
  · rename_i row hrow
    cases h
    simpa [isActive] using (latest_eq_some hrow).2
  · cases h

/-- Archiving rows keeps every version. -/
theorem extends_of_archived {a b : Schemas} {p : Uuid → SchemaRecord → Bool} {n : Nat}
    (h : a.updateWhere p (fun row => { row with status := .archived }) = .ok (b, n)) :
    Extends a b := by
  intro id row hrow
  have hget := Table.get?_updateWhere h id
  rw [hrow, Option.map_some] at hget
  -- only the status column is written
  refine ⟨_, hget, ?_, ?_⟩
  · split_ifs <;> rfl
  · split_ifs <;> rfl

/-- An inserted row comes beside the others. -/
theorem extends_of_inserted {a b : Schemas} {id : Uuid} {row : SchemaRecord}
    (h : a.insert id row = .ok b) : Extends a b := by
  intro id' row' hrow'
  have hget := Table.get?_insert h id'
  -- the insertion was accepted, so its key was free
  have hne : id' ≠ id := by
    rintro rfl
    rw [(Table.insert_eq_ok h).1] at hrow'
    cases hrow'
  rw [if_neg hne] at hget
  exact ⟨row', hget.trans hrow', rfl, rfl⟩

/-- No selected row has a higher version than the latest. -/
theorem version_le_of_latest {schemas : Schemas} {p : SchemaRecord → Bool}
    {e : Uuid × SchemaRecord} (h : latest schemas p = some e) {id : Uuid} {row : SchemaRecord}
    (hrow : schemas.get? id = some row) (hp : p row = true) : row.version ≤ e.2.version := by
  have hmem : (id, row) ∈ schemas.rows.entries.filter fun e => p e.2 :=
    List.mem_filter.mpr ⟨(schemas.rows.mem_entries_iff id row).mpr hrow, hp⟩
  unfold latest at h
  split at h
  · cases h
  · rename_i d es hfilter
    cases h
    rw [hfilter] at hmem
    exact version_le_foldl_later d es _ hmem

theorem latest_eq_none {schemas : Schemas} {p : SchemaRecord → Bool}
    (h : latest schemas p = none) {id : Uuid} {row : SchemaRecord}
    (hrow : schemas.get? id = some row) : p row = false := by
  have hmem := (schemas.rows.mem_entries_iff id row).mpr hrow
  unfold latest at h
  split at h
  · rename_i hfilter
    simpa using List.filter_eq_nil_iff.mp hfilter _ hmem
  · cases h

/-- With an active version of the name, one is found. -/
theorem getActiveSchema_total {schemas : Schemas} {id : Uuid} {row : SchemaRecord}
    (hrow : schemas.get? id = some row) (hactive : row.status = .active) :
    ∃ active, getActiveSchema schemas row.name = .ok active := by
  unfold getActiveSchema
  split
  · exact ⟨_, rfl⟩
  · rename_i hnone
    have hselected := latest_eq_none hnone hrow
    simp [isActive, hactive] at hselected

/-- **Archiving a version keeps every version.** -/
theorem archive_extends {schemas schemas' : Schemas} {id : Uuid} {row : SchemaRecord}
    (h : archive schemas id = .ok (schemas', row)) : Extends schemas schemas' := by
  unfold archive at h
  obtain ⟨_, -, h⟩ := Except.bind_eq_ok.mp h
  obtain ⟨⟨updated, n⟩, hupdate, h⟩ := Except.bind_eq_ok.mp h
  obtain ⟨_, -, h⟩ := Except.bind_eq_ok.mp h
  cases h
  exact extends_of_archived (Except.mapError_eq_ok hupdate)

/-- **A new version keeps every version.** -/
theorem createSchema_extends {env : Dialect} {display : ℚ → String} {schemas : Schemas}
    {workspace : Workspace} {tenantId : Uuid} {definition : MetaSchemaDefinition}
    {originTemplateId : Option Uuid} {originSnapshot : Option MetaSchemaDefinition} {id : Uuid}
    {now : Instant} {r : Schemas × Workspace × SchemaRecord × VersioningDiff}
    (h : createSchema env display schemas workspace tenantId definition originTemplateId
      originSnapshot id now = .ok r) : Extends schemas r.1 := by
  unfold createSchema at h
  obtain ⟨_, -, h⟩ := Except.bind_eq_ok.mp h
  obtain ⟨archived, harchived, h⟩ := Except.bind_eq_ok.mp h
  obtain ⟨inserted, hinserted, h⟩ := Except.bind_eq_ok.mp h
  cases h
  -- archive first, then insert
  refine Extends.trans ?_ (extends_of_inserted (Except.mapError_eq_ok hinserted))
  unfold archivePrevious at harchived
  split_ifs at harchived
  · obtain ⟨⟨updated, n⟩, hupdate, rfl⟩ := Except.map_eq_ok harchived
    exact extends_of_archived (Except.mapError_eq_ok hupdate)
  · cases harchived
    exact Extends.refl _

end Yorishiro.Schema
