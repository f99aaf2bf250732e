import Yorishiro.Schema.Store

/-!
# The version sequence of a name

Two functions insert versions of a name into a workspace's table: `create_schema`,
whose version becomes the active one, and `insert_fork_head`, whose version is
archived from the start. Both number it after the highest version stored.

`Sequenced` is what the table keeps: versions are positive and no name has two
active ones. `Advances` is what one operation may do to it: a version that comes in
is higher than all others of its name, and an archived one stays archived. Numbers
are 32 bits wide, so the insertions need `HasRoom`: the highest version of the name
is not yet the largest number (`sequenced_of_inserted`, `advances_of_inserted`).
-/

set_option autoImplicit false

namespace Yorishiro.Schema

open Yorishiro.Lib Yorishiro.Lib.JsonSchema Yorishiro.Metaschema
open Yorishiro.Queue (Instant i32Max)

/-- `insert_fork_head` on the table of the workspace, with the id the head gets. -/
def insertForkHead (env : Dialect) (display : ℚ → String) (schemas : Schemas) (tenantId : Uuid)
    (definition : MetaSchemaDefinition) (id : Uuid) :
    Except YorishiroError (Schemas × SchemaRecord) := do
  validateDefinition env display definition
  let row : SchemaRecord :=
    { tenantId := tenantId
      name := definition.name
      version := nextVersion schemas definition.name
      definition := definition
      status := .archived
      originTemplateId := none
      originStatus := .detached
      originSnapshot := none
      originUpdatedAt := none }
  let schemas' ← (schemas.insert id row).mapError .internal
  pure (schemas', row)

/-- There is a number left for the next version of the name. -/
def HasRoom (schemas : Schemas) (name : String) : Prop := latestVersion schemas name < i32Max

instance (schemas : Schemas) (name : String) : Decidable (HasRoom schemas name) :=
  inferInstanceAs (Decidable (latestVersion schemas name < i32Max))

/-- What the table of a workspace keeps. -/
structure Sequenced (schemas : Schemas) : Prop where
  positive : ∀ id row, schemas.get? id = some row → 0 < row.version
  oneActive : ∀ a b x y, schemas.get? a = some x → schemas.get? b = some y → x.name = y.name →
    x.status = .active → y.status = .active → a = b

/-- What one operation may do to the table. -/
structure Advances (a b : Schemas) : Prop where
  greater : ∀ id row, b.get? id = some row → a.get? id = none → ∀ other old,
    a.get? other = some old → old.name = row.name → old.version < row.version
  archived : ∀ id old row, a.get? id = some old → b.get? id = some row →
    old.status = .archived → row.status = .archived

/-- Every version of `a` is still in `b`, under the same tenant, and archived if it was. -/
def Kept (a b : Schemas) : Prop :=
  ∀ id row, a.get? id = some row → ∃ row', b.get? id = some row' ∧
    row'.tenantId = row.tenantId ∧ (row.status = .archived → row'.status = .archived)

/-- `b` is `a` with the version `id`, numbered next; the others went through `f`. -/
structure Inserted (f : SchemaRecord → SchemaRecord) (a b : Schemas) (id : Uuid)
    (row : SchemaRecord) : Prop where
  fresh : a.get? id = none
  get?_eq : ∀ l, b.get? l = if l = id then some row else (a.get? l).map f
  version : row.version = nextVersion a row.name

/-- What `create_schema` does to the versions that are there: those that were active under
the name are archived. -/
def retire (name : String) (row : SchemaRecord) : SchemaRecord :=
  if isActive name row then { row with status := .archived } else row

@[simp] theorem retire_tenantId (name : String) (row : SchemaRecord) :
    (retire name row).tenantId = row.tenantId := by
  unfold retire
  split_ifs <;> rfl

@[simp] theorem retire_name (name : String) (row : SchemaRecord) :
    (retire name row).name = row.name := by
  unfold retire
  split_ifs <;> rfl

@[simp] theorem retire_version (name : String) (row : SchemaRecord) :
    (retire name row).version = row.version := by
  unfold retire
  split_ifs <;> rfl

@[simp] theorem retire_definition (name : String) (row : SchemaRecord) :
    (retire name row).definition = row.definition := by
  unfold retire
  split_ifs <;> rfl

/-- What is active after `create_schema` archived was active before, under another name. -/
theorem retire_eq_active {name : String} {row : SchemaRecord}
    (h : (retire name row).status = .active) : row.status = .active ∧ row.name ≠ name := by
  unfold retire at h
  split_ifs at h with hactive
  refine ⟨h, ?_⟩
  rintro rfl
  apply hactive
  simp [isActive, h]

theorem retire_archived {name : String} {row : SchemaRecord} (h : row.status = .archived) :
    (retire name row).status = .archived := by
  unfold retire
  split_ifs
  · rfl
  · exact h

/-! ## The highest version -/

theorem version_le_latestVersion {schemas : Schemas} {id : Uuid} {row : SchemaRecord}
    (h : schemas.get? id = some row) : row.version ≤ latestVersion schemas row.name := by
  unfold latestVersion
  cases hlatest : latest schemas fun r => decide (r.name = row.name) with
  | none =>
      have hname := latest_eq_none hlatest h
      simp at hname
  | some e => exact version_le_of_latest hlatest h (by simp)

theorem latestVersion_nonneg {schemas : Schemas} (h : Sequenced schemas) (name : String) :
    0 ≤ latestVersion schemas name := by
  unfold latestVersion
  cases hlatest : latest schemas fun r => decide (r.name = name) with
  | none => exact le_rfl
  | some e => exact (h.positive e.1 e.2 (latest_eq_some hlatest).1).le

/-- With room left, the addition does not wrap around. -/
theorem nextVersion_eq {schemas : Schemas} (h : Sequenced schemas) {name : String}
    (hroom : HasRoom schemas name) :
    nextVersion schemas name = latestVersion schemas name + 1 := by
  have hnonneg := latestVersion_nonneg h name
  unfold HasRoom i32Max at hroom
  unfold nextVersion
  rw [Int.bmod_eq_of_le]
  · omega
  · omega

/-! ## What the functions do to the table -/

/-- `create_schema`, read back. -/
theorem createSchema_eq_ok {env : Dialect} {display : ℚ → String} {schemas : Schemas}
    {workspace : Workspace} {tenantId : Uuid} {definition : MetaSchemaDefinition}
    {originTemplateId : Option Uuid} {originSnapshot : Option MetaSchemaDefinition} {id : Uuid}
    {now : Instant} {r : Schemas × Workspace × SchemaRecord × VersioningDiff}
    (h : createSchema env display schemas workspace tenantId definition originTemplateId
      originSnapshot id now = .ok r) :
    Inserted (retire definition.name) schemas r.1 id r.2.2.1 ∧
      r.2.1 = markActive workspace id ∧ r.2.2.1.name = definition.name ∧
      r.2.2.1.status = .active := by
  unfold createSchema at h
  obtain ⟨_, -, h⟩ := Except.bind_eq_ok.mp h
  obtain ⟨archived, harchived, h⟩ := Except.bind_eq_ok.mp h
  obtain ⟨inserted, hinserted, h⟩ := Except.bind_eq_ok.mp h
  cases h
  have hinsert := Except.mapError_eq_ok hinserted
  have hretired : ∀ l, archived.get? l = (schemas.get? l).map (retire definition.name) := by
    intro l
    unfold archivePrevious at harchived
    split_ifs at harchived with hprevious
    · obtain ⟨⟨updated, n⟩, hupdate, rfl⟩ := Except.map_eq_ok harchived
      exact Table.get?_updateWhere (Except.mapError_eq_ok hupdate) l
    -- without a previous version no row is active, so there is nothing to archive
    · cases harchived
      have hnone := Option.not_isSome_iff_eq_none.mp hprevious
      cases hrow : schemas.get? l with
      | none => rfl
      | some row => simp [retire, latest_eq_none hnone hrow]
  have hfresh : schemas.get? id = none := by
    have hfree := (Table.insert_eq_ok hinsert).1
    rw [hretired id] at hfree
    exact Option.map_eq_none_iff.mp hfree
  refine ⟨⟨hfresh, fun l => ?_, rfl⟩, rfl, rfl, rfl⟩
  rw [Table.get?_insert hinsert l, hretired l]

/-- The new version has the definition it was created with, a valid one. -/
theorem createSchema_definition {env : Dialect} {display : ℚ → String} {schemas : Schemas}
    {workspace : Workspace} {tenantId : Uuid} {definition : MetaSchemaDefinition}
    {originTemplateId : Option Uuid} {originSnapshot : Option MetaSchemaDefinition} {id : Uuid}
    {now : Instant} {r : Schemas × Workspace × SchemaRecord × VersioningDiff}
    (h : createSchema env display schemas workspace tenantId definition originTemplateId
      originSnapshot id now = .ok r) :
    validateDefinition env display definition = .ok () ∧ r.2.2.1.definition = definition := by
  unfold createSchema at h
  obtain ⟨_, hvalid, h⟩ := Except.bind_eq_ok.mp h
  obtain ⟨_, -, h⟩ := Except.bind_eq_ok.mp h
  obtain ⟨_, -, h⟩ := Except.bind_eq_ok.mp h
  cases h
  exact ⟨hvalid, rfl⟩

theorem exists_bind {α β : Type} {x : Except YorishiroError α} {f : α → Except YorishiroError β}
    (hx : ∃ a, x = .ok a) (hf : ∀ a, x = .ok a → ∃ b, f a = .ok b) : ∃ b, x >>= f = .ok b := by
  obtain ⟨a, ha⟩ := hx
  obtain ⟨b, hb⟩ := hf a ha
  exact ⟨b, Except.bind_eq_ok.mpr ⟨a, ha, hb⟩⟩

/-- `create_schema` goes through under a free id, with a number that is not taken. -/
theorem createSchema_total (env : Dialect) (display : ℚ → String) (tenantId : Uuid)
    (definition : MetaSchemaDefinition) {schemas : Schemas} {id : Uuid}
    (hvalid : validateDefinition env display definition = .ok ())
    (hfree : schemas.get? id = none)
    (hnext : ∀ l row, schemas.get? l = some row → row.name = definition.name →
      row.version ≠ nextVersion schemas definition.name) (workspace : Workspace) (now : Instant) :
    ∃ r, createSchema env display schemas workspace tenantId definition none none id now = .ok r := by
  have hsymm : ∀ a b, SchemaRecord.clash a b = SchemaRecord.clash b a :=
    fun a b => by simp [SchemaRecord.clash, eq_comm]
  obtain ⟨archived, harchived, hget⟩ : ∃ archived, archivePrevious schemas definition.name
      (latest schemas (isActive definition.name)) = .ok archived ∧
        ∀ l row, archived.get? l = some row → ∃ old, schemas.get? l = some old ∧
          row.name = old.name ∧ row.version = old.version := by
    unfold archivePrevious
    split_ifs
    · obtain ⟨t, ht⟩ := Table.updateWhere_total hsymm (t := schemas)
        (p := fun _ row => isActive definition.name row)
        (f := fun row => { row with status := .archived }) fun a b h => h
      refine ⟨t, by rw [ht]; rfl, fun l row hrow => ?_⟩
      rw [Table.get?_updateWhere ht l] at hrow
      obtain ⟨old, hold, rfl⟩ := Option.map_eq_some_iff.mp hrow
      refine ⟨old, hold, ?_⟩
      split_ifs
      · exact ⟨rfl, rfl⟩
      · exact ⟨rfl, rfl⟩
    · exact ⟨schemas, rfl, fun l row hrow => ⟨row, hrow, rfl, rfl⟩⟩
  have hinsert : ∀ (row : SchemaRecord) (g : DbErr → YorishiroError),
      row.name = definition.name → row.version = nextVersion schemas definition.name →
        ∃ t, (archived.insert id row).mapError g = .ok t := by
    intro row g hname hversion
    obtain ⟨t, ht⟩ : ∃ t, archived.insert id row = .ok t := by
      refine Table.insert_total hsymm ?_ fun l stored hstored => ?_
      · by_contra hsome
        obtain ⟨stored, hstored⟩ := Option.ne_none_iff_exists'.mp hsome
        obtain ⟨old, hold, -⟩ := hget id stored hstored
        rw [hfree] at hold
        cases hold
      · obtain ⟨old, hold, hsame, heq⟩ := hget l stored hstored
        by_cases hstoredName : stored.name = definition.name
        · have hne := hnext l old hold (hsame.symm.trans hstoredName)
          rw [← hversion, ← heq] at hne
          simp [SchemaRecord.clash, hne.symm]
        · rw [← hname] at hstoredName
          simp [SchemaRecord.clash, Ne.symm hstoredName]
    exact ⟨t, by rw [ht]; rfl⟩
  refine exists_bind ⟨(), hvalid⟩ fun _ _ => exists_bind ⟨archived, harchived⟩ fun a ha => ?_
  obtain rfl : archived = a := Except.ok.inj (harchived.symm.trans ha)
  refine exists_bind ?_ fun t _ => ⟨_, rfl⟩
  apply hinsert
  · rfl
  · rfl

/-- `insert_fork_head`, read back. -/
theorem insertForkHead_eq_ok {env : Dialect} {display : ℚ → String} {schemas schemas' : Schemas}
    {tenantId : Uuid} {definition : MetaSchemaDefinition} {id : Uuid} {row : SchemaRecord}
    (h : insertForkHead env display schemas tenantId definition id = .ok (schemas', row)) :
    Inserted (fun old => old) schemas schemas' id row ∧ row.tenantId = tenantId ∧
      row.name = definition.name ∧ row.status = .archived := by
  unfold insertForkHead at h
  obtain ⟨_, -, h⟩ := Except.bind_eq_ok.mp h
  obtain ⟨inserted, hinserted, h⟩ := Except.bind_eq_ok.mp h
  cases h
  have hinsert := Except.mapError_eq_ok hinserted
  refine ⟨⟨(Table.insert_eq_ok hinsert).1, fun l => ?_, rfl⟩, rfl, rfl, rfl⟩
  rw [Table.get?_insert hinsert l, Option.map_id']

/-- A head has the definition it was inserted with, a valid one. -/
theorem insertForkHead_definition {env : Dialect} {display : ℚ → String}
    {schemas schemas' : Schemas} {tenantId : Uuid} {definition : MetaSchemaDefinition} {id : Uuid}
    {row : SchemaRecord}
    (h : insertForkHead env display schemas tenantId definition id = .ok (schemas', row)) :
    validateDefinition env display definition = .ok () ∧ row.definition = definition := by
  unfold insertForkHead at h
  obtain ⟨_, hvalid, h⟩ := Except.bind_eq_ok.mp h
  obtain ⟨_, -, h⟩ := Except.bind_eq_ok.mp h
  cases h
  exact ⟨hvalid, rfl⟩

/-- `archive`, read back. -/
theorem archive_eq_ok {schemas schemas' : Schemas} {id : Uuid} {row : SchemaRecord}
    (h : archive schemas id = .ok (schemas', row)) (l : Uuid) :
    schemas'.get? l = (schemas.get? l).map fun row =>
      if l = id then { row with status := .archived } else row := by
  unfold archive at h
  obtain ⟨_, -, h⟩ := Except.bind_eq_ok.mp h
  obtain ⟨⟨updated, n⟩, hupdate, h⟩ := Except.bind_eq_ok.mp h
  obtain ⟨_, -, h⟩ := Except.bind_eq_ok.mp h
  cases h
  rw [Table.get?_updateWhere (Except.mapError_eq_ok hupdate) l]
  congr 1
  funext row
  by_cases hl : l = id
  · -- a version that is not active is archived already
    cases hstatus : row.status with
    | active => simp [hl, hstatus]
    | archived =>
        simp only [hl, hstatus, if_true]
        cases row
        simp_all
  · simp [hl]

/-! ## What the table keeps -/

/-- `f` writes no column but the status, and no archived version back. -/
structure Retires (f : SchemaRecord → SchemaRecord) : Prop where
  tenantId : ∀ row, (f row).tenantId = row.tenantId
  name : ∀ row, (f row).name = row.name
  version : ∀ row, (f row).version = row.version
  archived : ∀ row, row.status = .archived → (f row).status = .archived

theorem retires_retire (name : String) : Retires (retire name) :=
  ⟨retire_tenantId name, retire_name name, retire_version name, fun _ h => retire_archived h⟩

theorem retires_id : Retires fun row => row :=
  ⟨fun _ => rfl, fun _ => rfl, fun _ => rfl, fun _ h => h⟩

theorem Retires.active {f : SchemaRecord → SchemaRecord} (hf : Retires f) {row : SchemaRecord}
    (h : (f row).status = .active) : row.status = .active := by
  cases hstatus : row.status with
  | active => rfl
  | archived =>
      rw [hf.archived row hstatus] at h
      cases h

section Inserted

variable {f : SchemaRecord → SchemaRecord} {a b : Schemas} {id : Uuid} {row : SchemaRecord}

/-- A version is the inserted one or one that was there. -/
theorem Inserted.cases (h : Inserted f a b id row) {l : Uuid} {x : SchemaRecord}
    (hx : b.get? l = some x) : (l = id ∧ x = row) ∨ ∃ old, a.get? l = some old ∧ x = f old := by
  rw [h.get?_eq l] at hx
  split_ifs at hx with hl
  · exact Or.inl ⟨hl, (Option.some.inj hx).symm⟩
  · obtain ⟨old, hold, rfl⟩ := Option.map_eq_some_iff.mp hx
    exact Or.inr ⟨old, hold, rfl⟩

theorem Inserted.get?_self (h : Inserted f a b id row) : b.get? id = some row := by
  rw [h.get?_eq id, if_pos rfl]

/-- A stored version goes through `f`. -/
theorem Inserted.get?_old (h : Inserted f a b id row) {l : Uuid} {old : SchemaRecord}
    (hold : a.get? l = some old) : b.get? l = some (f old) := by
  rw [h.get?_eq l, if_neg, hold, Option.map_some]
  -- the inserted version had a free id
  rintro rfl
  rw [h.fresh] at hold
  cases hold

/-- The inserted version is higher than all others of its name. -/
theorem Inserted.version_lt (h : Inserted f a b id row) (hseq : Sequenced a)
    (hroom : HasRoom a row.name) {l : Uuid} {old : SchemaRecord} (hold : a.get? l = some old)
    (hname : old.name = row.name) : old.version < row.version := by
  have hle := version_le_latestVersion hold
  rw [hname] at hle
  rw [h.version, nextVersion_eq hseq hroom]
  omega

/-- An insertion keeps at most one active version of a name, if the versions it leaves active
under the name of an active insertion are none. -/
theorem Inserted.oneActive (hf : Retires f) (h : Inserted f a b id row)
    (hone : ∀ l m x y, a.get? l = some x → a.get? m = some y → x.name = y.name →
      x.status = .active → y.status = .active → l = m)
    (hretired : row.status = .active → ∀ old, (f old).status = .active → old.name ≠ row.name) :
    ∀ l m x y, b.get? l = some x → b.get? m = some y → x.name = y.name →
      x.status = .active → y.status = .active → l = m := by
  intro l m x y hx hy hname hxa hya
  rcases h.cases hx with ⟨rfl, rfl⟩ | ⟨old, hold, rfl⟩
  · rcases h.cases hy with ⟨rfl, -⟩ | ⟨old', hold', rfl⟩
    · rfl
    · rw [hf.name] at hname
      exact absurd hname.symm (hretired hxa old' hya)
  · rcases h.cases hy with ⟨rfl, rfl⟩ | ⟨old', hold', rfl⟩
    · rw [hf.name] at hname
      exact absurd hname (hretired hya old hxa)
    · rw [hf.name, hf.name] at hname
      exact hone l m old old' hold hold' hname (hf.active hxa) (hf.active hya)

/-- An insertion keeps the table in order, if the versions it leaves active under the name
of an active insertion are none. -/
theorem sequenced_of_inserted (hf : Retires f) (h : Inserted f a b id row) (hseq : Sequenced a)
    (hroom : HasRoom a row.name)
    (hretired : row.status = .active → ∀ old, (f old).status = .active → old.name ≠ row.name) :
    Sequenced b := by
  refine ⟨?_, h.oneActive hf hseq.oneActive hretired⟩
  intro l x hx
  rcases h.cases hx with ⟨-, rfl⟩ | ⟨old, hold, rfl⟩
  · have hnonneg := latestVersion_nonneg hseq x.name
    rw [h.version, nextVersion_eq hseq hroom]
    omega
  · rw [hf.version]
    exact hseq.positive l old hold

theorem kept_of_inserted (hf : Retires f) (h : Inserted f a b id row) : Kept a b :=
  fun _ old hold => ⟨f old, h.get?_old hold, hf.tenantId old, hf.archived old⟩

theorem advances_of_inserted (hf : Retires f) (h : Inserted f a b id row) (hseq : Sequenced a)
    (hroom : HasRoom a row.name) : Advances a b := by
  constructor
  · intro l x hx hnew other old hold hname
    rcases h.cases hx with ⟨-, rfl⟩ | ⟨old', hold', -⟩
    · exact h.version_lt hseq hroom hold hname
    · rw [hnew] at hold'
      cases hold'
  · intro l old x hold hx harchived
    rw [h.get?_old hold] at hx
    cases hx
    exact hf.archived old harchived

end Inserted

theorem Advances.refl (a : Schemas) : Advances a a := by
  constructor
  · intro id row hrow hnew
    rw [hnew] at hrow
    cases hrow
  · intro id old row hold hrow harchived
    rw [hold] at hrow
    cases hrow
    exact harchived

/-- Archiving a version keeps the table in order. -/
theorem sequenced_of_archive {schemas schemas' : Schemas} {id : Uuid} {row : SchemaRecord}
    (h : archive schemas id = .ok (schemas', row)) (hseq : Sequenced schemas) :
    Sequenced schemas' := by
  have hback : ∀ l x, schemas'.get? l = some x → ∃ old, schemas.get? l = some old ∧
      x.name = old.name ∧ x.version = old.version ∧ (x.status = .active → old.status = .active) := by
    intro l x hx
    rw [archive_eq_ok h l] at hx
    obtain ⟨old, hold, rfl⟩ := Option.map_eq_some_iff.mp hx
    refine ⟨old, hold, ?_⟩
    split_ifs <;> simp
  constructor
  · intro l x hx
    obtain ⟨old, hold, -, hversion, -⟩ := hback l x hx
    rw [hversion]
    exact hseq.positive l old hold
  · intro l m x y hx hy hname hxa hya
    obtain ⟨old, hold, hxname, -, hactive⟩ := hback l x hx
    obtain ⟨old', hold', hyname, -, hactive'⟩ := hback m y hy
    rw [hxname, hyname] at hname
    exact hseq.oneActive l m old old' hold hold' hname (hactive hxa) (hactive' hya)

theorem kept_of_archive {schemas schemas' : Schemas} {id : Uuid} {row : SchemaRecord}
    (h : archive schemas id = .ok (schemas', row)) : Kept schemas schemas' := by
  intro l old hold
  have hget := archive_eq_ok h l
  rw [hold, Option.map_some] at hget
  refine ⟨_, hget, ?_, ?_⟩
  · split_ifs <;> rfl
  · intro harchived
    split_ifs
    · rfl
    · exact harchived

theorem advances_of_archive {schemas schemas' : Schemas} {id : Uuid} {row : SchemaRecord}
    (h : archive schemas id = .ok (schemas', row)) : Advances schemas schemas' := by
  constructor
  · intro l x hx hnew
    rw [archive_eq_ok h l, hnew] at hx
    cases hx
  · intro l old x hold hx harchived
    obtain ⟨x', hx', -, hkept⟩ := kept_of_archive h l old hold
    rw [hx] at hx'
    cases hx'
    exact hkept harchived

/-- Deleting a version keeps the table in order. -/
theorem sequenced_delete {schemas : Schemas} (hseq : Sequenced schemas) (id : Uuid) :
    Sequenced (schemas.delete id) := by
  have hback : ∀ l x, (schemas.delete id).get? l = some x → schemas.get? l = some x := by
    intro l x hx
    rw [Table.get?_delete] at hx
    split_ifs at hx
    exact hx
  exact ⟨fun l x hx => hseq.positive l x (hback l x hx), fun l m x y hx hy =>
    hseq.oneActive l m x y (hback l x hx) (hback m y hy)⟩

theorem advances_delete (schemas : Schemas) (id : Uuid) :
    Advances schemas (schemas.delete id) := by
  constructor
  · intro l x hx hnew
    rw [Table.get?_delete, hnew] at hx
    split_ifs at hx
  · intro l old x hold hx harchived
    rw [Table.get?_delete, hold] at hx
    split_ifs at hx
    cases hx
    exact harchived

end Yorishiro.Schema
