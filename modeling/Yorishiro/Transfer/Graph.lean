import Yorishiro.Transfer.Moves
import Yorishiro.Transfer.Operations

/-!
# Coherent graphs

What every graph keeps that is reached from an empty workspace (`coherent_run`): versions are valid
and at most one of a name is active; an entity stays with the schema name and the type it was
created with; on an active version its data is valid.

A relation is checked when it is made, and its source may move to another version afterwards. What
is kept is that the version the source is on defines the relation, or is no longer active, or the
source has a snapshot on another version. Such a version cannot be deleted, so in a workspace with
one version of each name the first of the three is left (`Coherent.typed`).
-/

set_option autoImplicit false

namespace Yorishiro.Transfer

open Yorishiro.Lib Yorishiro.Lib.JsonSchema Yorishiro.Metaschema Yorishiro.Entity
open Yorishiro.Lib.Transition Yorishiro.Inference
open Yorishiro.Schema hiding deleteFork

/-! ## What is kept -/

/-- The schema name and the entity type that identifiers were given out for. -/
abbrev Kinds := Uuid → Option (String × String)

/-- The entity may be on the version: it is stored, and has the name and the type of the
entity. -/
def Belongs (kinds : Kinds) (schemas : Schemas) (k schemaId : Uuid) (entityType : String) : Prop :=
  ∃ version, schemas.get? schemaId = some version ∧ kinds k = some (version.name, entityType)

/-- The data is valid, if the version is active. -/
def Sound (env : Dialect) (schemas : Schemas) (schemaId : Uuid) (entityType : String)
    (data : Json) : Prop :=
  ActiveVersion schemas schemaId → conforms env schemas schemaId entityType data = true

/-- The version defines the relation between entities of the two types. -/
def Typed (schemas : Schemas) (schemaId : Uuid) (relationType source target : String) : Prop :=
  ∃ version definition, schemas.get? schemaId = some version ∧
    version.definition.relationTypes.get? relationType = some definition ∧
    definition.source = source ∧ definition.target = target

/-- The entity has a snapshot on another version. -/
def Elsewhere (tables : Tables) (k schemaId : Uuid) : Prop :=
  ∃ snap ∈ tables.snapshots, snap.entityId = k ∧ snap.schemaId ≠ schemaId

/-- Versions are valid, and at most one of a name is active. -/
structure VersionsCoherent (cx : Context) (schemas : Schemas) : Prop where
  named : ∀ id row, schemas.get? id = some row → row.name = row.definition.name
  valid : ∀ id row, schemas.get? id = some row →
    validateDefinition cx.validator.env cx.showBound row.definition = .ok ()
  oneActive : ∀ a b x y, schemas.get? a = some x → schemas.get? b = some y → x.name = y.name →
    x.status = .active → y.status = .active → a = b

/-- Entities, snapshots and proposals stay with their name and type. An entity that has left a
version that is still active has been on yet another one. -/
structure EntitiesCoherent (env : Dialect) (kinds : Kinds) (store : EntityStore) : Prop where
  rows : ∀ k row, store.rows.get? k = some row →
    Belongs kinds store.tables.schemas k row.schemaId row.entityType ∧
      Sound env store.tables.schemas row.schemaId row.entityType row.data
  snapshots : ∀ snap ∈ store.tables.snapshots, ∃ entityType,
    Belongs kinds store.tables.schemas snap.entityId snap.schemaId entityType ∧
      Sound env store.tables.schemas snap.schemaId entityType snap.data
  proposals : ∀ id p, store.tables.proposals.get? id = some p → ∃ entityType,
    Belongs kinds store.tables.schemas p.entityId p.schemaId entityType
  left : ∀ k row, store.rows.get? k = some row → ∀ snap ∈ store.tables.snapshots,
    snap.entityId = k → snap.schemaId ≠ row.schemaId →
    ActiveVersion store.tables.schemas snap.schemaId → Elsewhere store.tables k snap.schemaId

/-- A relation is between stored entities, and the version that its source is on defines it, is
not active, or is not the only one that the source has been on. -/
structure Related (store : EntityStore) (relation : RelationRecord) (source target : EntityRow) :
    Prop where
  hsource : store.rows.get? relation.sourceId = some source
  htarget : store.rows.get? relation.targetId = some target
  properties : relation.properties ≠ .null
  typed : Typed store.tables.schemas source.schemaId relation.relationType source.entityType
      target.entityType ∨
    ¬ActiveVersion store.tables.schemas source.schemaId ∨
    Elsewhere store.tables relation.sourceId source.schemaId

/-- What every reachable graph keeps. -/
structure Coherent (cx : Context) (kinds : Kinds) (w : WorkspaceState)
    (readings : List InferReading) : Prop where
  issued : ∀ k kind, kinds k = some kind → k ∈ w.issued
  versions : VersionsCoherent cx w.store.tables.schemas
  entities : EntitiesCoherent cx.validator.env kinds w.store
  relations : ∀ id relation, w.relations.get? id = some relation →
    ∃ source target, Related w.store relation source target
  readings : ∀ reading ∈ readings, ∀ k ∈ reading.entityIds, ∃ entityType,
    kinds k = some (reading.schemaName, entityType)

/-! ## Jobs -/

section Jobs

variable {cx : Context} {kinds : Kinds} {gone : Uuid → Prop} {store store' : EntityStore}

/-- An entity has one type. -/
theorem Belongs.type_eq {schemas : Schemas} {k a b : Uuid} {s t : String}
    (ha : Belongs kinds schemas k a s) (hb : Belongs kinds schemas k b t) : s = t := by
  obtain ⟨x, -, hkx⟩ := ha
  obtain ⟨y, -, hky⟩ := hb
  exact (Prod.mk.inj (Option.some.inj (hkx.symm.trans hky))).2

/-- An entity is on versions of one name. -/
theorem Belongs.name_eq {schemas : Schemas} {k a b : Uuid} {s t : String} {x y : SchemaRecord}
    (ha : Belongs kinds schemas k a s) (hb : Belongs kinds schemas k b t)
    (hx : schemas.get? a = some x) (hy : schemas.get? b = some y) : x.name = y.name := by
  obtain ⟨x', hx', hkx⟩ := ha
  obtain ⟨y', hy', hky⟩ := hb
  obtain rfl : x = x' := Option.some.inj (hx.symm.trans hx')
  obtain rfl : y = y' := Option.some.inj (hy.symm.trans hy')
  exact (Prod.mk.inj (Option.some.inj (hkx.symm.trans hky))).1

/-- Of the versions that an entity may be on, one is active. -/
theorem VersionsCoherent.active_eq {schemas : Schemas} (h : VersionsCoherent cx schemas)
    {k a b : Uuid} {s t : String} (ha : Belongs kinds schemas k a s)
    (hb : Belongs kinds schemas k b t) (hactive : ActiveVersion schemas a)
    (hactive' : ActiveVersion schemas b) : a = b := by
  obtain ⟨x, hx, hxa⟩ := hactive
  obtain ⟨y, hy, hya⟩ := hactive'
  exact h.oneActive a b x y hx hy (ha.name_eq hb hx hy) hxa hya

/-- Where a row goes, the entity may be, and its data is valid there. -/
theorem RowMove.row (hversions : VersionsCoherent cx store.tables.schemas)
    (h : EntitiesCoherent cx.validator.env kinds store) {k : Uuid} {old new : EntityRow}
    (hold : store.rows.get? k = some old) (htype : new.entityType = old.entityType)
    (hmove : RowMove cx store store' k old new) :
    Belongs kinds store.tables.schemas k new.schemaId new.entityType ∧
      Sound cx.validator.env store.tables.schemas new.schemaId new.entityType new.data := by
  obtain ⟨hbelongs, hsound⟩ := h.rows k old hold
  rw [← htype] at hbelongs hsound
  cases hmove with
  | kept hschema hdata =>
      rw [hschema, hdata]
      exact ⟨hbelongs, hsound⟩
  | edited hschema hvalid =>
      rw [← hschema] at hbelongs
      exact ⟨hbelongs, fun _ => hvalid⟩
  | filled hschema version active hversion hactive hbehind =>
      rw [hschema]
      refine ⟨hbelongs, fun hisActive => absurd ?_ hbehind⟩
      -- the version would be the active one of its name
      obtain ⟨row, hrow, hstatus⟩ := hisActive
      obtain rfl : version = row := Option.some.inj (hversion.symm.trans hrow)
      obtain ⟨hget, hname, hactive⟩ := getActiveSchema_eq_ok hactive
      exact hversions.oneActive _ _ version active.2 hrow hget hname.symm hstatus hactive
  | restored snap hsnap hentity hschema hdata =>
      obtain ⟨entityType, hsnapBelongs, hsnapSound⟩ := h.snapshots snap hsnap
      rw [hentity] at hsnapBelongs
      obtain rfl := hbelongs.type_eq hsnapBelongs
      rw [hschema, hdata]
      exact ⟨hsnapBelongs, hsnapSound⟩
  | confirmed id p hp hentity hschema hactive hvalid htaken =>
      obtain ⟨entityType, hproposed⟩ := h.proposals id p hp
      rw [hentity, ← hschema] at hproposed
      obtain rfl := hbelongs.type_eq hproposed
      exact ⟨hproposed, fun _ => hvalid⟩

/-- Where a job leaves a row that it restores or confirms, the versions that the entity has left
are not active, or it has been on another one. -/
theorem RowMove.left (hversions : VersionsCoherent cx store.tables.schemas)
    (h : EntitiesCoherent cx.validator.env kinds store) (hmoves : Moves cx gone store store')
    {k : Uuid} {old new : EntityRow} (hold : store.rows.get? k = some old)
    (hmove : RowMove cx store store' k old new) {snap : EntitySnapshot}
    (hsnap : snap ∈ store'.tables.snapshots) (hentity : snap.entityId = k)
    (hne : snap.schemaId ≠ new.schemaId) (hactive : ActiveVersion store.tables.schemas snap.schemaId) :
    Elsewhere store'.tables k snap.schemaId := by
  -- an entity that stays on its version has left no more than before
  have hstays : new.schemaId = old.schemaId → Elsewhere store'.tables k snap.schemaId := by
    intro hschema
    rcases hmoves.taken snap hsnap with hsnap | ⟨row, hrow, hon, -⟩
    · obtain ⟨other, hother, hk, hon⟩ :=
        h.left k old hold snap hsnap hentity (hschema ▸ hne) hactive
      exact ⟨other, hmoves.older other hother, hk, hon⟩
    · rw [hentity, hold] at hrow
      cases hrow
      exact absurd (hon.trans hschema.symm) hne
  cases hmove with
  | kept hschema hdata => exact hstays hschema
  | edited hschema hvalid => exact hstays hschema
  | filled hschema version active hversion hresolved hbehind => exact hstays hschema
  | restored back hback hbackEntity hschema hdata =>
      exact ⟨back, hmoves.older back hback, hbackEntity, fun heq => hne (heq.symm.trans hschema.symm)⟩
  | confirmed id p hp hpEntity hschema htarget hvalid htaken =>
      -- the snapshot would be on the version that the entity was moved to
      obtain ⟨s, hbelongs⟩ : ∃ s, Belongs kinds store.tables.schemas k snap.schemaId s := by
        rcases hmoves.taken snap hsnap with hsnap | ⟨row, hrow, hon, -⟩
        · obtain ⟨s, hs, -⟩ := h.snapshots snap hsnap
          exact ⟨s, hentity ▸ hs⟩
        · rw [hentity] at hrow
          exact ⟨_, hon ▸ (h.rows k row hrow).1⟩
      obtain ⟨t, hproposed⟩ := h.proposals id p hp
      rw [hpEntity, ← hschema] at hproposed
      exact absurd (hversions.active_eq hbelongs hproposed hactive htarget) hne

theorem EntitiesCoherent.moves (hversions : VersionsCoherent cx store.tables.schemas)
    (h : EntitiesCoherent cx.validator.env kinds store) (hmoves : Moves cx gone store store') :
    EntitiesCoherent cx.validator.env kinds store' where
  rows := by
    intro k new hnew
    obtain ⟨old, hold, htype, hmove⟩ := hmoves.rows k new hnew
    rw [hmoves.schemas]
    exact hmove.row hversions h hold htype
  snapshots := by
    intro snap hsnap
    rw [hmoves.schemas]
    rcases hmoves.taken snap hsnap with hsnap | ⟨row, hrow, hschema, hdata⟩
    · exact h.snapshots snap hsnap
    · rw [hschema, hdata]
      exact ⟨row.entityType, h.rows snap.entityId row hrow⟩
  proposals := by
    intro id p' hp'
    obtain ⟨p, hp, hentity, hschema⟩ := hmoves.proposals id p' hp'
    rw [hmoves.schemas, hentity, hschema]
    exact h.proposals id p hp
  left := by
    intro k new hnew snap hsnap hentity hne hactive
    rw [hmoves.schemas] at hactive
    obtain ⟨old, hold, -, hmove⟩ := hmoves.rows k new hnew
    exact hmove.left hversions h hmoves hold hsnap hentity hne hactive

/-- A relation follows its source. -/
theorem Related.moves (h : EntitiesCoherent cx.validator.env kinds store)
    (hmoves : Moves cx gone store store') {relation : RelationRecord} {source target : EntityRow}
    (hrelated : Related store relation source target) (hsource : ¬gone relation.sourceId)
    (htarget : ¬gone relation.targetId) :
    ∃ source' target', Related store' relation source' target' := by
  obtain ⟨source', hsource'⟩ := Option.isSome_iff_exists.mp
    (hmoves.present _ hsource (by rw [hrelated.hsource]; rfl))
  obtain ⟨target', htarget'⟩ := Option.isSome_iff_exists.mp
    (hmoves.present _ htarget (by rw [hrelated.htarget]; rfl))
  obtain ⟨old, hold, hsourceType, hmove⟩ := hmoves.rows _ source' hsource'
  obtain ⟨old', hold', htargetType, -⟩ := hmoves.rows _ target' htarget'
  rw [hrelated.hsource] at hold
  rw [hrelated.htarget] at hold'
  cases hold
  cases hold'
  refine ⟨source', target', hsource', htarget', hrelated.properties, ?_⟩
  rw [hmoves.schemas, hsourceType, htargetType]
  have hstays : source'.schemaId = source.schemaId →
      Typed store.tables.schemas source'.schemaId relation.relationType source.entityType
          target.entityType ∨
        ¬ActiveVersion store.tables.schemas source'.schemaId ∨
        Elsewhere store'.tables relation.sourceId source'.schemaId := by
    intro hschema
    rw [hschema]
    refine hrelated.typed.imp_right (Or.imp_right ?_)
    rintro ⟨snap, hsnap, hentity, hne⟩
    exact ⟨snap, hmoves.older snap hsnap, hentity, hne⟩
  cases hmove with
  | kept hschema hdata => exact hstays hschema
  | edited hschema hvalid => exact hstays hschema
  | filled hschema version active hversion hresolved hbehind => exact hstays hschema
  | restored snap hsnap hentity hschema hdata =>
      by_cases hsame : snap.schemaId = source.schemaId
      · exact hstays (hschema.trans hsame)
      · rw [hschema]
        refine Or.inr (or_iff_not_imp_left.mpr fun hactive => ?_)
        -- back on an active version: the entity has been on yet another one
        obtain ⟨other, hother, hk, hon⟩ := h.left _ source hrelated.hsource snap hsnap hentity hsame
          (not_not.mp hactive)
        exact ⟨other, hmoves.older other hother, hk, hon⟩
  | confirmed id p hp hentity hschema hactive hvalid htaken =>
      by_cases hsame : source'.schemaId = source.schemaId
      · exact hstays hsame
      · obtain ⟨snap, hsnap, hk, hon⟩ := htaken
        exact Or.inr (Or.inr ⟨snap, hsnap, hk, fun heq => hsame (heq.symm.trans hon)⟩)

/-- **A job keeps the graph.** The relations of the entities it deletes go with them. -/
theorem Coherent.moves {w w' : WorkspaceState} {readings : List InferReading}
    (h : Coherent cx kinds w readings) (hmoves : Moves cx gone w.store w'.store)
    (hissued : w'.issued = w.issued)
    (hrelations : ∀ id relation, w'.relations.get? id = some relation →
      w.relations.get? id = some relation ∧ ¬gone relation.sourceId ∧ ¬gone relation.targetId) :
    Coherent cx kinds w' readings where
  issued := by
    rw [hissued]
    exact h.issued
  versions := by
    rw [hmoves.schemas]
    exact h.versions
  entities := h.entities.moves h.versions hmoves
  relations := by
    intro id relation hrelation
    obtain ⟨hold, hsource, htarget⟩ := hrelations id relation hrelation
    obtain ⟨source, target, hrelated⟩ := h.relations id relation hold
    exact hrelated.moves h.entities hmoves hsource htarget
  readings := h.readings

end Jobs

/-! ## Versions -/

/-- What rows, snapshots and proposals refer to. -/
def InUse (store : EntityStore) (id : Uuid) : Prop :=
  (∃ k row, store.rows.get? k = some row ∧ row.schemaId = id) ∨
    (∃ snap ∈ store.tables.snapshots, snap.schemaId = id) ∨
    ∃ l p, store.tables.proposals.get? l = some p ∧ p.schemaId = id

/-- The versions in use are as before, or archived. -/
def Ages (used : Uuid → Prop) (a b : Schemas) : Prop :=
  ∀ id row, used id → a.get? id = some row → ∃ row', b.get? id = some row' ∧
    row'.name = row.name ∧ row'.definition = row.definition ∧
    (row'.status = .active → row.status = .active)

section Versions

variable {cx : Context} {kinds : Kinds} {used : Uuid → Prop} {a b : Schemas} {k id : Uuid}
  {entityType : String}

theorem Belongs.ages (hages : Ages used a b) (hused : used id)
    (h : Belongs kinds a k id entityType) : Belongs kinds b k id entityType := by
  obtain ⟨version, hversion, hkind⟩ := h
  obtain ⟨version', hversion', hname, -⟩ := hages id version hused hversion
  exact ⟨version', hversion', by rw [hname]; exact hkind⟩

/-- No version in use becomes active. -/
theorem ActiveVersion.ages (hages : Ages used a b) (hused : used id)
    (h : Belongs kinds a k id entityType) (hactive : ActiveVersion b id) : ActiveVersion a id := by
  obtain ⟨version, hversion, -⟩ := h
  obtain ⟨version', hversion', -, -, hstatus⟩ := hages id version hused hversion
  obtain ⟨row, hrow, hrowActive⟩ := hactive
  obtain rfl : version' = row := Option.some.inj (hversion'.symm.trans hrow)
  exact ⟨version, hversion, hstatus hrowActive⟩

theorem Sound.ages {env : Dialect} {data : Json} (hages : Ages used a b) (hused : used id)
    (h : Belongs kinds a k id entityType) (hsound : Sound env a id entityType data) :
    Sound env b id entityType data := by
  intro hactive
  obtain ⟨t, ht, hvalid⟩ := conforms_iff.mp (hsound (hactive.ages hages hused h))
  obtain ⟨version, hversion, -⟩ := h
  obtain ⟨version', hversion', -, hdefinition, -⟩ := hages id version hused hversion
  rw [typeOf_of_get? hversion, ← hdefinition, ← typeOf_of_get? hversion'] at ht
  exact conforms_iff.mpr ⟨t, ht, hvalid⟩

theorem Typed.ages {relationType source target : String} (hages : Ages used a b) (hused : used id)
    (h : Typed a id relationType source target) : Typed b id relationType source target := by
  obtain ⟨version, definition, hversion, hrelation, htypes⟩ := h
  obtain ⟨version', hversion', -, hdefinition, -⟩ := hages id version hused hversion
  exact ⟨version', definition, hversion', by rw [hdefinition]; exact hrelation, htypes⟩

/-- **Other versions keep the graph.** -/
theorem Coherent.ages {w : WorkspaceState} {readings : List InferReading}
    (h : Coherent cx kinds w readings) (hages : Ages (InUse w.store) w.store.tables.schemas b)
    (hversions : VersionsCoherent cx b) (workspace : Workspace) :
    Coherent cx kinds (w.withSchemas b workspace) readings where
  issued := h.issued
  versions := hversions
  entities := by
    constructor
    · intro k row hrow
      have hused : InUse w.store row.schemaId := Or.inl ⟨k, row, hrow, rfl⟩
      obtain ⟨hbelongs, hsound⟩ := h.entities.rows k row hrow
      exact ⟨hbelongs.ages hages hused, hsound.ages hages hused hbelongs⟩
    · intro snap hsnap
      have hused : InUse w.store snap.schemaId := Or.inr (Or.inl ⟨snap, hsnap, rfl⟩)
      obtain ⟨entityType, hbelongs, hsound⟩ := h.entities.snapshots snap hsnap
      exact ⟨entityType, hbelongs.ages hages hused, hsound.ages hages hused hbelongs⟩
    · intro id p hp
      obtain ⟨entityType, hbelongs⟩ := h.entities.proposals id p hp
      exact ⟨entityType, hbelongs.ages hages (Or.inr (Or.inr ⟨id, p, hp, rfl⟩))⟩
    · intro k row hrow snap hsnap hentity hne hactive
      obtain ⟨entityType, hbelongs, -⟩ := h.entities.snapshots snap hsnap
      exact h.entities.left k row hrow snap hsnap hentity hne
        (hactive.ages hages (Or.inr (Or.inl ⟨snap, hsnap, rfl⟩)) hbelongs)
  relations := by
    intro id relation hrelation
    obtain ⟨source, target, hrelated⟩ := h.relations id relation hrelation
    have hused : InUse w.store source.schemaId := Or.inl ⟨_, source, hrelated.hsource, rfl⟩
    obtain ⟨hbelongs, -⟩ := h.entities.rows _ source hrelated.hsource
    refine ⟨source, target, hrelated.hsource, hrelated.htarget, hrelated.properties, ?_⟩
    rcases hrelated.typed with htyped | hinactive | helsewhere
    · exact Or.inl (htyped.ages hages hused)
    · exact Or.inr (Or.inl fun hactive => hinactive (hactive.ages hages hused hbelongs))
    · exact Or.inr (Or.inr helsewhere)
  readings := h.readings

/-- Versions that are left are coherent. -/
theorem VersionsCoherent.back (h : VersionsCoherent cx a)
    (hback : ∀ l x, b.get? l = some x → ∃ old, a.get? l = some old ∧ x.name = old.name ∧
      x.definition = old.definition ∧ (x.status = .active → old.status = .active)) :
    VersionsCoherent cx b where
  named := by
    intro l x hx
    obtain ⟨old, hold, hname, hdefinition, -⟩ := hback l x hx
    rw [hname, hdefinition]
    exact h.named l old hold
  valid := by
    intro l x hx
    obtain ⟨old, hold, -, hdefinition, -⟩ := hback l x hx
    rw [hdefinition]
    exact h.valid l old hold
  oneActive := by
    intro l m x y hx hy hname hxa hya
    obtain ⟨old, hold, hxname, -, hxactive⟩ := hback l x hx
    obtain ⟨old', hold', hyname, -, hyactive⟩ := hback m y hy
    rw [hxname, hyname] at hname
    exact h.oneActive l m old old' hold hold' hname (hxactive hxa) (hyactive hya)

section Inserted

variable {f : SchemaRecord → SchemaRecord} {row : SchemaRecord}

theorem VersionsCoherent.inserted (h : VersionsCoherent cx a) (hf : Retires f)
    (hdefinition : ∀ old, (f old).definition = old.definition) (hinserted : Inserted f a b id row)
    (hname : row.name = row.definition.name)
    (hvalid : validateDefinition cx.validator.env cx.showBound row.definition = .ok ())
    (hretired : row.status = .active → ∀ old, (f old).status = .active → old.name ≠ row.name) :
    VersionsCoherent cx b where
  named := by
    intro l x hx
    rcases hinserted.cases hx with ⟨-, rfl⟩ | ⟨old, hold, rfl⟩
    · exact hname
    · rw [hf.name, hdefinition]
      exact h.named l old hold
  valid := by
    intro l x hx
    rcases hinserted.cases hx with ⟨-, rfl⟩ | ⟨old, hold, rfl⟩
    · exact hvalid
    · rw [hdefinition]
      exact h.valid l old hold
  oneActive := hinserted.oneActive hf h.oneActive hretired

theorem ages_of_inserted (hf : Retires f) (hdefinition : ∀ old, (f old).definition = old.definition)
    (hinserted : Inserted f a b id row) : Ages used a b :=
  fun _ old _ hold => ⟨f old, hinserted.get?_old hold, hf.name old, hdefinition old, hf.active⟩

end Inserted

variable {w : WorkspaceState} {readings : List InferReading}

theorem Coherent.createSchema (h : Coherent cx kinds w readings) {tenantId : Uuid}
    {definition : MetaSchemaDefinition} {originTemplateId : Option Uuid}
    {originSnapshot : Option MetaSchemaDefinition} {now : Queue.Instant}
    {r : Schemas × Workspace × SchemaRecord × VersioningDiff}
    (hcreate : createSchema cx.validator.env cx.showBound w.store.tables.schemas
      w.store.tables.workspace tenantId definition originTemplateId originSnapshot id now = .ok r) :
    Coherent cx kinds (w.withSchemas r.1 r.2.1) readings := by
  obtain ⟨hinserted, -, hname, -⟩ := createSchema_eq_ok hcreate
  obtain ⟨hvalid, hdefinition⟩ := createSchema_definition hcreate
  have hretires := retires_retire definition.name
  refine h.ages (ages_of_inserted hretires (retire_definition _) hinserted)
    (h.versions.inserted hretires (retire_definition _) hinserted ?_ ?_ ?_) r.2.1
  · rw [hname, hdefinition]
  · rw [hdefinition]
    exact hvalid
  · intro _ old hold
    rw [hname]
    exact (retire_eq_active hold).2

theorem Coherent.insertForkHead (h : Coherent cx kinds w readings) {tenantId : Uuid}
    {definition : MetaSchemaDefinition} {schemas : Schemas} {row : SchemaRecord}
    (hinsert : insertForkHead cx.validator.env cx.showBound w.store.tables.schemas tenantId
      definition id = .ok (schemas, row)) (workspace : Workspace) :
    Coherent cx kinds (w.withSchemas schemas workspace) readings := by
  obtain ⟨hinserted, -, hname, harchived⟩ := insertForkHead_eq_ok hinsert
  obtain ⟨hvalid, hdefinition⟩ := insertForkHead_definition hinsert
  refine h.ages (ages_of_inserted retires_id (fun _ => rfl) hinserted)
    (h.versions.inserted retires_id (fun _ => rfl) hinserted ?_ ?_ ?_) workspace
  · rw [hname, hdefinition]
  · rw [hdefinition]
    exact hvalid
  · intro hactive
    rw [harchived] at hactive
    cases hactive

theorem Coherent.archive (h : Coherent cx kinds w readings) {schemas : Schemas}
    {row : SchemaRecord} (harchive : archive w.store.tables.schemas id = .ok (schemas, row))
    (workspace : Workspace) : Coherent cx kinds (w.withSchemas schemas workspace) readings := by
  have hget := archive_eq_ok harchive
  refine h.ages (fun l old _ hold => ?_) (h.versions.back fun l x hx => ?_) workspace
  · rw [hget l, hold]
    refine ⟨_, rfl, ?_⟩
    split_ifs <;> simp
  · rw [hget l] at hx
    obtain ⟨old, hold, rfl⟩ := Option.map_eq_some_iff.mp hx
    refine ⟨old, hold, ?_⟩
    split_ifs <;> simp

/-- A version without blockers is not in use. -/
theorem not_inUse_of_blockers {references : ForkReferences}
    (h : (blockers w id references).isEmpty = true) : ¬InUse w.store id := by
  unfold blockers at h
  simp only [List.isEmpty_iff, List.append_eq_nil_iff] at h
  obtain ⟨⟨⟨⟨⟨hrows, hsnapshots⟩, hproposals⟩, -⟩, -⟩, -⟩ := h
  rintro (⟨k, row, hrow, rfl⟩ | ⟨snap, hsnap, rfl⟩ | ⟨l, p, hp, rfl⟩)
  · have hmem := (OrderedMap.mem_entries_iff _ _ _).mpr hrow
    rw [if_pos (List.any_eq_true.mpr ⟨_, hmem, by simp⟩)] at hrows
    cases hrows
  · rw [if_pos (List.any_eq_true.mpr ⟨snap, hsnap, by simp⟩)] at hsnapshots
    cases hsnapshots
  · have hmem := (OrderedMap.mem_entries_iff _ _ _).mpr hp
    rw [if_pos (List.any_eq_true.mpr ⟨_, hmem, by simp⟩)] at hproposals
    cases hproposals

theorem Coherent.deleteSchema {w' : WorkspaceState} (h : Coherent cx kinds w readings)
    {references : ForkReferences} (hdelete : deleteSchema w id references = .ok w') :
    Coherent cx kinds w' readings := by
  obtain ⟨schema, -, hdelete⟩ := Except.bind_eq_ok.mp hdelete
  obtain ⟨_, -, hdelete⟩ := Except.bind_eq_ok.mp hdelete
  obtain ⟨_, hblockers, hdelete⟩ := Except.bind_eq_ok.mp hdelete
  cases hdelete
  have hunused := not_inUse_of_blockers (require_eq_ok.mp hblockers)
  refine h.ages (fun l old hused hold => ?_) (h.versions.back fun l x hx => ?_) _
  · have hne : l ≠ id := fun heq => hunused (heq ▸ hused)
    refine ⟨old, ?_, rfl, rfl, fun hactive => hactive⟩
    rw [Table.get?_delete, if_neg hne]
    exact hold
  · rw [Table.get?_delete] at hx
    split_ifs at hx
    exact ⟨x, hx, rfl, rfl, fun hactive => hactive⟩

end Versions

end Yorishiro.Transfer
