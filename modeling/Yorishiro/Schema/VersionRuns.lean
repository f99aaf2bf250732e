import Yorishiro.Schema.ForkGraph

/-!
# Versions over runs of the catalog

What the table of a workspace keeps (`Yorishiro.Schema.Sequence`), over whole runs of all
operations on all workspaces: one active version of a name at most, versions of a name told apart
by their numbers, heads of forks archived, and every reference to a version that is stored.

The lock on a name covers the target of a fork, not its source. So beside the operations, each as
one step, a run has the second halves of `create` and `update` with whatever they may have read of
a source before (`lateFork`, `lateHead`).

Version numbers are 32 bits wide and the next one is taken by plain addition. `versions_in_order`
is about the runs in which it does not overflow (`RoomFor`), and in the run of
`not_progresses_filled` it does.
-/

set_option autoImplicit false

namespace Yorishiro.Schema

open Yorishiro.Lib Yorishiro.Lib.JsonSchema Yorishiro.Lib.Transition Yorishiro.Metaschema
open Yorishiro.Queue (Instant i32Max)

/-! ## Runs -/

/-- What happens next. -/
inductive VersionOp where
  | now (op : CatalogOp)
  | lateFork (fresh : NewFork) (tenantId workspaceId : Uuid) (input : CreateInput)
      (source : SchemaRecord)
  | lateHead (fresh : NewFork) (tenantId workspaceId forkId : Uuid)
      (definition : MetaSchemaDefinition) (source : Option (Uuid × SchemaRecord))

section Steps

variable (env : Dialect) (display : ℚ → String)

/-- The effect of an operation, or of its second half. -/
def Catalog.perform (c : Catalog) : VersionOp → Except YorishiroError Catalog
  | .now op => c.apply env display op
  | .lateFork fresh tenantId workspaceId input source =>
      (storeFork env display c fresh tenantId workspaceId input source).map Prod.fst
  | .lateHead fresh tenantId workspaceId forkId definition source => do
      let fork ← getFork c tenantId workspaceId forkId
      storeHead env display c fresh tenantId workspaceId forkId fork definition source

/-- One step; what fails is rolled back. -/
def Catalog.next (c : Catalog) (op : VersionOp) : Catalog :=
  match c.perform env display op with
  | .ok c' => c'
  | .error _ => c

end Steps

/-- The workspace and the name that the operation is about to number a version of. -/
def VersionOp.inserts (c : Catalog) : VersionOp → Option (Uuid × String)
  | .now (.createSchema _ _ workspaceId definition _ _) => some (workspaceId, definition.name)
  | .now (.createFork _ tenantId workspaceId input) =>
      (sourceById c tenantId input.sourceWorkspaceId input.sourceSchemaId).map
        fun source => (workspaceId, source.definition.name)
  | .now (.updateFork _ tenantId workspaceId forkId input) =>
      match input.definition with
      | some definition => some (workspaceId, definition.name)
      | none => (c.forks.get? forkId).bind fun fork =>
          (latestSourceByName c tenantId fork.sourceWorkspaceId fork.sourceSchemaName).map
            fun source => (workspaceId, source.2.definition.name)
  | .now _ => none
  | .lateFork _ _ workspaceId _ source => some (workspaceId, source.definition.name)
  | .lateHead _ _ workspaceId _ definition _ => some (workspaceId, definition.name)

/-- The versions of a workspace. -/
def Catalog.versions (c : Catalog) (workspaceId : Uuid) : Schemas :=
  ((c.spaces.get? workspaceId).map (·.schemas)).getD .empty

/-- There is a number left for the version the operation is about to insert. -/
def Catalog.RoomFor (c : Catalog) (op : VersionOp) : Prop :=
  ∀ e ∈ op.inserts c, HasRoom (c.versions e.1) e.2

instance (c : Catalog) (op : VersionOp) : Decidable (c.RoomFor op) :=
  match h : op.inserts c with
  | none => .isTrue fun e he => by rw [h] at he; cases he
  | some e => decidable_of_iff (HasRoom (c.versions e.1) e.2) (by simp [Catalog.RoomFor, h])

/-! ## What holds of the versions -/

/-- A row refers to the version. -/
inductive Catalog.Refers (c : Catalog) (id : Uuid) : Prop where
  | entity {k : Uuid} {row : Reference} (hrow : c.entities.get? k = some row)
      (hid : row.schemaId = id)
  | snapshot {k : Uuid} {row : Reference} (hrow : c.snapshots.get? k = some row)
      (hid : row.schemaId = id)
  | proposal {k : Uuid} {row : Reference} (hrow : c.proposals.get? k = some row)
      (hid : row.schemaId = id)
  | workspace {k : Uuid} {space : Space} (hrow : c.spaces.get? k = some space)
      (hid : space.workspace.schemaId = some id)
  | fork {k : Uuid} {fork : Fork} (hrow : c.forks.get? k = some fork)
      (hid : fork.sourceSchemaId = id ∨ fork.forkSchemaId = id)
  | head {k : Uuid} {head : ForkHead} (hrow : c.heads.get? k = some head)
      (hid : head.schemaId = id)

/-- The version is stored. -/
def Catalog.Stored (c : Catalog) (id : Uuid) : Prop :=
  ∃ workspaceId row, (c.versions workspaceId).get? id = some row

/-- The version is stored in the workspace, and archived. -/
def Catalog.Archived (c : Catalog) (workspaceId id : Uuid) : Prop :=
  ∃ row, (c.versions workspaceId).get? id = some row ∧ row.status = .archived

/-- **What holds of the versions in every state.** -/
structure Catalog.InOrder (c : Catalog) : Prop where
  oneActive : ∀ workspaceId a b x y, (c.versions workspaceId).get? a = some x →
    (c.versions workspaceId).get? b = some y → x.name = y.name → x.status = .active →
      y.status = .active → a = b
  distinct : ∀ workspaceId a b x y, (c.versions workspaceId).get? a = some x →
    (c.versions workspaceId).get? b = some y → x.name = y.name → x.version = y.version → a = b
  heads : ∀ k head, c.heads.get? k = some head → c.Archived head.workspaceId head.schemaId
  stored : ∀ id, c.Refers id → c.Stored id

/-- **What holds of every step**: in each workspace, a version that comes in is higher than the
others of its name, and an archived one stays archived. -/
def Catalog.Progresses (c c' : Catalog) : Prop :=
  ∀ workspaceId, Advances (c.versions workspaceId) (c'.versions workspaceId)

/-- The invariant behind it. -/
structure Catalog.VersionsInv (c : Catalog) : Prop where
  sequenced : ∀ workspaceId, Sequenced (c.versions workspaceId)
  heads : ∀ k head, c.heads.get? k = some head → c.Archived head.workspaceId head.schemaId
  stored : ∀ id, c.Refers id → c.Stored id

theorem Catalog.VersionsInv.inOrder {c : Catalog} (h : c.VersionsInv) : c.InOrder where
  oneActive := fun workspaceId => (h.sequenced workspaceId).oneActive
  heads := h.heads
  stored := h.stored
  distinct := by
    -- by the unique index on names and versions
    intro workspaceId a b x y hx hy hname hversion
    by_contra hne
    have hclash := Table.clash_eq_false (t := c.versions workspaceId)
      (fun a b => by simp [SchemaRecord.clash, eq_comm]) hne hx hy
    simp [SchemaRecord.clash, hname, hversion] at hclash

/-! ## What operations do to versions -/

/-- **What an operation can do to the versions.** It works on one workspace: versions are kept
and the table stays in order, or one version goes that no row refers to. -/
inductive VersionEffect (c c' : Catalog) : Prop where
  | keeps (heq : ∀ w, c'.versions w = c.versions w)
  | changes (workspaceId : Uuid)
      (hothers : ∀ w, w ≠ workspaceId → c'.versions w = c.versions w)
      (hseq : Sequenced (c'.versions workspaceId))
      (hadvances : Advances (c.versions workspaceId) (c'.versions workspaceId))
      (hkept : Kept (c.versions workspaceId) (c'.versions workspaceId))
  | deletes (workspaceId id : Uuid)
      (hothers : ∀ w, w ≠ workspaceId → c'.versions w = c.versions w)
      (heq : c'.versions workspaceId = (c.versions workspaceId).delete id) (hfree : ¬c.Refers id)

/-- What an operation does: to the versions, and to what refers to them. -/
structure Moved (c c' : Catalog) : Prop where
  versions : VersionEffect c c'
  refers : ∀ id, c'.Refers id → c.Refers id ∨ c'.Stored id
  heads : ∀ k head, c'.heads.get? k = some head →
    c.heads.get? k = some head ∨ c'.Archived head.workspaceId head.schemaId

section Effects

variable {c c' : Catalog}

theorem VersionEffect.progresses (h : VersionEffect c c') : c.Progresses c' := by
  intro w
  cases h with
  | keeps heq =>
      rw [heq w]
      exact .refl _
  | changes workspaceId hothers _ hadvances _ =>
      by_cases hw : w = workspaceId
      · rw [hw]
        exact hadvances
      · rw [hothers w hw]
        exact .refl _
  | deletes workspaceId id hothers heq _ =>
      by_cases hw : w = workspaceId
      · rw [hw, heq]
        exact advances_delete _ id
      · rw [hothers w hw]
        exact .refl _

theorem VersionEffect.sequenced (h : VersionEffect c c')
    (hc : ∀ w, Sequenced (c.versions w)) (w : Uuid) : Sequenced (c'.versions w) := by
  cases h with
  | keeps heq =>
      rw [heq w]
      exact hc w
  | changes workspaceId hothers hseq _ _ =>
      by_cases hw : w = workspaceId
      · rw [hw]
        exact hseq
      · rw [hothers w hw]
        exact hc w
  | deletes workspaceId id hothers heq _ =>
      by_cases hw : w = workspaceId
      · rw [hw, heq]
        exact sequenced_delete (hc workspaceId) id
      · rw [hothers w hw]
        exact hc w

/-- A version that is referred to is kept, and archived if it was. -/
theorem VersionEffect.kept (h : VersionEffect c c') {w id : Uuid} {row : SchemaRecord}
    (hrow : (c.versions w).get? id = some row) (href : c.Refers id) :
    ∃ row', (c'.versions w).get? id = some row' ∧
      (row.status = .archived → row'.status = .archived) := by
  cases h with
  | keeps heq =>
      rw [heq w]
      exact ⟨row, hrow, fun hstatus => hstatus⟩
  | changes workspaceId hothers _ _ hkept =>
      by_cases hw : w = workspaceId
      · subst hw
        obtain ⟨row', hrow', -, harchived⟩ := hkept id row hrow
        exact ⟨row', hrow', harchived⟩
      · rw [hothers w hw]
        exact ⟨row, hrow, fun hstatus => hstatus⟩
  | deletes workspaceId deleted hothers heq hfree =>
      by_cases hw : w = workspaceId
      · have hne : id ≠ deleted := by
          rintro rfl
          exact hfree href
        rw [hw, heq, Table.get?_delete, if_neg hne, ← hw]
        exact ⟨row, hrow, fun hstatus => hstatus⟩
      · rw [hothers w hw]
        exact ⟨row, hrow, fun hstatus => hstatus⟩

/-- The other tables do not matter. -/
theorem VersionEffect.of_spaces {c₁ : Catalog} (h : VersionEffect c c₁)
    (hspaces : c'.spaces = c₁.spaces) : VersionEffect c c' := by
  have hversions : ∀ w, c'.versions w = c₁.versions w := by
    intro w
    rw [Catalog.versions, hspaces, Catalog.versions]
  cases h with
  | keeps heq => exact .keeps fun w => (hversions w).trans (heq w)
  | changes workspaceId hothers hseq hadvances hkept =>
      rw [← hversions workspaceId] at hseq hadvances hkept
      exact .changes workspaceId (fun w hw => (hversions w).trans (hothers w hw)) hseq hadvances
        hkept
  | deletes workspaceId id hothers heq hfree =>
      exact .deletes workspaceId id (fun w hw => (hversions w).trans (hothers w hw))
        ((hversions workspaceId).trans heq) hfree

/-- **Step lemma.** -/
theorem Catalog.VersionsInv.moved (hc : c.VersionsInv) (h : Moved c c') : c'.VersionsInv where
  sequenced := h.versions.sequenced hc.sequenced
  heads := by
    intro k head hhead
    rcases h.heads k head hhead with hold | hnew
    · obtain ⟨row, hrow, hstatus⟩ := hc.heads k head hold
      obtain ⟨row', hrow', harchived⟩ := h.versions.kept hrow (.head hold rfl)
      exact ⟨row', hrow', harchived hstatus⟩
    · exact hnew
  stored := by
    intro id href
    rcases h.refers id href with hold | hnew
    · obtain ⟨w, row, hrow⟩ := hc.stored id hold
      obtain ⟨row', hrow', -⟩ := h.versions.kept hrow hold
      exact ⟨w, row', hrow'⟩
    · exact hnew

theorem versions_insert (c : Catalog) (id : Uuid) (space : Space) (w : Uuid) :
    ({ c with spaces := c.spaces.insert id space } : Catalog).versions w =
      if w = id then space.schemas else c.versions w := by
  unfold Catalog.versions
  rw [OrderedMap.get?_insert]
  split_ifs with hw
  · rfl
  · rfl

theorem versions_of_space {w : Uuid} {space : Space} (hspace : c.spaces.get? w = some space) :
    c.versions w = space.schemas := by
  rw [Catalog.versions, hspace]
  rfl

/-- References after a workspace's row is written. -/
theorem refers_insert {w id : Uuid} {space' : Space}
    (href : ({ c with spaces := c.spaces.insert w space' } : Catalog).Refers id) :
    c.Refers id ∨ space'.workspace.schemaId = some id := by
  cases href with
  | entity hrow hid => exact Or.inl (.entity hrow hid)
  | snapshot hrow hid => exact Or.inl (.snapshot hrow hid)
  | proposal hrow hid => exact Or.inl (.proposal hrow hid)
  | fork hrow hid => exact Or.inl (.fork hrow hid)
  | head hrow hid => exact Or.inl (.head hrow hid)
  | workspace hrow hid =>
      rcases OrderedMap.get?_insert_eq_some hrow with ⟨-, rfl⟩ | ⟨-, hold⟩
      · exact Or.inr hid
      · exact Or.inl (.workspace hold hid)

end Effects

/-! ## The operations -/

section Operations

variable {env : Dialect} {display : ℚ → String} {c c' : Catalog} {tenantId workspaceId : Uuid}

/-- A version that comes into a workspace, with room for its number. -/
theorem VersionEffect.of_inserted {space : Space} {schemas : Schemas} {id : Uuid}
    {row : SchemaRecord} {f : SchemaRecord → SchemaRecord} (hc : c.VersionsInv)
    (hspace : c.spaces.get? workspaceId = some space) (hf : Retires f)
    (hinserted : Inserted f space.schemas schemas id row)
    (hroom : HasRoom (c.versions workspaceId) row.name)
    (hretired : row.status = .active → ∀ old, (f old).status = .active → old.name ≠ row.name)
    (hversions : ∀ w, c'.versions w = if w = workspaceId then schemas else c.versions w) :
    VersionEffect c c' := by
  have hself : c'.versions workspaceId = schemas := by rw [hversions, if_pos rfl]
  have hseq := hc.sequenced workspaceId
  rw [versions_of_space hspace] at hseq hroom
  refine .changes workspaceId (fun w hw => ?_) ?_ ?_ ?_
  · rw [hversions, if_neg hw]
  · rw [hself]
    exact sequenced_of_inserted hf hinserted hseq hroom hretired
  · rw [hself, versions_of_space hspace]
    exact advances_of_inserted hf hinserted hseq hroom
  · rw [hself, versions_of_space hspace]
    exact kept_of_inserted hf hinserted

theorem createSchema_moved {id : Uuid} {definition : MetaSchemaDefinition}
    {originTemplateId : Option Uuid} {originSnapshot : Option MetaSchemaDefinition}
    {r : SchemaRecord × VersioningDiff} (hc : c.VersionsInv)
    (hroom : HasRoom (c.versions workspaceId) definition.name)
    (h : c.createSchema env display id tenantId workspaceId definition originTemplateId
      originSnapshot = .ok (c', r)) : Moved c c' := by
  obtain ⟨space, schemas, workspace, hspace, hcreate, -, rfl⟩ := Catalog.createSchema_eq_ok h
  obtain ⟨hinserted, rfl, hname, -⟩ := Schema.createSchema_eq_ok hcreate
  have hversions := versions_insert c workspaceId
    { space with workspace := markActive space.workspace id, schemas := schemas }
  refine ⟨.of_inserted hc hspace (retires_retire _) hinserted (hname ▸ hroom) ?_ hversions,
    fun l href => ?_, fun k head hhead => Or.inl hhead⟩
  · intro _ old hactive
    rw [hname]
    exact (retire_eq_active hactive).2
  · rcases refers_insert href with hold | hmarked
    · exact Or.inl hold
    · -- the workspace keeps its version, or takes the new one as its first
      cases hfirst : space.workspace.schemaId with
      | some first =>
          refine Or.inl (.workspace hspace ?_)
          simp only [markActive, hfirst, Option.getD_some] at hmarked
          rw [hfirst, hmarked]
      | none =>
          simp only [markActive, hfirst, Option.getD_none, Option.some.injEq] at hmarked
          subst hmarked
          have hself := hversions workspaceId
          rw [if_pos rfl] at hself
          exact Or.inr ⟨workspaceId, r.1, hself ▸ hinserted.get?_self⟩

/-- A head that comes in, and nothing else. -/
theorem insertForkHead_moved {definition : MetaSchemaDefinition} {id : Uuid} {row : SchemaRecord}
    (hc : c.VersionsInv) (hroom : HasRoom (c.versions workspaceId) definition.name)
    (h : c.insertForkHead env display tenantId workspaceId definition id = .ok (c', row)) :
    Moved c c' ∧ c'.Archived workspaceId id ∧ c'.heads = c.heads := by
  obtain ⟨space, schemas, hspace, hinsert, -, rfl⟩ := Catalog.insertForkHead_eq_ok h
  obtain ⟨hinserted, -, hname, harchived⟩ := Schema.insertForkHead_eq_ok hinsert
  have hversions := versions_insert c workspaceId { space with schemas := schemas }
  refine ⟨⟨.of_inserted hc hspace retires_id hinserted (hname ▸ hroom) ?_ hversions,
    fun l href => ?_, fun k head hhead => Or.inl hhead⟩, ⟨row, ?_, harchived⟩, rfl⟩
  · intro hactive
    rw [harchived] at hactive
    cases hactive
  · rcases refers_insert href with hold | hmarked
    · exact Or.inl hold
    · exact Or.inl (.workspace hspace hmarked)
  · have hself := hversions workspaceId
    rw [if_pos rfl] at hself
    exact hself ▸ hinserted.get?_self

theorem schema_stored {w id : Uuid} {row : SchemaRecord} (h : c.schema w id = some row) :
    c.Stored id := by
  obtain ⟨space, hspace, hrow⟩ := Option.bind_eq_some_iff.mp h
  refine ⟨w, row, ?_⟩
  rw [versions_of_space hspace]
  exact hrow

/-- A fork and a head are written after the version. -/
theorem Moved.withFork {c₁ : Catalog} (h : Moved c c₁) (hheads : c₁.heads = c.heads)
    {forks : Forks} {headId : Uuid} {fork : Fork} {head : ForkHead}
    (hforks : ∀ k row, forks.get? k = some row → c₁.forks.get? k = some row ∨ row = fork)
    (hintegrity : checkForkIntegrity c₁ fork = .ok ())
    (harchived : c₁.Archived head.workspaceId head.schemaId)
    (hrow : insertHeadRow { c₁ with forks := forks } headId head = .ok c') : Moved c c' := by
  obtain ⟨-, heads, hinsert, rfl⟩ := insertHeadRow_eq_ok hrow
  obtain ⟨-, -, ⟨source, hsource⟩, own, hown⟩ := checkForkIntegrity_eq_ok hintegrity
  have hhead : ∀ k row, heads.get? k = some row → c₁.heads.get? k = some row ∨ row = head := by
    intro k row hk
    have hget := Table.get?_insert hinsert k
    rw [hk] at hget
    split_ifs at hget
    · exact Or.inr (Option.some.inj hget)
    · exact Or.inl hget.symm
  refine ⟨h.versions.of_spaces rfl, fun id href => ?_, fun k row hk => ?_⟩
  · cases href with
    | entity hrow hid => exact h.refers id (.entity hrow hid)
    | snapshot hrow hid => exact h.refers id (.snapshot hrow hid)
    | proposal hrow hid => exact h.refers id (.proposal hrow hid)
    | workspace hrow hid => exact h.refers id (.workspace hrow hid)
    | fork hrow hid =>
        rcases hforks _ _ hrow with hold | rfl
        · exact h.refers id (.fork hold hid)
        · rcases hid with rfl | rfl
          · exact Or.inr (schema_stored hsource)
          · exact Or.inr (schema_stored hown)
    | head hrow hid =>
        rcases hhead _ _ hrow with hold | rfl
        · exact h.refers id (.head hold hid)
        · subst hid
          obtain ⟨version, hversion, -⟩ := harchived
          exact Or.inr ⟨_, version, hversion⟩
  · rcases hhead k row hk with hold | rfl
    · exact Or.inl (hheads ▸ hold)
    · exact Or.inr harchived

theorem storeFork_moved {fresh : NewFork} {input : CreateInput} {source : SchemaRecord} {fork : Fork}
    (hc : c.VersionsInv) (hroom : HasRoom (c.versions workspaceId) source.definition.name)
    (h : storeFork env display c fresh tenantId workspaceId input source = .ok (c', fork)) :
    Moved c c' := by
  obtain ⟨c₁, row, forks, hhead, -, -, -, -, hintegrity, hforks, hrow⟩ := storeFork_eq_ok h
  obtain ⟨hmoved, harchived, hheads⟩ := insertForkHead_moved hc hroom hhead
  refine hmoved.withFork hheads (fun k stored hk => ?_) hintegrity harchived hrow
  have hget := Table.get?_insert hforks k
  rw [hk] at hget
  split_ifs at hget
  · exact Or.inr (Option.some.inj hget)
  · exact Or.inl hget.symm

theorem storeHead_moved {fresh : NewFork} {forkId : Uuid} {fork : Fork}
    {definition : MetaSchemaDefinition} {source : Option (Uuid × SchemaRecord)}
    (hc : c.VersionsInv) (hroom : HasRoom (c.versions workspaceId) definition.name)
    (h : storeHead env display c fresh tenantId workspaceId forkId fork definition source = .ok c') :
    Moved c c' := by
  obtain ⟨c₁, row, forks, n, hhead, hforks, hintegrity, hrow⟩ := storeHead_eq_ok h
  obtain ⟨hmoved, harchived, hheads⟩ := insertForkHead_moved hc hroom hhead
  refine hmoved.withFork hheads (fun k stored hk => ?_) hintegrity harchived hrow
  rcases Table.updateRow_eq_ok hforks with ⟨_, -, -, -, hreplaces⟩ | ⟨-, -, rfl⟩
  · rw [hreplaces k] at hk
    split_ifs at hk
    · exact Or.inr (Option.some.inj hk).symm
    · exact Or.inl hk
  · exact Or.inl hk

theorem archive_moved {id : Uuid} {row : SchemaRecord} (hc : c.VersionsInv)
    (h : c.archive workspaceId id = .ok (c', row)) : Moved c c' := by
  obtain ⟨space, schemas, hspace, harchive, rfl⟩ := Catalog.archive_eq_ok h
  have hversions := versions_insert c workspaceId { space with schemas := schemas }
  have hself := hversions workspaceId
  rw [if_pos rfl] at hself
  have hseq := hc.sequenced workspaceId
  rw [versions_of_space hspace] at hseq
  refine ⟨.changes workspaceId (fun w hw => ?_) ?_ ?_ ?_, fun l href => ?_, fun k head => Or.inl⟩
  · rw [Catalog.setSchemas, hversions w, if_neg hw]
  · rw [Catalog.setSchemas, hself]
    exact sequenced_of_archive harchive hseq
  · rw [Catalog.setSchemas, hself, versions_of_space hspace]
    exact advances_of_archive harchive
  · rw [Catalog.setSchemas, hself, versions_of_space hspace]
    exact kept_of_archive harchive
  · rcases refers_insert href with hold | hmarked
    · exact Or.inl hold
    · exact Or.inl (.workspace hspace hmarked)

/-- A version that blocks nothing is referred to by nothing. -/
theorem not_refers_of_blockers {id : Uuid} (h : c.blockers id = []) : ¬c.Refers id := by
  have hnone : ∀ {α : Type} {m : OrderedMap Uuid α} {p : Uuid → α → Bool} {name : String},
      (if 0 < m.count p then [name] else []) = [] → ∀ k x, m.get? k = some x → p k x = false := by
    intro α m p name hempty k x hx
    by_contra hp
    have hmem : k ∈ m.selected p :=
      OrderedMap.mem_selected.mpr ⟨x, hx, by simpa using hp⟩
    have hpos : 0 < m.count p := by
      rw [← OrderedMap.length_selected]
      exact List.length_pos_of_mem hmem
    rw [if_pos hpos] at hempty
    cases hempty
  simp only [Catalog.blockers, List.append_eq_nil_iff] at h
  obtain ⟨⟨⟨⟨⟨hentities, hsnapshots⟩, hproposals⟩, hspaces⟩, hforks⟩, hheads⟩ := h
  intro href
  cases href with
  | entity hrow hid => exact absurd hid (of_decide_eq_false (hnone hentities _ _ hrow))
  | snapshot hrow hid => exact absurd hid (of_decide_eq_false (hnone hsnapshots _ _ hrow))
  | proposal hrow hid => exact absurd hid (of_decide_eq_false (hnone hproposals _ _ hrow))
  | workspace hrow hid => exact absurd hid (of_decide_eq_false (hnone hspaces _ _ hrow))
  | fork hrow hid =>
      have hfalse := hnone hforks _ _ hrow
      simp only [Bool.or_eq_false_iff, decide_eq_false_iff_not] at hfalse
      exact hid.elim hfalse.1 hfalse.2
  | head hrow hid => exact absurd hid (of_decide_eq_false (hnone hheads _ _ hrow))

theorem deleteSchema_moved {id : Uuid} (h : c.deleteSchema workspaceId id = .ok c') :
    Moved c c' := by
  obtain ⟨space, schema, hspace, -, -, hblockers, rfl⟩ := Catalog.deleteSchema_eq_ok h
  have hversions := versions_insert c workspaceId { space with schemas := space.schemas.delete id }
  refine ⟨.deletes workspaceId id (fun w hw => ?_) ?_ (not_refers_of_blockers hblockers),
    fun l href => ?_, fun k head => Or.inl⟩
  · rw [Catalog.setSchemas, hversions w, if_neg hw]
  · rw [Catalog.setSchemas, hversions workspaceId, if_pos rfl, versions_of_space hspace]
  · rcases refers_insert href with hold | hmarked
    · exact Or.inl hold
    · exact Or.inl (.workspace hspace hmarked)

theorem deleteFork_moved {forkId : Uuid} (h : deleteFork c tenantId workspaceId forkId = .ok c') :
    Moved c c' := by
  obtain rfl := deleteFork_eq_ok h
  refine ⟨.keeps fun w => rfl, fun id href => Or.inl ?_, fun k head hhead => Or.inl ?_⟩
  · cases href with
    | entity hrow hid => exact .entity hrow hid
    | snapshot hrow hid => exact .snapshot hrow hid
    | proposal hrow hid => exact .proposal hrow hid
    | workspace hrow hid => exact .workspace hrow hid
    | fork hrow hid =>
        rw [Table.get?_delete] at hrow
        split_ifs at hrow
        exact .fork hrow hid
    | head hrow hid =>
        rw [Table.get?_deleteWhere] at hrow
        exact .head (Option.filter_eq_some_iff.mp hrow).1 hid
  · rw [Table.get?_deleteWhere] at hhead
    exact (Option.filter_eq_some_iff.mp hhead).1

theorem addWorkspace_moved {id tenant : Uuid} {maxEntities : Option Int}
    (hfree : c.spaces.get? id = none) :
    Moved c { c with spaces := c.spaces.insert id ⟨tenant, ⟨true, none, maxEntities⟩, .empty⟩ } := by
  refine ⟨.keeps fun w => ?_, fun l href => ?_, fun k head => Or.inl⟩
  · rw [versions_insert]
    split_ifs with hw
    · rw [hw, Catalog.versions, hfree]
      rfl
    · rfl
  · rcases refers_insert href with hold | hmarked
    · exact Or.inl hold
    · cases hmarked

/-- Rows elsewhere that refer to a version come and go. -/
theorem mapReferences_moved {kind : ReferenceKind}
    {f : OrderedMap Uuid Reference → OrderedMap Uuid Reference}
    (hf : ∀ rows k row, (f rows).get? k = some row → rows.get? k = some row ∨ c.Stored row.schemaId) :
    Moved c (c.mapReferences kind f) := by
  cases kind with
  | entity =>
      refine ⟨.keeps fun w => rfl, fun id href => ?_, fun k head => Or.inl⟩
      cases href with
      | entity hrow hid =>
          exact (hf _ _ _ hrow).imp (fun hold => .entity hold hid) fun hstored => hid ▸ hstored
      | snapshot hrow hid => exact Or.inl (.snapshot hrow hid)
      | proposal hrow hid => exact Or.inl (.proposal hrow hid)
      | workspace hrow hid => exact Or.inl (.workspace hrow hid)
      | fork hrow hid => exact Or.inl (.fork hrow hid)
      | head hrow hid => exact Or.inl (.head hrow hid)
  | snapshot =>
      refine ⟨.keeps fun w => rfl, fun id href => ?_, fun k head => Or.inl⟩
      cases href with
      | entity hrow hid => exact Or.inl (.entity hrow hid)
      | snapshot hrow hid =>
          exact (hf _ _ _ hrow).imp (fun hold => .snapshot hold hid) fun hstored => hid ▸ hstored
      | proposal hrow hid => exact Or.inl (.proposal hrow hid)
      | workspace hrow hid => exact Or.inl (.workspace hrow hid)
      | fork hrow hid => exact Or.inl (.fork hrow hid)
      | head hrow hid => exact Or.inl (.head hrow hid)
  | proposal =>
      refine ⟨.keeps fun w => rfl, fun id href => ?_, fun k head => Or.inl⟩
      cases href with
      | entity hrow hid => exact Or.inl (.entity hrow hid)
      | snapshot hrow hid => exact Or.inl (.snapshot hrow hid)
      | proposal hrow hid =>
          exact (hf _ _ _ hrow).imp (fun hold => .proposal hold hid) fun hstored => hid ▸ hstored
      | workspace hrow hid => exact Or.inl (.workspace hrow hid)
      | fork hrow hid => exact Or.inl (.fork hrow hid)
      | head hrow hid => exact Or.inl (.head hrow hid)

theorem stored_of_findById {id : Uuid} (h : (c.findById id).isSome = true) : c.Stored id := by
  obtain ⟨row, hrow⟩ := Option.isSome_iff_exists.mp h
  obtain ⟨⟨w, space⟩, hmem, hget⟩ := List.exists_of_findSome?_eq_some hrow
  refine ⟨w, row, ?_⟩
  rw [versions_of_space ((OrderedMap.mem_entries_iff c.spaces w space).mp hmem)]
  exact hget

theorem chosenDefinition_name {fork : Fork} {input : UpdateInput}
    {definition : MetaSchemaDefinition} {source : Option (Uuid × SchemaRecord)}
    (h : chosenDefinition env display c tenantId fork input = .ok (definition, source)) :
    input.definition = some definition ∨ input.definition = none ∧
      ∃ e, latestSourceByName c tenantId fork.sourceWorkspaceId fork.sourceSchemaName = some e ∧
        definition = e.2.definition := by
  unfold chosenDefinition at h
  cases hinput : input.definition with
  | some given =>
      rw [hinput] at h
      obtain ⟨_, -, h⟩ := Except.bind_eq_ok.mp h
      obtain ⟨_, -, h⟩ := Except.bind_eq_ok.mp h
      cases h
      exact Or.inl rfl
  | none =>
      rw [hinput] at h
      obtain ⟨_, -, h⟩ := Except.bind_eq_ok.mp h
      obtain ⟨_, -, h⟩ := Except.bind_eq_ok.mp h
      obtain ⟨e, hlatest, h⟩ := Except.bind_eq_ok.mp h
      obtain ⟨_, -, h⟩ := Except.bind_eq_ok.mp h
      cases h
      refine Or.inr ⟨rfl, e, ?_, rfl⟩
      unfold latestSource at hlatest
      split at hlatest
      · cases hlatest
      · rename_i found hfound
        cases hlatest
        exact hfound

theorem apply_moved {op : CatalogOp} (hc : c.VersionsInv) (hroom : c.RoomFor (.now op))
    (h : c.apply env display op = .ok c') : Moved c c' := by
  cases op with
  | createSchema id tenantId workspaceId definition originTemplateId originSnapshot =>
      obtain ⟨⟨c₁, r⟩, hcreate, rfl⟩ := Except.map_eq_ok h
      exact createSchema_moved hc (hroom (workspaceId, definition.name) rfl) hcreate
  | archive workspaceId id =>
      obtain ⟨⟨c₁, row⟩, harchive, rfl⟩ := Except.map_eq_ok h
      exact archive_moved hc harchive
  | deleteSchema workspaceId id => exact deleteSchema_moved h
  | createFork fresh tenantId workspaceId input =>
      obtain ⟨⟨c₁, record⟩, hcreate, rfl⟩ := Except.map_eq_ok h
      obtain ⟨-, source, fork, hsource, hstore⟩ := createFork_eq_ok hcreate
      refine storeFork_moved hc (hroom (workspaceId, source.definition.name) ?_) hstore
      simp [VersionOp.inserts, hsource]
  | updateFork fresh tenantId workspaceId forkId input =>
      obtain ⟨⟨c₁, record⟩, hupdate, rfl⟩ := Except.map_eq_ok h
      obtain ⟨fork, definition, source, hfork, hchosen, hstore⟩ := updateFork_eq_ok hupdate
      refine storeHead_moved hc (hroom (workspaceId, definition.name) ?_) hstore
      rcases chosenDefinition_name hchosen with hgiven | ⟨hnone, e, hlatest, rfl⟩
      · simp [VersionOp.inserts, hgiven]
      · simp [VersionOp.inserts, hnone, hfork, hlatest]
  | deleteFork tenantId workspaceId forkId => exact deleteFork_moved h
  | addWorkspace id tenantId maxEntities =>
      obtain ⟨_, hfree, h⟩ := Except.bind_eq_ok.mp h
      cases h
      exact addWorkspace_moved (Option.isNone_iff_eq_none.mp (require_eq_ok.mp hfree))
  | refer kind id reference =>
      obtain ⟨_, hstored, h⟩ := Except.bind_eq_ok.mp h
      cases h
      refine mapReferences_moved fun rows k row hrow => ?_
      rcases OrderedMap.get?_insert_eq_some hrow with ⟨-, rfl⟩ | ⟨-, hold⟩
      · exact Or.inr (stored_of_findById (require_eq_ok.mp hstored))
      · exact Or.inl hold
  | forget kind id =>
      cases h
      exact mapReferences_moved fun rows k row hrow =>
        Or.inl (OrderedMap.get?_erase_eq_some hrow).2
  | tick n =>
      cases h
      exact ⟨.keeps fun w => rfl, fun id href => Or.inl (by cases href with
        | entity hrow hid => exact .entity hrow hid
        | snapshot hrow hid => exact .snapshot hrow hid
        | proposal hrow hid => exact .proposal hrow hid
        | workspace hrow hid => exact .workspace hrow hid
        | fork hrow hid => exact .fork hrow hid
        | head hrow hid => exact .head hrow hid), fun k head => Or.inl⟩

/-- **Every operation moves so**, if there is room for the version it inserts. -/
theorem perform_moved {op : VersionOp} (hc : c.VersionsInv) (hroom : c.RoomFor op)
    (h : c.perform env display op = .ok c') : Moved c c' := by
  cases op with
  | now op => exact apply_moved hc hroom h
  | lateFork fresh tenantId workspaceId input source =>
      obtain ⟨⟨c₁, fork⟩, hstore, rfl⟩ := Except.map_eq_ok h
      exact storeFork_moved hc (hroom (workspaceId, source.definition.name) rfl) hstore
  | lateHead fresh tenantId workspaceId forkId definition source =>
      obtain ⟨fork, -, hstore⟩ := Except.bind_eq_ok.mp h
      exact storeHead_moved hc (hroom (workspaceId, definition.name) rfl) hstore

end Operations

/-! ## Whole runs -/

section Runs

variable {env : Dialect} {display : ℚ → String}

theorem versionsInv_empty : Catalog.empty.VersionsInv where
  sequenced := fun w => ⟨fun id row h => (by cases h), fun a b x y h => (by cases h)⟩
  heads := fun k head h => by cases h
  stored := fun id h => by
    cases h with
    | entity hrow _ => cases hrow
    | snapshot hrow _ => cases hrow
    | proposal hrow _ => cases hrow
    | workspace hrow _ => cases hrow
    | fork hrow _ => cases hrow
    | head hrow _ => cases hrow

theorem Catalog.next_moved {c : Catalog} {op : VersionOp} (hc : c.VersionsInv)
    (hroom : c.RoomFor op) : Moved c (c.next env display op) := by
  unfold Catalog.next
  split
  · rename_i c' h
    exact perform_moved hc hroom h
  · exact ⟨.keeps fun w => rfl, fun id href => Or.inl href, fun k head => Or.inl⟩

theorem versionsInv_run {ops : List VersionOp}
    (hroom : StepsMeet (Catalog.next env display) Catalog.RoomFor .empty ops) :
    (run (Catalog.next env display) .empty ops).VersionsInv :=
  run_invariant Catalog.VersionsInv (fun _ _ hc hroom => hc.moved (Catalog.next_moved hc hroom))
    versionsInv_empty hroom

/-- **Versions stay in order.** In a run from the empty catalog in which each step has a number
for the version it inserts, every state is in order and every step takes the next number. -/
theorem versions_in_order (env : Dialect) (display : ℚ → String) (ops : List VersionOp)
    (hroom : StepsMeet (Catalog.next env display) Catalog.RoomFor .empty ops) :
    (∀ earlier later, ops = earlier ++ later →
        (run (Catalog.next env display) .empty earlier).InOrder) ∧
      ∀ earlier op later, ops = earlier ++ op :: later →
        (run (Catalog.next env display) .empty earlier).Progresses
          (run (Catalog.next env display) .empty (earlier ++ [op])) := by
  refine ⟨fun earlier later hops => ?_, fun earlier op later hops => ?_⟩
  · subst hops
    exact (versionsInv_run hroom.append.1).inOrder
  · subst hops
    obtain ⟨hearlier, hop, -⟩ := hroom.append
    rw [run_append]
    exact (Catalog.next_moved (versionsInv_run hearlier) hop).versions.progresses

end Runs

/-- Forks and heads among the versions of two workspaces, one of them written late. -/
def forkedVersions : List VersionOp :=
  mutualForks.map .now ++
    [.lateHead ⟨43, 0, 44⟩ 9 2 31 (noteVersion 20 false) none, .now (.deleteSchema 1 11)]

/-- The second fork is refused; its target and its source keep their versions. -/
theorem versions_in_order_forkedVersions :
    ((run (Catalog.next lenientDialect fun _ => "") .empty forkedVersions).versions
        2).rows.keys.length = 3 ∧
      (run (Catalog.next lenientDialect fun _ => "") .empty forkedVersions).InOrder :=
  ⟨by decide, (versions_in_order lenientDialect (fun _ => "") forkedVersions
    (by decide)).1 forkedVersions [] (List.append_nil _).symm⟩

/-! ## The last number -/

section Overflow

/-- One version of notes after another, in the one workspace. -/
def creations : Nat → List VersionOp
  | 0 => [.now (.addWorkspace 1 9 none)]
  | n + 1 => creations n ++
      [.now (.createSchema (Fin.ofNat _ n) 9 1 (noteVersion 10 false) none none)]

/-- The catalog after `n` creations. -/
def filled (n : Nat) : Catalog := run (Catalog.next lenientDialect fun _ => "") .empty (creations n)

/-- What is stored after `n` creations. -/
structure Filled (c : Catalog) (n : Nat) : Prop where
  inv : c.VersionsInv
  others : ∀ w, w ≠ 1 → c.spaces.get? w = none
  space : ∃ space, c.spaces.get? 1 = some space
  ids : ∀ id row, (c.versions 1).get? id = some row → id.val < n ∧ row.name = "notes"
  latest : latestVersion (c.versions 1) "notes" = n

theorem filled_succ (n : Nat) : filled (n + 1) = (filled n).next lenientDialect (fun _ => "")
    (.now (.createSchema (Fin.ofNat _ n) 9 1 (noteVersion 10 false) none none)) := by
  unfold filled
  rw [creations, run_append]
  rfl

theorem Filled.findById_none {c : Catalog} {n : Nat} (h : Filled c n) (hn : (n : Int) ≤ i32Max) :
    c.findById (Fin.ofNat _ n) = none := by
  unfold i32Max at hn
  refine List.findSome?_eq_none_iff.mpr fun ⟨w, space⟩ hmem => ?_
  have hget := (OrderedMap.mem_entries_iff c.spaces w space).mp hmem
  by_cases hw : w = 1
  · subst hw
    by_contra hsome
    obtain ⟨row, hrow⟩ := Option.ne_none_iff_exists'.mp hsome
    rw [← versions_of_space hget] at hrow
    have hlt := (h.ids _ row hrow).1
    rw [Fin.val_ofNat, Nat.mod_eq_of_lt (by omega)] at hlt
    omega
  · rw [h.others w hw] at hget
    cases hget

/-- The number after `i32::MAX` is the lowest. -/
theorem nextVersion_not_taken {schemas : Schemas} (hseq : Sequenced schemas) {n : Nat}
    (hlatest : latestVersion schemas "notes" = n) (hn : (n : Int) ≤ i32Max)
    (hnames : ∀ id row, schemas.get? id = some row → row.name = "notes") {id : Uuid}
    {row : SchemaRecord} (hrow : schemas.get? id = some row) :
    row.version ≠ nextVersion schemas "notes" := by
  have hpos := hseq.positive id row hrow
  have hle := version_le_latestVersion hrow
  rw [hnames id row hrow, hlatest] at hle
  unfold nextVersion
  rw [hlatest]
  unfold i32Max at hn
  by_cases hlast : (n : Int) = 2147483647
  · rw [hlast]
    have hwrap : Int.bmod (2147483647 + 1) (2 ^ 32) = -2147483648 := by decide
    omega
  · rw [Int.bmod_eq_of_le (by omega) (by omega)]
    omega

/-- **One more creation goes through**, whether or not there is a number left. -/
theorem Filled.create {c : Catalog} {n : Nat} (h : Filled c n) (hn : (n : Int) ≤ i32Max) :
    ∃ c' row, c.next lenientDialect (fun _ => "")
        (.now (.createSchema (Fin.ofNat _ n) 9 1 (noteVersion 10 false) none none)) = c' ∧
      Inserted (retire "notes") (c.versions 1) (c'.versions 1) (Fin.ofNat _ n) row ∧
      row.name = "notes" ∧ (∃ space, c'.spaces = c.spaces.insert 1 space) := by
  obtain ⟨space, hspace⟩ := h.space
  have hversions := versions_of_space hspace
  have hfree : space.schemas.get? (Fin.ofNat _ n) = none :=
    List.findSome?_eq_none_iff.mp (h.findById_none hn) (1, space)
      ((OrderedMap.mem_entries_iff c.spaces 1 space).mpr hspace)
  obtain ⟨⟨schemas, workspace, row, versioning⟩, hcreate⟩ := createSchema_total lenientDialect
    (fun _ => "") 9 (noteVersion 10 false) rfl hfree
    (fun l row hrow _ => nextVersion_not_taken (hversions ▸ h.inv.sequenced 1)
      (hversions ▸ h.latest) hn (fun id row hrow => (h.ids id row (hversions ▸ hrow)).2) hrow)
    space.workspace c.clock
  obtain ⟨hinserted, -, hname, -⟩ := Schema.createSchema_eq_ok hcreate
  let space' : Space := { space with workspace := workspace, schemas := schemas }
  have hcatalog : c.createSchema lenientDialect (fun _ => "") (Fin.ofNat _ n) 9 1
      (noteVersion 10 false) none none =
        .ok ({ c with spaces := c.spaces.insert 1 space' }, row, versioning) := by
    unfold Catalog.createSchema
    rw [hspace]
    refine Except.bind_eq_ok.mpr ⟨_, hcreate, Except.bind_eq_ok.mpr ⟨(), ?_, rfl⟩⟩
    rw [h.findById_none hn]
    rfl
  refine ⟨{ c with spaces := c.spaces.insert 1 space' }, row, ?_, ?_, hname, space', rfl⟩
  · have hperform : c.perform lenientDialect (fun _ => "") (.now (.createSchema (Fin.ofNat _ n) 9 1
        (noteVersion 10 false) none none)) = .ok { c with spaces := c.spaces.insert 1 space' } :=
      congrArg (Except.map Prod.fst) hcatalog
    unfold Catalog.next
    rw [hperform]
  · rw [versions_insert, if_pos rfl, hversions]
    exact hinserted

/-- The new version is the latest, if there was a number left. -/
theorem latestVersion_of_inserted {a b : Schemas} {id : Uuid} {row : SchemaRecord} {n : Nat}
    (h : Inserted (retire "notes") a b id row) (hname : row.name = "notes") (hseq : Sequenced a)
    (hlatest : latestVersion a "notes" = n) (hn : (n : Int) < i32Max) :
    latestVersion b "notes" = (n + 1 : Nat) := by
  have hroom : HasRoom a "notes" := hlatest.trans_lt hn
  have hversion : row.version = n + 1 := by
    rw [h.version, hname, nextVersion_eq hseq hroom, hlatest]
  have hself := version_le_latestVersion h.get?_self
  rw [hname] at hself
  unfold latestVersion at hself ⊢
  cases hb : latest b fun r => decide (r.name = "notes") with
  | none =>
      have := latest_eq_none hb h.get?_self
      simp [hname] at this
  | some e =>
      rw [hb] at hself
      obtain ⟨hget, hnotes⟩ := latest_eq_some hb
      have hle : e.2.version ≤ row.version := by
        rcases h.cases hget with ⟨-, heq⟩ | ⟨old, hold, heq⟩
        · rw [heq]
        · have hlt := version_le_latestVersion hold
          rw [heq, retire_name] at hnotes
          rw [of_decide_eq_true hnotes, hlatest] at hlt
          rw [heq, retire_version]
          omega
      simp only [Option.map_some, Option.getD_some] at hself ⊢
      omega

theorem filled_eq (n : Nat) (hn : (n : Int) ≤ i32Max) : Filled (filled n) n := by
  induction n with
  | zero =>
      refine ⟨?_, ?_, ⟨_, rfl⟩, ?_, rfl⟩
      · exact versionsInv_run ⟨by decide, trivial⟩
      · intro w hw
        exact (OrderedMap.get?_insert Catalog.empty.spaces 1 w _).trans (if_neg hw)
      · intro id row hrow
        cases hrow
  | succ n ih =>
      have hlt : (n : Int) < i32Max := by omega
      have hfilled := ih hlt.le
      obtain ⟨c', row, hnext, hinserted, hname, space, hspaces⟩ := hfilled.create hlt.le
      rw [filled_succ, hnext]
      have hseq := hfilled.inv.sequenced 1
      refine ⟨?_, fun w hw => ?_, ⟨space, ?_⟩, fun id r hr => ?_,
        latestVersion_of_inserted hinserted hname hseq hfilled.latest hlt⟩
      · have hroom : (filled n).RoomFor (.now (.createSchema (Fin.ofNat _ n) 9 1
            (noteVersion 10 false) none none)) := by
          rintro e he
          cases he
          exact hfilled.latest.trans_lt hlt
        exact hnext ▸ hfilled.inv.moved (Catalog.next_moved hfilled.inv hroom)
      · rw [hspaces, OrderedMap.get?_insert, if_neg hw]
        exact hfilled.others w hw
      · rw [hspaces, OrderedMap.get?_insert, if_pos rfl]
      · rcases hinserted.cases hr with ⟨rfl, rfl⟩ | ⟨old, hold, rfl⟩
        · unfold i32Max at hlt
          rw [Fin.val_ofNat, Nat.mod_eq_of_lt (by omega)]
          exact ⟨Nat.lt_succ_self n, hname⟩
        · rw [retire_name]
          exact (hfilled.ids id old hold).imp_left Nat.lt_succ_of_lt

/-- **The version after number `i32::MAX` gets the lowest number there is.** -/
theorem not_progresses_filled : ¬(filled 2147483647).Progresses (filled 2147483648) := by
  have hfilled := filled_eq 2147483647 le_rfl
  obtain ⟨c', row, hnext, hinserted, hname, -⟩ := hfilled.create le_rfl
  rw [filled_succ 2147483647, hnext]
  intro hprogresses
  have hlatest := hfilled.latest
  unfold latestVersion at hlatest
  cases hold : latest ((filled 2147483647).versions 1) fun r => decide (r.name = "notes") with
  | none =>
      rw [hold] at hlatest
      cases hlatest
  | some e =>
      rw [hold] at hlatest
      obtain ⟨hget, hnotes⟩ := latest_eq_some hold
      have hlt := (hprogresses 1).greater _ row hinserted.get?_self hinserted.fresh e.1 e.2 hget
        ((of_decide_eq_true hnotes).trans hname.symm)
      have hwrapped : row.version = -2147483648 := by
        rw [hinserted.version, hname, nextVersion, hfilled.latest]
        rfl
      simp only [Option.map_some, Option.getD_some] at hlatest
      omega

end Overflow

end Yorishiro.Schema
