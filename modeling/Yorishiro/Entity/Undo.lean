import Yorishiro.Entity.Confirmation

/-!
# Snapshots and undo

A job keeps a snapshot of every entity it is about to write, and `undo_job` puts back what the
snapshots hold. `Snapshotted` is what a job leaves behind, whether it fills defaults
(`fillDefaults_ends`) or confirms proposals (`Accounts.snapshotted`). `undoJob_ends` says what an
undo does to the rows it finds, one snapshot after the other.
-/

set_option autoImplicit false

namespace Yorishiro.Entity

open Yorishiro.Lib Yorishiro.Lib.JsonSchema Yorishiro.Metaschema Yorishiro.Schema

/-! ## What a job leaves -/

/-- What a snapshot records of a row. -/
structure Image where
  data : Json
  schemaId : Uuid
  schemaVersion : Int
deriving DecidableEq

def EntityRow.image (row : EntityRow) : Image := ⟨row.data, row.schemaId, row.schemaVersion⟩

/-- The data and schema pointer of an entity. -/
def imageOf (s : EntityStore) (k : Uuid) : Option Image := (s.rows.get? k).map EntityRow.image

/-- The snapshots of a job. -/
def snapshotsOf (tables : Tables) (jobId : Uuid) : List EntitySnapshot :=
  tables.snapshots.filter fun snap => decide (snap.jobId = jobId)

/-- The job took one snapshot of each of the entities, as they were before, and wrote no
other. -/
structure Snapshotted (jobId : Uuid) (s s' : EntityStore) (ks : List Uuid) : Prop where
  nodup : ks.Nodup
  present : ∀ k ∈ ks, ∃ row, s.rows.get? k = some row
  snapshots : s'.tables.snapshots = s.tables.snapshots ++
    ks.filterMap fun k => (s.rows.get? k).map fun row => row.snapshot jobId k
  kept : ∀ k, k ∉ ks → s'.rows.get? k = s.rows.get? k

theorem Accounts.snapshotted {cx : Context} {jobId : Uuid} {s s' : EntityStore}
    {report : ConfirmReport} {outcome : Uuid → Option ProposalStatus}
    (h : Accounts cx jobId s s' report outcome) :
    ∃ ks, Snapshotted jobId s s' ks ∧ ∀ k, k ∈ ks ↔ outcome k = some .confirmed := by
  obtain ⟨ks, hnodup, hmem, hsnapshots⟩ := h.snapshots
  refine ⟨ks, ⟨hnodup, fun k hk => ?_, hsnapshots, fun k hk => ?_⟩, hmem⟩
  · obtain ⟨old, -, hold, -⟩ := h.written k ((hmem k).mp hk)
    exact ⟨old, hold⟩
  · exact h.kept k fun hconfirmed => hk ((hmem k).mpr hconfirmed)

section Snapshotted

variable {jobId : Uuid} {s s' : EntityStore} {ks : List Uuid}

/-- What the job has snapshots of, if it had none before. -/
theorem Snapshotted.snapshotsOf_eq (h : Snapshotted jobId s s' ks)
    (hfresh : snapshotsOf s.tables jobId = []) :
    snapshotsOf s'.tables jobId =
      ks.filterMap fun k => (s.rows.get? k).map fun row => row.snapshot jobId k := by
  unfold snapshotsOf at hfresh ⊢
  rw [h.snapshots, List.filter_append, hfresh, List.nil_append, List.filter_eq_self]
  intro snap hsnap
  obtain ⟨k, -, hk⟩ := List.mem_filterMap.mp hsnap
  obtain ⟨row, -, rfl⟩ := Option.map_eq_some_iff.mp hk
  exact decide_eq_true rfl

theorem filterMap_snapshot_entityId {ks : List Uuid}
    (hpresent : ∀ k ∈ ks, ∃ row, s.rows.get? k = some row) :
    (ks.filterMap fun k => (s.rows.get? k).map fun row => row.snapshot jobId k).map
      EntitySnapshot.entityId = ks := by
  induction ks with
  | nil => rfl
  | cons k ks ih =>
      obtain ⟨row, hrow⟩ := hpresent k List.mem_cons_self
      rw [List.filterMap_cons, hrow, Option.map_some]
      simp only [List.map_cons, ih fun l hl => hpresent l (List.mem_cons_of_mem _ hl)]
      rfl

theorem Snapshotted.entityIds (h : Snapshotted jobId s s' ks)
    (hfresh : snapshotsOf s.tables jobId = []) :
    (snapshotsOf s'.tables jobId).map EntitySnapshot.entityId = ks := by
  rw [h.snapshotsOf_eq hfresh, filterMap_snapshot_entityId h.present]

end Snapshotted

/-! ## Undo -/

/-- The row after the snapshot has been put back, if it is one of the row. -/
def EntitySnapshot.putBack (k : Uuid) (row : EntityRow) (snap : EntitySnapshot) : EntityRow :=
  if snap.entityId = k then
    { row with data := snap.data, schemaId := snap.schemaId, schemaVersion := snap.schemaVersion }
  else row

/-- A row without what a write stamps on it. -/
def EntityRow.unstamped (row : EntityRow) : EntityRow :=
  { row with updatedAt := 0, embeddingSyncToken := "" }

/-- The snapshots have been put back where their entities are. -/
structure PutBack (snaps : List EntitySnapshot) (s s' : EntityStore) : Prop where
  tables : s'.tables = s.tables
  rows : ∀ k, (s'.rows.get? k).map EntityRow.unstamped = (s.rows.get? k).map fun row =>
    (snaps.foldl (EntitySnapshot.putBack k) row).unstamped

/-- The report of an undo that finds the rows of `s`. -/
def undoReport (jobId : Uuid) (s : EntityStore) (snaps : List EntitySnapshot) : UndoReport where
  jobId := jobId
  restored := snaps.countP fun snap => (s.rows.get? snap.entityId).isSome
  missing := snaps.countP fun snap => (s.rows.get? snap.entityId).isNone

section Undo

variable {jobId : Uuid} {s₀ s s' : EntityStore} {done : List EntitySnapshot}

theorem PutBack.isSome (h : PutBack done s₀ s) (k : Uuid) :
    (s.rows.get? k).isSome = (s₀.rows.get? k).isSome := by
  have hrows := congrArg Option.isSome (h.rows k)
  rwa [Option.isSome_map, Option.isSome_map] at hrows

theorem unstamped_putBack (k : Uuid) (row : EntityRow) (snap : EntitySnapshot) :
    (snap.putBack k row).unstamped = snap.putBack k row.unstamped := by
  unfold EntitySnapshot.putBack
  split_ifs <;> rfl

theorem PutBack.absent {snap : EntitySnapshot} (h : PutBack done s₀ s)
    (hrow : s.rows.get? snap.entityId = none) : PutBack (done ++ [snap]) s₀ s := by
  refine ⟨h.tables, fun k => ?_⟩
  rw [h.rows k]
  have hisSome := h.isSome k
  cases hk : s₀.rows.get? k with
  | none => rfl
  | some row =>
      rw [hk] at hisSome
      have hne : snap.entityId ≠ k := by
        rintro rfl
        rw [hrow] at hisSome
        cases hisSome
      rw [Option.map_some, Option.map_some, List.foldl_concat, EntitySnapshot.putBack, if_neg hne]

theorem PutBack.present {snap : EntitySnapshot} {row : EntityRow} {stamp : Stamp}
    (h : PutBack done s₀ s) (hrow : s.rows.get? snap.entityId = some row) :
    PutBack (done ++ [snap]) s₀
      { s with
        rows := s.rows.put snap.entityId
          (some (row.restamped snap.data snap.schemaId snap.schemaVersion stamp)) } := by
  refine ⟨h.tables, fun k => ?_⟩
  have hk := h.rows k
  simp only [OrderedMap.get?_put, List.foldl_concat, unstamped_putBack]
  split_ifs with heq
  · subst heq
    rw [hrow, Option.map_some] at hk
    cases hold : s₀.rows.get? snap.entityId with
    | none =>
        rw [hold] at hk
        cases hk
    | some old =>
        rw [hold, Option.map_some] at hk
        rw [Option.map_some, Option.map_some, ← Option.some.inj hk, EntitySnapshot.putBack,
          if_pos rfl]
        rfl
  · rw [hk]
    cases s₀.rows.get? k with
    | none => rfl
    | some old =>
        rw [Option.map_some, Option.map_some, EntitySnapshot.putBack, if_neg (Ne.symm heq)]

theorem restore_ends {snap : EntitySnapshot} (h : PutBack done s₀ s) :
    (restore (undoReport jobId s₀ done) snap).ends (fun _ => False)
      (fun report s' => PutBack (done ++ [snap]) s₀ s' ∧
        report = undoReport jobId s₀ (done ++ [snap])) s := by
  have hisSome := h.isSome snap.entityId
  have hisNone : (s.rows.get? snap.entityId).isNone = (s₀.rows.get? snap.entityId).isNone := by
    rw [← Option.not_isSome, ← Option.not_isSome, hisSome]
  rw [restore, Prog.ends_bind]
  cases hrow : s.rows.get? snap.entityId with
  | none =>
      rw [Prog.ends_update_none _ (by rw [hrow]; rfl)]
      refine ⟨h.absent hrow, ?_⟩
      rw [hrow] at hisSome hisNone
      simp [undoReport, List.countP_append, ← hisSome, ← hisNone]
  | some row =>
      refine (Prog.ends_update_some _ hrow rfl).mpr fun stamp => ⟨h.present hrow, ?_⟩
      rw [hrow] at hisSome hisNone
      simp [undoReport, List.countP_append, ← hisSome, ← hisNone]

/-- **What an undo does.** It fails only if the job has no snapshot. -/
theorem undoJob_ends (jobId : Uuid) (s : EntityStore) :
    (undoJob jobId).ends (fun _ => snapshotsOf s.tables jobId = [])
      (fun report s' => snapshotsOf s.tables jobId ≠ [] ∧
        PutBack (snapshotsOf s.tables jobId) s s' ∧
        report = undoReport jobId s (snapshotsOf s.tables jobId)) s := by
  rw [undoJob, Prog.ends_bind, Prog.ends_read]
  dsimp only
  generalize hsnaps : snapshotsOf s.tables jobId = snaps
  unfold snapshotsOf at hsnaps
  rw [hsnaps]
  cases snaps with
  | nil => exact rfl
  | cons snap snaps =>
      refine Prog.ends_mono (Prog.ends_foldlM restore (fun gs report s' => ∃ done,
        snap :: snaps = done ++ gs ∧ PutBack done s s' ∧ report = undoReport jobId s done) ?_
        ⟨[], rfl, ⟨rfl, fun k => rfl⟩, rfl⟩) ?_ (fun _ h => False.elim h)
      · rintro g gs _ s' ⟨done, hsplit, hback, rfl⟩
        refine Prog.ends_mono (restore_ends hback) ?_ fun _ h => h
        rintro _ s'' ⟨hback', rfl⟩
        exact ⟨done ++ [g], by rw [hsplit, List.append_assoc]; rfl, hback', rfl⟩
      · rintro _ s' ⟨done, hsplit, hback, rfl⟩
        rw [List.append_nil] at hsplit
        rw [hsplit]
        exact ⟨hsplit ▸ List.cons_ne_nil _ _, hback, rfl⟩

end Undo

/-! ## What an undo restores -/

/-- What the snapshot holds. -/
def EntitySnapshot.image (snap : EntitySnapshot) : Image :=
  ⟨snap.data, snap.schemaId, snap.schemaVersion⟩

section Restored

variable {s s' s'' : EntityStore} {snaps : List EntitySnapshot} {k : Uuid}

theorem foldl_putBack_of_ne (h : ∀ snap ∈ snaps, snap.entityId ≠ k) (row : EntityRow) :
    snaps.foldl (EntitySnapshot.putBack k) row = row := by
  induction snaps with
  | nil => rfl
  | cons snap snaps ih =>
      rw [List.foldl_cons, EntitySnapshot.putBack, if_neg (h snap List.mem_cons_self)]
      exact ih fun other hother => h other (List.mem_cons_of_mem _ hother)

/-- With one snapshot of the entity, that is the one put back. -/
theorem foldl_putBack_of_mem (hnodup : (snaps.map EntitySnapshot.entityId).Nodup)
    {snap : EntitySnapshot} (hsnap : snap ∈ snaps) (row : EntityRow) :
    snaps.foldl (EntitySnapshot.putBack snap.entityId) row =
      { row with
        data := snap.data
        schemaId := snap.schemaId
        schemaVersion := snap.schemaVersion } := by
  induction snaps generalizing row with
  | nil => cases hsnap
  | cons head snaps ih =>
      rw [List.map_cons, List.nodup_cons] at hnodup
      rw [List.foldl_cons]
      rcases List.mem_cons.mp hsnap with rfl | hmem
      · rw [foldl_putBack_of_ne, EntitySnapshot.putBack, if_pos rfl]
        exact fun other hother heq => hnodup.1 (List.mem_map.mpr ⟨other, hother, heq⟩)
      · have hne : head.entityId ≠ snap.entityId := fun heq =>
          hnodup.1 (List.mem_map.mpr ⟨snap, hmem, heq.symm⟩)
        rw [EntitySnapshot.putBack, if_neg hne]
        exact ih hnodup.2 hmem row

theorem imageOf_eq (s : EntityStore) (k : Uuid) :
    imageOf s k = ((s.rows.get? k).map EntityRow.unstamped).map EntityRow.image := by
  rw [Option.map_map]
  rfl

/-- An entity that has no snapshot is left as it is. -/
theorem PutBack.unstamped_of_ne (h : PutBack snaps s s') (hne : ∀ snap ∈ snaps, snap.entityId ≠ k) :
    (s'.rows.get? k).map EntityRow.unstamped = (s.rows.get? k).map EntityRow.unstamped := by
  rw [h.rows k]
  exact congrArg (fun f => (s.rows.get? k).map f)
    (funext fun row => congrArg EntityRow.unstamped (foldl_putBack_of_ne hne row))

/-- An entity that is there gets what its snapshot holds. -/
theorem PutBack.imageOf_of_mem (h : PutBack snaps s s')
    (hnodup : (snaps.map EntitySnapshot.entityId).Nodup) {snap : EntitySnapshot}
    (hsnap : snap ∈ snaps) {row : EntityRow} (hrow : s.rows.get? snap.entityId = some row) :
    imageOf s' snap.entityId = some snap.image := by
  rw [imageOf_eq, h.rows, hrow, Option.map_some, foldl_putBack_of_mem hnodup hsnap]
  rfl

/-- **A second undo changes nothing more** than what every write stamps. -/
theorem PutBack.again (h : PutBack snaps s s') (h' : PutBack snaps s' s'')
    (hnodup : (snaps.map EntitySnapshot.entityId).Nodup) (k : Uuid) :
    (s''.rows.get? k).map EntityRow.unstamped = (s'.rows.get? k).map EntityRow.unstamped := by
  by_cases hk : ∃ snap ∈ snaps, snap.entityId = k
  · obtain ⟨snap, hsnap, rfl⟩ := hk
    have hrow := h.rows snap.entityId
    rw [h'.rows]
    cases hget : s'.rows.get? snap.entityId with
    | none => rfl
    | some row' =>
        rw [hget] at hrow
        cases hold : s.rows.get? snap.entityId with
        | none =>
            rw [hold] at hrow
            cases hrow
        | some row =>
            rw [hold, Option.map_some, Option.map_some, foldl_putBack_of_mem hnodup hsnap,
              Option.some.injEq] at hrow
            rw [Option.map_some, Option.map_some, foldl_putBack_of_mem hnodup hsnap]
            -- the row holds the snapshot already
            have himage : row'.unstamped.image = snap.image := by
              rw [hrow]
              rfl
            obtain ⟨hdata, hschema, hversion⟩ := Image.mk.inj himage
            change row'.data = snap.data at hdata
            change row'.schemaId = snap.schemaId at hschema
            change row'.schemaVersion = snap.schemaVersion at hversion
            rw [← hdata, ← hschema, ← hversion]
  · push Not at hk
    exact h'.unstamped_of_ne hk

/-- The report of an undo depends only on which entities are there. -/
theorem undoReport_congr (jobId : Uuid)
    (h : ∀ k, (s'.rows.get? k).isSome = (s.rows.get? k).isSome) (snaps : List EntitySnapshot) :
    undoReport jobId s' snaps = undoReport jobId s snaps := by
  have hnone : ∀ k, (s'.rows.get? k).isNone = (s.rows.get? k).isNone := by
    intro k
    rw [← Option.not_isSome, ← Option.not_isSome, h k]
  unfold undoReport
  simp only [h, hnone]

end Restored

/-! ## Edits -/

/-- The schema pointer of an entity. -/
def schemaOf (s : EntityStore) (k : Uuid) : Option (Uuid × Int) :=
  (s.rows.get? k).map fun row => (row.schemaId, row.schemaVersion)

/-- An update leaves the other tables and every schema pointer. -/
theorem update_ends (cx : Context) (input : UpdateEntityInput) (s : EntityStore) :
    (update cx input).ends (fun _ => True)
      (fun _ s' => s'.tables = s.tables ∧ ∀ k, schemaOf s' k = schemaOf s k) s := by
  rw [update, Prog.ends_bind, findById, Prog.ends_rows]
  split
  · trivial
  · rename_i existing rest hfound
    split
    · trivial
    · rw [Prog.ends_bind, Prog.ends_read, Prog.ends_bind, Prog.ends_ofExcept]
      refine ⟨fun _ _ => ?_, fun _ _ => trivial⟩
      rw [Prog.ends_bind]
      cases hrow : (s.rows.get? input.id).filter fun row => input.expectedUpdatedAt.isNone ||
          decide (row.embeddingSyncToken = existing.embeddingSyncToken) with
      | none =>
          rw [Prog.ends_update_none _ hrow]
          trivial
      | some row =>
          obtain ⟨hget, hguard⟩ := Option.filter_eq_some_iff.mp hrow
          refine (Prog.ends_update_some (x := row) _ hget hguard).mpr fun stamp => ⟨rfl, fun k => ?_⟩
          unfold schemaOf
          rw [OrderedMap.get?_put]
          split_ifs with hk
          · rw [hk, hget]
            rfl
          · rfl

/-- A deletion leaves the other tables. -/
theorem delete_ends (id : Uuid) (s : EntityStore) :
    (delete id).ends (fun _ => True) (fun _ s' => s'.tables = s.tables) s := by
  rw [delete, Prog.ends_bind]
  cases hrow : (s.rows.get? id).filter fun _ => true with
  | none =>
      rw [Prog.ends_update_none _ hrow]
      trivial
  | some row =>
      obtain ⟨hget, hguard⟩ := Option.filter_eq_some_iff.mp hrow
      exact (Prog.ends_update_some (x := row) _ hget hguard).mpr fun stamp => rfl

/-! ## Filling defaults -/

/-- The type that the active version has for an entity that the fill finds behind. -/
def fillType (args : FillDefaultsArgs) (active : Uuid × SchemaRecord) (tables : Tables) (k : Uuid)
    (row : EntityRow) : Option EntityTypeDef :=
  if isBehind args active.1 tables k row then
    active.2.definition.entityTypes.get? row.entityType
  else none

/-- What the fill leaves of a row that it took a snapshot of. -/
def FilledRow (args : FillDefaultsArgs) (type : EntityTypeDef) (row row' : EntityRow) : Prop :=
  if (fillFieldsInValue type.trees row.data).2 = 0 then row' = row
  else ∃ stamp, row' = row.withData (fillFieldsInValue type.trees row.data).1 args.updatedBy stamp

section FilledRow

variable {args : FillDefaultsArgs} {type : EntityTypeDef} {row row' : EntityRow}

/-- The fill leaves a row at the schema version it is at. -/
theorem FilledRow.pointer (h : FilledRow args type row row') :
    (row'.schemaId, row'.schemaVersion) = (row.schemaId, row.schemaVersion) := by
  unfold FilledRow at h
  split_ifs at h
  · rw [h]
  · obtain ⟨stamp, rfl⟩ := h
    rfl

/-- The fill leaves what a row says exactly if there is nothing to fill in. -/
theorem FilledRow.image_eq_iff (h : FilledRow args type row row') :
    row'.image = row.image ↔ (fillFieldsInValue type.trees row.data).2 = 0 := by
  unfold FilledRow at h
  split_ifs at h with hcount
  · rw [h]
    exact iff_of_true rfl hcount
  -- a field was added, so the data is not what it was
  · obtain ⟨stamp, rfl⟩ := h
    refine iff_of_false (fun himage => ?_) hcount
    exact fillFieldsInValue_ne type hcount (congrArg Image.data himage)

end FilledRow

/-- The entities that the fill has been at, and those still to come. -/
structure FillProgress (args : FillDefaultsArgs) (active : Uuid × SchemaRecord) (s₀ : EntityStore)
    (todo : List (Uuid × EntityRow)) (s : EntityStore) (ks : List Uuid) : Prop where
  snapshotted : Snapshotted args.jobId s₀ s ks
  tables : s.tables = { s₀.tables with snapshots := s.tables.snapshots }
  filled : ∀ k ∈ ks, ∃ row type row', s₀.rows.get? k = some row ∧
    fillType args active s₀.tables k row = some type ∧ s.rows.get? k = some row' ∧
      FilledRow args type row row'
  ahead : ∀ e ∈ todo, e.1 ∉ ks ∧ s₀.rows.get? e.1 = some e.2 ∧
    isBehind args active.1 s₀.tables e.1 e.2 = true
  nodup : (todo.map Prod.fst).Nodup
  reached : ∀ k row type, s₀.rows.get? k = some row →
    fillType args active s₀.tables k row = some type → k ∈ ks ∨ k ∈ todo.map Prod.fst

section Fill

variable {args : FillDefaultsArgs} {active : Uuid × SchemaRecord} {s₀ s s' : EntityStore}
  {k : Uuid} {row : EntityRow} {todo : List (Uuid × EntityRow)} {ks : List Uuid}
  {report : FillDefaultsReport}

theorem FillProgress.start (args : FillDefaultsArgs) (active : Uuid × SchemaRecord)
    (s : EntityStore) :
    FillProgress args active s (s.rows.select (isBehind args active.1 s.tables)) s [] where
  snapshotted := ⟨List.nodup_nil, nofun, (List.append_nil _).symm, fun _ _ => rfl⟩
  tables := rfl
  filled := nofun
  ahead := fun e he => ⟨List.not_mem_nil, (OrderedMap.mem_select.mp he).1,
    (OrderedMap.mem_select.mp he).2⟩
  nodup := OrderedMap.nodup_select _ _
  reached := by
    intro k row type hrow htype
    unfold fillType at htype
    split_ifs at htype with hbehind
    exact Or.inr (List.mem_map.mpr ⟨(k, row), OrderedMap.mem_select.mpr ⟨hrow, hbehind⟩, rfl⟩)

/-- The entity that comes next has the row it had, and no snapshot. -/
theorem FillProgress.head (h : FillProgress args active s₀ ((k, row) :: todo) s ks) :
    k ∉ ks ∧ s₀.rows.get? k = some row ∧ s.rows.get? k = some row ∧
      fillType args active s₀.tables k row =
        active.2.definition.entityTypes.get? row.entityType := by
  obtain ⟨hk, hrow, hbehind⟩ := h.ahead _ List.mem_cons_self
  refine ⟨hk, hrow, ?_, if_pos hbehind⟩
  rw [h.snapshotted.kept k hk]
  exact hrow

/-- An entity whose type the active version has dropped is passed over. -/
theorem FillProgress.skip (h : FillProgress args active s₀ ((k, row) :: todo) s ks)
    (htype : active.2.definition.entityTypes.get? row.entityType = none) :
    FillProgress args active s₀ todo s ks where
  snapshotted := h.snapshotted
  tables := h.tables
  filled := h.filled
  ahead := fun e he => h.ahead e (List.mem_cons_of_mem _ he)
  nodup := h.nodup.of_cons
  reached := by
    intro l row' type hrow' htype'
    rcases h.reached l row' type hrow' htype' with hl | hl
    · exact Or.inl hl
    · rw [List.map_cons, List.mem_cons] at hl
      rcases hl with rfl | hl
      · obtain ⟨-, hrow, -, heq⟩ := h.head
        rw [hrow] at hrow'
        cases hrow'
        rw [heq, htype] at htype'
        cases htype'
      · exact Or.inr hl

/-- **Step lemma.** The entity gets its snapshot, and its row is filled. -/
theorem FillProgress.step {type : EntityTypeDef} {row' : EntityRow} {rows : OrderedMap Uuid EntityRow}
    (h : FillProgress args active s₀ ((k, row) :: todo) s ks)
    (htype : active.2.definition.entityTypes.get? row.entityType = some type)
    (hrows : ∀ l, rows.get? l = if l = k then some row' else s.rows.get? l)
    (hfilled : FilledRow args type row row') :
    FillProgress args active s₀ todo
      { rows := rows
        tables := { s.tables with
          snapshots := s.tables.snapshots ++ [row.snapshot args.jobId k] } } (ks ++ [k]) := by
  obtain ⟨hk, hrow, -, heq⟩ := h.head
  have hnodup := h.nodup
  rw [List.map_cons, List.nodup_cons] at hnodup
  constructor
  case snapshotted =>
    refine ⟨?_, ?_, ?_, ?_⟩
    · rw [List.nodup_append]
      refine ⟨h.snapshotted.nodup, List.nodup_singleton k, fun l hl l' hl' heq => ?_⟩
      rw [List.mem_singleton.mp hl'] at heq
      exact hk (heq ▸ hl)
    · intro l hl
      rcases List.mem_append.mp hl with hl | hl
      · exact h.snapshotted.present l hl
      · rw [List.mem_singleton.mp hl]
        exact ⟨row, hrow⟩
    · rw [List.filterMap_append, ← List.append_assoc, ← h.snapshotted.snapshots]
      simp [hrow]
    · intro l hl
      rw [List.mem_append, List.mem_singleton, not_or] at hl
      dsimp only
      rw [hrows l, if_neg hl.2]
      exact h.snapshotted.kept l hl.1
  case tables =>
    dsimp only
    rw [h.tables]
  case filled =>
    intro l hl
    dsimp only
    rcases List.mem_append.mp hl with hmem | hmem
    · obtain ⟨old, type', new, hold, htype', hnew, hfilled'⟩ := h.filled l hmem
      have hlk : l ≠ k := by
        rintro rfl
        exact hk hmem
      exact ⟨old, type', new, hold, htype', by rw [hrows l, if_neg hlk, hnew], hfilled'⟩
    · rw [List.mem_singleton.mp hmem]
      exact ⟨row, type, row', hrow, by rw [heq, htype], by rw [hrows k, if_pos rfl], hfilled⟩
  case ahead =>
    intro e he
    obtain ⟨hek, herow, hbehind⟩ := h.ahead e (List.mem_cons_of_mem _ he)
    refine ⟨?_, herow, hbehind⟩
    rw [List.mem_append, List.mem_singleton, not_or]
    exact ⟨hek, fun heq => hnodup.1 (List.mem_map.mpr ⟨e, he, heq⟩)⟩
  case nodup => exact hnodup.2
  case reached =>
    intro l row'' type' hrow'' htype'
    rcases h.reached l row'' type' hrow'' htype' with hl | hl
    · exact Or.inl (List.mem_append_left _ hl)
    · rw [List.map_cons, List.mem_cons] at hl
      rcases hl with rfl | hl
      · exact Or.inl (List.mem_append_right _ (List.mem_singleton.mpr rfl))
      · exact Or.inr hl

theorem fillEntity_ends (h : ∃ ks, FillProgress args active s₀ ((k, row) :: todo) s ks) :
    (fillEntity args active.2 report (k, row)).ends (fun _ => False)
      (fun _ s' => ∃ ks, FillProgress args active s₀ todo s' ks) s := by
  obtain ⟨ks, h⟩ := h
  obtain ⟨-, -, hrow, -⟩ := h.head
  unfold fillEntity
  split
  · rename_i htype
    exact ⟨ks, h.skip htype⟩
  · rename_i type htype
    rw [Prog.ends_bind, Prog.ends_change]
    simp only [insertSnapshot, hrow]
    rw [if_neg (by decide)]
    split_ifs with hcount
    · have hfilled : FilledRow args type row row := by rw [FilledRow, if_pos hcount]
      refine ⟨ks ++ [k], h.step htype (fun l => ?_) hfilled⟩
      split_ifs with hl
      · rw [hl, hrow]
      · rfl
    · rw [Prog.ends_bind]
      refine (Prog.ends_update_some (x := row) _ ?_ ?_).mpr fun stamp => ?_
      · exact hrow
      · rfl
      · exact ⟨ks ++ [k], h.step htype (fun l => OrderedMap.get?_put _ k l _)
          (by rw [FilledRow, if_neg hcount]; exact ⟨stamp, rfl⟩)⟩

/-- **What a fill leaves.** -/
theorem fillDefaults_ends (args : FillDefaultsArgs) (s : EntityStore) :
    (fillDefaults args).ends (fun _ => True)
      (fun _ s' => ∃ active ks, getActiveSchema s.tables.schemas args.schemaName = .ok active ∧
        FillProgress args active s [] s' ks) s := by
  rw [fillDefaults, Prog.ends_bind, Prog.ends_read, Prog.ends_bind, Prog.ends_ofExcept]
  refine ⟨fun active hactive => ?_, fun _ _ => trivial⟩
  rw [Prog.ends_bind, Prog.ends_rows]
  refine Prog.ends_mono (Prog.ends_foldlM _ (fun todo _ s' => ∃ ks,
    FillProgress args active s todo s' ks) ?_ ⟨[], FillProgress.start args active s⟩) ?_
    (fun _ h => False.elim h)
  · rintro ⟨k, row⟩ todo report s' hprogress
    exact fillEntity_ends hprogress
  · rintro _ s' ⟨ks, hprogress⟩
    exact ⟨active, ks, hactive, hprogress⟩

end Fill

end Yorishiro.Entity
