import Yorishiro.Entity.Outcomes
import Yorishiro.Entity.Validity

/-!
# What a job does to the graph

`Moves` says once what the jobs that write entities can do to them: which row may follow which, that
snapshots are only added, and that proposals keep their entity and version. `update_moves`,
`delete_moves`, `fillDefaults_moves`, `undoJob_moves` and `confirm_moves` derive it for each job from
what the job ends in.
-/

set_option autoImplicit false

namespace Yorishiro.Transfer

open Yorishiro.Lib Yorishiro.Metaschema Yorishiro.Schema Yorishiro.Entity

/-- The version is stored, and active. -/
def ActiveVersion (schemas : Schemas) (id : Uuid) : Prop :=
  ∃ row, schemas.get? id = some row ∧ row.status = .active

/-- How the row of an entity may follow another. -/
inductive RowMove (cx : Context) (s s' : EntityStore) (k : Uuid) (old new : EntityRow) : Prop where
  | kept (hschema : new.schemaId = old.schemaId) (hdata : new.data = old.data)
  | edited (hschema : new.schemaId = old.schemaId)
      (hvalid : conforms cx.validator.env s.tables.schemas new.schemaId new.entityType new.data =
        true)
  -- a fill writes only what is behind the active version
  | filled (hschema : new.schemaId = old.schemaId) (version : SchemaRecord)
      (active : Uuid × SchemaRecord) (hversion : s.tables.schemas.get? old.schemaId = some version)
      (hactive : getActiveSchema s.tables.schemas version.name = .ok active)
      (hbehind : old.schemaId ≠ active.1)
  | restored (snap : EntitySnapshot) (hsnap : snap ∈ s.tables.snapshots)
      (hentity : snap.entityId = k) (hschema : new.schemaId = snap.schemaId)
      (hdata : new.data = snap.data)
  | confirmed (id : Uuid) (p : ProposalRecord) (hp : s.tables.proposals.get? id = some p)
      (hentity : p.entityId = k) (hschema : new.schemaId = p.schemaId)
      (hactive : ActiveVersion s.tables.schemas new.schemaId)
      (hvalid : conforms cx.validator.env s.tables.schemas new.schemaId new.entityType new.data =
        true)
      (htaken : ∃ snap ∈ s'.tables.snapshots, snap.entityId = k ∧ snap.schemaId = old.schemaId)

/-- What a job may do. The entities of `gone` are those it deletes. -/
structure Moves (cx : Context) (gone : Uuid → Prop) (s s' : EntityStore) : Prop where
  schemas : s'.tables.schemas = s.tables.schemas
  proposals : ∀ id p', s'.tables.proposals.get? id = some p' →
    ∃ p, s.tables.proposals.get? id = some p ∧ p'.entityId = p.entityId ∧ p'.schemaId = p.schemaId
  older : ∀ snap ∈ s.tables.snapshots, snap ∈ s'.tables.snapshots
  taken : ∀ snap ∈ s'.tables.snapshots, snap ∈ s.tables.snapshots ∨
    ∃ old, s.rows.get? snap.entityId = some old ∧ snap.schemaId = old.schemaId ∧
      snap.data = old.data
  rows : ∀ k new, s'.rows.get? k = some new → ∃ old, s.rows.get? k = some old ∧
    new.entityType = old.entityType ∧ RowMove cx s s' k old new
  present : ∀ k, ¬gone k → (s.rows.get? k).isSome → (s'.rows.get? k).isSome

section Jobs

variable {cx : Context} {gone : Uuid → Prop} {s s' : EntityStore}

/-- A job that leaves the other tables moves rows only. -/
theorem Moves.of_tables (htables : s'.tables = s.tables)
    (hrows : ∀ k new, s'.rows.get? k = some new → ∃ old, s.rows.get? k = some old ∧
      new.entityType = old.entityType ∧ RowMove cx s s' k old new)
    (hpresent : ∀ k, ¬gone k → (s.rows.get? k).isSome → (s'.rows.get? k).isSome) :
    Moves cx gone s s' where
  schemas := by rw [htables]
  proposals := fun id p' hp' => ⟨p', htables ▸ hp', rfl, rfl⟩
  older := fun snap hsnap => htables ▸ hsnap
  taken := fun snap hsnap => Or.inl (htables ▸ hsnap)
  rows := hrows
  present := hpresent

/-- The snapshots of a job are added to the others. -/
theorem Snapshotted.taken {jobId : Uuid} {ks : List Uuid} (h : Snapshotted jobId s s' ks) :
    (∀ snap ∈ s.tables.snapshots, snap ∈ s'.tables.snapshots) ∧
      ∀ snap ∈ s'.tables.snapshots, snap ∈ s.tables.snapshots ∨
        ∃ old, s.rows.get? snap.entityId = some old ∧ snap.schemaId = old.schemaId ∧
          snap.data = old.data := by
  refine ⟨fun snap hsnap => ?_, fun snap hsnap => ?_⟩
  · rw [h.snapshots]
    exact List.mem_append_left _ hsnap
  · rw [h.snapshots] at hsnap
    rcases List.mem_append.mp hsnap with hsnap | hsnap
    · exact Or.inl hsnap
    · obtain ⟨k, -, hk⟩ := List.mem_filterMap.mp hsnap
      obtain ⟨old, hold, rfl⟩ := Option.map_eq_some_iff.mp hk
      exact Or.inr ⟨old, hold, rfl, rfl⟩

/-! ## Edits -/

/-- An update writes data that has passed the checks of the version its entity is on. -/
theorem update_moves (cx : Context) (input : UpdateEntityInput) (s : EntityStore) :
    (update cx input).ends (fun _ => True) (fun _ s' => Moves cx (fun _ => False) s s') s := by
  rw [update, Prog.ends_bind, findById, Prog.ends_rows]
  split
  · trivial
  · rename_i k existing rest hfound
    -- what was found is the row that is written
    have hexisting : s.rows.get? input.id = some existing := by
      have hmem : (k, existing) ∈ s.rows.select (fun l _ => decide (l = input.id)) := by
        rw [hfound]
        exact List.mem_cons_self
      obtain ⟨hget, hk⟩ := OrderedMap.mem_select.mp hmem
      rw [← of_decide_eq_true hk]
      exact hget
    split
    · trivial
    · rw [Prog.ends_bind, Prog.ends_read, Prog.ends_bind, Prog.ends_ofExcept]
      refine ⟨fun _ hcheck => ?_, fun _ _ => trivial⟩
      have hconforms := conforms_of_checkData hcheck
      rw [Prog.ends_bind]
      cases hrow : (s.rows.get? input.id).filter fun row => input.expectedUpdatedAt.isNone ||
          decide (row.embeddingSyncToken = existing.embeddingSyncToken) with
      | none =>
          rw [Prog.ends_update_none _ hrow]
          trivial
      | some row =>
          obtain ⟨hget, hguard⟩ := Option.filter_eq_some_iff.mp hrow
          refine (Prog.ends_update_some (x := row) _ hget hguard).mpr fun stamp => ?_
          obtain rfl : existing = row := Option.some.inj (hexisting.symm.trans hget)
          refine .of_tables rfl (fun l new hnew => ?_) fun l _ hl => ?_
          · rw [OrderedMap.get?_put] at hnew
            split_ifs at hnew with hk
            · cases hnew
              exact ⟨existing, hk ▸ hexisting, rfl, .edited rfl hconforms⟩
            · exact ⟨new, hnew, rfl, .kept rfl rfl⟩
          · rw [OrderedMap.get?_put]
            split_ifs
            · rfl
            · exact hl

/-- A deletion removes its entity. -/
theorem delete_moves (cx : Context) (id : Uuid) (s : EntityStore) :
    (delete id).ends (fun _ => True) (fun _ s' => Moves cx (fun k => k = id) s s') s := by
  rw [delete, Prog.ends_bind]
  cases hrow : (s.rows.get? id).filter fun _ => true with
  | none =>
      rw [Prog.ends_update_none _ hrow]
      trivial
  | some row =>
      obtain ⟨hget, hguard⟩ := Option.filter_eq_some_iff.mp hrow
      refine (Prog.ends_update_some (x := row) _ hget hguard).mpr fun stamp => ?_
      refine .of_tables rfl (fun l new hnew => ?_) fun l hl hpresent => ?_
      · rw [OrderedMap.get?_put] at hnew
        split_ifs at hnew
        exact ⟨new, hnew, rfl, .kept rfl rfl⟩
      · rw [OrderedMap.get?_put, if_neg hl]
        exact hpresent

/-! ## Batches -/

/-- A fill takes its snapshots first and leaves each entity on its version. -/
theorem fillDefaults_moves (cx : Context) (args : FillDefaultsArgs) (s : EntityStore) :
    (fillDefaults args).ends (fun _ => True) (fun _ s' => Moves cx (fun _ => False) s s') s := by
  refine Prog.ends_mono (fillDefaults_ends args s) ?_ fun _ h => h
  rintro _ s' ⟨active, ks, hactive, hprogress⟩
  have htables := hprogress.tables
  obtain ⟨holder, htaken⟩ := Snapshotted.taken hprogress.snapshotted
  refine ⟨by rw [htables], fun id p' hp' => ?_, holder, htaken, fun k new hnew => ?_,
    fun k _ hk => ?_⟩
  · rw [htables] at hp'
    exact ⟨p', hp', rfl, rfl⟩
  · by_cases hk : k ∈ ks
    · obtain ⟨row, type, row', hrow, htype, hrow', hfilled⟩ := hprogress.filled k hk
      obtain rfl : row' = new := Option.some.inj (hrow'.symm.trans hnew)
      obtain ⟨hschema, -⟩ := Prod.mk.inj hfilled.pointer
      unfold fillType at htype
      split_ifs at htype with hbehind
      rw [isBehind, Bool.and_eq_true, decide_eq_true_iff] at hbehind
      obtain ⟨version, hversion, hname⟩ := (Option.any_eq_true _ _).mp hbehind.1
      rw [← of_decide_eq_true hname] at hactive
      have htypes : row'.entityType = row.entityType := by
        unfold FilledRow at hfilled
        split_ifs at hfilled
        · rw [hfilled]
        · obtain ⟨stamp, rfl⟩ := hfilled
          rfl
      exact ⟨row, hrow, htypes, .filled hschema version active hversion hactive hbehind.2⟩
    · rw [hprogress.snapshotted.kept k hk] at hnew
      exact ⟨new, hnew, rfl, .kept rfl rfl⟩
  · by_cases hks : k ∈ ks
    · obtain ⟨_, _, row', _, _, hrow', -⟩ := hprogress.filled k hks
      rw [hrow']
      rfl
    · rw [hprogress.snapshotted.kept k hks]
      exact hk

/-- Putting snapshots back changes a row to what the last of them holds. -/
theorem foldl_putBack_cases (k : Uuid) (row : EntityRow) (snaps : List EntitySnapshot) :
    (snaps.foldl (EntitySnapshot.putBack k) row).entityType = row.entityType ∧
      ((snaps.foldl (EntitySnapshot.putBack k) row).image = row.image ∨
        ∃ snap ∈ snaps, snap.entityId = k ∧
          (snaps.foldl (EntitySnapshot.putBack k) row).image = snap.image) := by
  induction snaps generalizing row with
  | nil => exact ⟨rfl, Or.inl rfl⟩
  | cons snap snaps ih =>
      rw [List.foldl_cons]
      obtain ⟨htype, himage⟩ := ih (snap.putBack k row)
      have hhead : (snap.putBack k row).entityType = row.entityType ∧
          ((snap.putBack k row).image = row.image ∨
            snap.entityId = k ∧ (snap.putBack k row).image = snap.image) := by
        unfold EntitySnapshot.putBack
        split_ifs with hk
        · exact ⟨rfl, Or.inr ⟨hk, rfl⟩⟩
        · exact ⟨rfl, Or.inl rfl⟩
      refine ⟨htype.trans hhead.1, ?_⟩
      rcases himage with himage | ⟨later, hlater, hk, himage⟩
      · rw [himage]
        rcases hhead.2 with hrow | ⟨hk, hsnap⟩
        · exact Or.inl hrow
        · exact Or.inr ⟨snap, List.mem_cons_self, hk, hsnap⟩
      · exact Or.inr ⟨later, List.mem_cons_of_mem snap hlater, hk, himage⟩

/-- An undo writes what a snapshot of the entity holds. -/
theorem undoJob_moves (cx : Context) (jobId : Uuid) (s : EntityStore) :
    (undoJob jobId).ends (fun _ => True) (fun _ s' => Moves cx (fun _ => False) s s') s := by
  refine Prog.ends_mono (undoJob_ends jobId s) ?_ fun _ _ => trivial
  rintro _ s' ⟨-, hback, -⟩
  refine .of_tables hback.tables (fun k new hnew => ?_) fun k _ hk => ?_
  · have hrows := hback.rows k
    rw [hnew, Option.map_some] at hrows
    obtain ⟨old, hold, hunstamped⟩ := Option.map_eq_some_iff.mp hrows.symm
    obtain ⟨htype, himage⟩ := foldl_putBack_cases k old (snapshotsOf s.tables jobId)
    generalize (snapshotsOf s.tables jobId).foldl (EntitySnapshot.putBack k) old = back
      at hunstamped htype himage
    -- the stamp is no part of the type or the image
    have htypes : back.entityType = new.entityType := (congrArg EntityRow.entityType hunstamped :)
    have hschema : back.schemaId = new.schemaId := (congrArg EntityRow.schemaId hunstamped :)
    have hdata : back.data = new.data := (congrArg EntityRow.data hunstamped :)
    refine ⟨old, hold, htypes.symm.trans htype, ?_⟩
    rcases himage with himage | ⟨snap, hsnap, hk, himage⟩
    · exact .kept (hschema.symm.trans (congrArg Image.schemaId himage))
        (hdata.symm.trans (congrArg Image.data himage))
    · exact .restored snap (List.mem_of_mem_filter hsnap) hk
        (hschema.symm.trans (congrArg Image.schemaId himage))
        (hdata.symm.trans (congrArg Image.data himage))
  · rw [hback.isSome k]
    exact hk

/-- A confirmation takes a snapshot of what it moves, and moves it to the version that was
proposed for, if the data is valid for it. -/
theorem confirm_moves (cx : Context) (jobId : Uuid) (updatedBy : Option Uuid) (s : EntityStore) :
    (confirm cx jobId updatedBy).ends (fun _ => True)
      (fun _ s' => Moves cx (fun _ => False) s s') s := by
  refine Prog.ends_mono (confirm_ends cx jobId updatedBy s) ?_ fun _ h => h
  rintro _ s' ⟨-, -, outcome, haccounts, -⟩
  obtain ⟨ks, hsnapshotted, hks⟩ := haccounts.snapshotted
  obtain ⟨holder, htaken⟩ := Snapshotted.taken hsnapshotted
  refine ⟨haccounts.schemas, fun id p' hp' => ?_, holder, htaken, fun k new hnew => ?_,
    fun k _ hk => ?_⟩
  · rw [haccounts.proposals, OrderedMap.get?_updateWhere] at hp'
    obtain ⟨p, hp, rfl⟩ := Option.map_eq_some_iff.mp hp'
    refine ⟨p, hp, ?_⟩
    split_ifs
    · exact ⟨rfl, rfl⟩
    · exact ⟨rfl, rfl⟩
  · by_cases hk : outcome k = some .confirmed
    · obtain ⟨old, new', hold, hnew', hconfirmed⟩ := haccounts.written k hk
      obtain rfl : new' = new := Option.some.inj (hnew'.symm.trans hnew)
      obtain ⟨target, t, htarget, -, hactive, -, htype, hvalid⟩ := hconfirmed.version
      obtain ⟨p, rest, hpending⟩ := List.exists_cons_of_ne_nil
        (haccounts.pending k (by rw [hk]; exact nofun))
      obtain ⟨⟨id, hp⟩, -, hentity⟩ := mem_pendingFor.mp (hpending ▸ List.mem_cons_self)
      have hschema := hconfirmed.first p (by rw [hpending]; rfl)
      refine ⟨old, hold, hconfirmed.type, .confirmed id p hp hentity hschema
        ⟨target, htarget, hactive⟩ (conforms_of_validateData htarget htype hvalid)
        ⟨old.snapshot jobId k, ?_, rfl, rfl⟩⟩
      rw [hsnapshotted.snapshots]
      refine List.mem_append_right _ (List.mem_filterMap.mpr ⟨k, (hks k).mpr hk, ?_⟩)
      rw [hold, Option.map_some]
    · rw [haccounts.kept k hk] at hnew
      exact ⟨new, hnew, rfl, .kept rfl rfl⟩
  · by_cases hconfirmed : outcome k = some .confirmed
    · obtain ⟨_, new, _, hnew, -⟩ := haccounts.written k hconfirmed
      rw [hnew]
      rfl
    · rw [haccounts.kept k hconfirmed]
      exact hk

/-! ## All jobs -/

/-- The job deletes the entity. -/
def Deletes : Job → Uuid → Prop
  | .delete id, k => k = id
  | _, _ => False

/-- **What a job does.** -/
theorem code_moves {job : Job} {stamps : Nat → Stamp} {done : Reply × EntityStore}
    (h : (code cx job).alone stamps 0 s = .ok done) : Moves cx (Deletes job) s done.2 := by
  have hsound : ∀ {ρ : Type} {p : EntityProg ρ} {f : ρ → Reply} {gone : Uuid → Prop},
      p.ends (fun _ => True) (fun _ s' => Moves cx gone s s') s →
      (p >>= fun r => pure (f r)).alone stamps 0 s = .ok done → Moves cx gone s done.2 := by
    intro ρ p f gone hends hrun
    rw [Prog.alone_bind_pure] at hrun
    obtain ⟨⟨r, store⟩, halone, rfl⟩ := Except.map_eq_ok hrun
    exact (Prog.ends_sound hends).1 r store halone
  cases job with
  | update input => exact hsound (update_moves cx input s) h
  | delete id => exact hsound (delete_moves cx id s) h
  | fillDefaults args => exact hsound (fillDefaults_moves cx args s) h
  | undoJob jobId => exact hsound (undoJob_moves cx jobId s) h
  | confirm jobId updatedBy => exact hsound (confirm_moves cx jobId updatedBy s) h

end Jobs

end Yorishiro.Transfer
