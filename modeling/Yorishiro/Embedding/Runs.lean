import Yorishiro.Embedding.Store
import Yorishiro.Lib.Transition

/-!
# Overlapping syncs and reindexes

Any number of `sync_embedding` and `reindex_workspace` runs on one workspace, one
statement or transaction at a time, between writes of entities and of the provider
key. A sync reads the entity, then the generation, then computes and publishes. A
reindex opens a generation and raises the gate, lists the entities, reads them, and
publishes.

`uniform_vectors`: whenever the gate is down, the stored vectors are those of the one
model the workspace is stamped with. The gate is what makes this inductive: no sync
publishes behind it, and whoever lowers it has replaced every vector.
-/

set_option autoImplicit false

namespace Yorishiro.Embedding

open Yorishiro.Lib Yorishiro.Lib.Transition Yorishiro.Schema

/-! ## Runs -/

/-- Where a run of `sync_embedding_for_snapshot` stands; `gone` when the entity was not there
to be read. -/
inductive SyncPhase where
  | started
  | read (snapshot : EmbeddingSnapshot)
  | ready (snapshot : EmbeddingSnapshot) (text : String) (revision : Int)
  | gone
  | ended (result : Except YorishiroError EmbeddingWriteOutcome)

/-- A run of `sync_embedding_for_snapshot`, from the read of the entity on. -/
structure SyncRun where
  provider : Provider
  entityId : Uuid
  phase : SyncPhase

/-- Where a run of `reindex_workspace` stands. -/
inductive ReindexPhase where
  | started
  | fenced (revision contentRevision : Int)
  | listed (revision contentRevision : Int) (ids : List Uuid)
  | loaded (revision contentRevision : Int) (ids : List Uuid)
      (records : OrderedMap Uuid EntityContent)
  | published
  | failed (failures : List ReindexFailure)
  | aborted (error : YorishiroError)

/-- A run of `reindex_workspace`, and whether an entity, the provider key or another reindex
has overtaken it since its first transaction. -/
structure ReindexRun where
  provider : Provider
  phase : ReindexPhase
  overtaken : Bool

/-- The database and the runs. -/
structure EmbeddingState where
  db : EmbeddingDb
  syncs : List SyncRun
  reindexes : List ReindexRun

/-- A new workspace of a tenant. -/
def EmbeddingState.new (tenant : TenantEmbedding) : EmbeddingState := ⟨.new tenant, [], []⟩

section Steps

variable (schemas : Schemas) (display : Json → String)

/-- The next step of a sync. -/
def syncNext (db : EmbeddingDb) (r : SyncRun) : EmbeddingDb × SyncPhase :=
  match r.phase with
  | .started =>
      match db.entities.get? r.entityId with
      | some content => (db, .read ⟨r.entityId, content⟩)
      | none => (db, .gone)
  | .read snapshot =>
      match textOf schemas display snapshot.content with
      | .ok (some text) => (db, .ready snapshot text db.workspace.revision)
      | .ok none => (db, .ended (.ok .noop))
      | .error e => (db, .ended (.error e))
  | .ready snapshot text revision =>
      match r.provider.embed 0 text with
      | .ok vector =>
          match publishSync db r.provider snapshot revision vector with
          | .ok (db', outcome) => (db', .ended (.ok outcome))
          | .error e => (db, .ended (.error e))
      | .error e => (db, .ended (.error e))
  | .gone => (db, .gone)
  | .ended result => (db, .ended result)

/-- The next step of a reindex. -/
def reindexNext (db : EmbeddingDb) (r : ReindexRun) : EmbeddingDb × ReindexPhase :=
  match r.phase with
  | .started =>
      match beginReindex db r.provider with
      | .ok (db', revision, contentRevision) => (db', .fenced revision contentRevision)
      | .error e => (db, .aborted e)
  | .fenced revision contentRevision => (db, .listed revision contentRevision db.entities.keys)
  | .listed revision contentRevision ids =>
      (db, .loaded revision contentRevision ids (db.entities.filter fun id _ => ids.contains id))
  | .loaded revision contentRevision ids records =>
      match prepare schemas display r.provider records 0 ids with
      | (prepared, []) =>
          match publishReindex db r.provider revision contentRevision prepared with
          | .ok db' => (db', .published)
          | .error e => (db, .aborted e)
      | (_, failure :: failures) => (db, .failed (failure :: failures))
  | .published => (db, .published)
  | .failed failures => (db, .failed failures)
  | .aborted e => (db, .aborted e)

end Steps

/-! ## All parties -/

/-- One transaction or statement of one party. -/
inductive EmbeddingLabel where
  | create (id : Uuid) (content : EntityContent)
  | update (id : Uuid) (content : EntityContent)
  | delete (id : Uuid)
  | setKey (key : EmbeddingKey)
  | clearKey
  | tenant (tenant : TenantEmbedding)
  | startSync (provider : Provider) (entityId : Uuid)
  | sync (k : Nat)
  | startReindex (provider : Provider)
  | reindex (k : Nat)

/-- The runs in progress when something they depend on changes. -/
def overtake (runs : List ReindexRun) : List ReindexRun :=
  runs.map fun r => { r with overtaken := true }

/-- The state after a transaction that changes the entities or the generation. -/
def EmbeddingState.changed (s : EmbeddingState) (db : EmbeddingDb) : EmbeddingState :=
  { s with db := db, reindexes := overtake s.reindexes }

section Steps

variable (schemas : Schemas) (display : Json → String)

/-- The state after the next step of the reindex `k`. Its first transaction overtakes the
others. -/
def EmbeddingState.reindexStep (s : EmbeddingState) (k : Nat) (r : ReindexRun) : EmbeddingState :=
  match r.phase, reindexNext schemas display s.db r with
  | .started, (db, .fenced revision contentRevision) =>
      { s with
        db := db
        reindexes := (overtake s.reindexes).set k ⟨r.provider, .fenced revision contentRevision, false⟩ }
  | _, (db, phase) => { s with db := db, reindexes := s.reindexes.set k { r with phase } }

/-- The state after a label; one that is not enabled changes nothing. -/
def embeddingStep (s : EmbeddingState) : EmbeddingLabel → EmbeddingState
  | .create id content =>
      if (s.db.entities.get? id).isSome then s else s.changed (insertEntity s.db id content)
  | .update id content =>
      if (s.db.entities.get? id).isSome then s.changed (updateEntity s.db id content) else s
  | .delete id =>
      if (s.db.entities.get? id).isSome then s.changed (deleteEntity s.db id) else s
  | .setKey key => s.changed (setKey s.db key)
  | .clearKey => if s.db.key.isSome then s.changed (clearKey s.db) else s
  | .tenant tenant => { s with db := { s.db with tenant } }
  | .startSync provider entityId =>
      { s with syncs := s.syncs ++ [⟨provider, entityId, .started⟩] }
  | .sync k =>
      match s.syncs[k]? with
      | some r =>
          { s with
            db := (syncNext schemas display s.db r).1
            syncs := s.syncs.set k { r with phase := (syncNext schemas display s.db r).2 } }
      | none => s
  | .startReindex provider =>
      { s with reindexes := s.reindexes ++ [⟨provider, .started, false⟩] }
  | .reindex k =>
      match s.reindexes[k]? with
      | some r => s.reindexStep schemas display k r
      | none => s

end Steps

/-! ## One vector space -/

/-- No vector, or all vectors of the model and width the workspace is stamped with. -/
def Uniform (db : EmbeddingDb) : Prop :=
  (∀ id, db.vectors.get? id = none) ∨
    ∃ model dimensions, db.workspace.model = some model ∧
      db.workspace.dimensions = some dimensions ∧
      ∀ id v, db.vectors.get? id = some v → (v.vector.length : Int) = dimensions ∧ v.model = model

/-- The invariant of the stored vectors. -/
structure SpaceInv (db : EmbeddingDb) : Prop where
  /-- Vectors belong to entities. -/
  owned : ∀ id v, db.vectors.get? id = some v → db.entities.get? id ≠ none
  /-- A stamp has a width the column can hold. -/
  stamped : ∀ model, db.workspace.model = some model →
    ∃ d : Nat, db.workspace.dimensions = some (d : Int) ∧ (d : Int) ≤ Queue.i32Max
  uniform : db.workspace.reindexing = false → Uniform db

theorem expectedDimensions_of_stamped {db : EmbeddingDb} {d : Nat} (p : Provider)
    (hd : db.workspace.dimensions = some (d : Int)) (hle : (d : Int) ≤ Queue.i32Max) :
    expectedDimensions db p = d := by
  have hmax : Queue.i32Max = 2147483647 := rfl
  simp only [expectedDimensions, hd, Option.some_or, Option.getD_some]
  omega

theorem spaceInv_new (tenant : TenantEmbedding) : SpaceInv (.new tenant) where
  owned := by
    intro id v hv
    cases hv
  stamped := by
    intro model hm
    cases hm
  uniform := fun _ => Or.inl fun _ => rfl

theorem spaceInv_insertEntity {db : EmbeddingDb} (h : SpaceInv db) (id : Uuid)
    (content : EntityContent) : SpaceInv (insertEntity db id content) where
  owned := by
    intro l v hv
    simp only [insertEntity, OrderedMap.get?_insert]
    split
    · simp
    · exact h.owned l v hv
  stamped := h.stamped
  uniform := h.uniform

theorem spaceInv_updateEntity {db : EmbeddingDb} (h : SpaceInv db) (id : Uuid)
    (content : EntityContent) : SpaceInv (updateEntity db id content) := by
  unfold updateEntity
  split
  · exact spaceInv_insertEntity h id content
  · exact h

theorem spaceInv_deleteEntity {db : EmbeddingDb} (h : SpaceInv db) (id : Uuid) :
    SpaceInv (deleteEntity db id) := by
  unfold deleteEntity
  split
  · refine ⟨?_, h.stamped, ?_⟩
    · intro l v hv
      obtain ⟨hl, hv⟩ := OrderedMap.get?_erase_eq_some hv
      simp only [OrderedMap.get?_erase, if_neg hl]
      exact h.owned l v hv
    · intro hgate
      rcases h.uniform hgate with hnone | ⟨m, d, hm, hd, hall⟩
      · refine Or.inl fun l => ?_
        simp only [OrderedMap.get?_erase, hnone l, ite_self]
      · refine Or.inr ⟨m, d, hm, hd, fun l v hv => hall l v ?_⟩
        exact (OrderedMap.get?_erase_eq_some hv).2
  · exact h

theorem spaceInv_touchKey {db : EmbeddingDb} (h : SpaceInv db) (times : Int)
    (key : Option EmbeddingKey) : SpaceInv (touchKey db times key) :=
  ⟨h.owned, h.stamped, fun hgate => by cases hgate⟩

theorem spaceInv_persists {db db' : EmbeddingDb} {p : Provider} {snapshot : EmbeddingSnapshot}
    {vector : Vector32} (h : SpaceInv db) (hgate : db.workspace.reindexing = false)
    (hwidth : vector.length = p.dimensions) (hp : Persists db db' p snapshot vector) :
    SpaceInv db' := by
  have hget : ∀ id v, db'.vectors.get? id = some v →
      (id = snapshot.id ∧ v = ⟨vector, p.modelName⟩) ∨ db.vectors.get? id = some v := by
    intro id v hv
    rw [hp.vectors, OrderedMap.get?_insert] at hv
    split_ifs at hv with hid
    · exact Or.inl ⟨hid, (Option.some.inj hv).symm⟩
    · exact Or.inr hv
  refine ⟨?_, ?_, fun _ => Or.inr ?_⟩
  · intro id v hv
    rw [hp.entities]
    rcases hget id v hv with ⟨rfl, -⟩ | hold
    · obtain ⟨content, hc, -⟩ := hp.current
      simp [hc]
    · exact h.owned id v hold
  · intro m hm
    rcases hp.stamp with ⟨-, hd, hfit⟩ | ⟨hsome, hd, -⟩
    · exact ⟨p.dimensions, hd, hfit⟩
    · rw [hd]
      exact h.stamped p.modelName hsome
  · rcases hp.stamp with ⟨hnone, hd, -⟩ | ⟨hsome, hd, hlen⟩
    -- an unstamped workspace has no vector yet
    · refine ⟨p.modelName, p.dimensions, hp.model, hd, ?_⟩
      intro id v hv
      rcases hget id v hv with ⟨-, rfl⟩ | hold
      · exact ⟨by simp [hwidth], rfl⟩
      · rcases h.uniform hgate with hempty | ⟨m, d, hm, -⟩
        · rw [hempty id] at hold
          cases hold
        · rw [hnone] at hm
          cases hm
    · obtain ⟨d, hdim, hle⟩ := h.stamped p.modelName hsome
      rw [expectedDimensions_of_stamped p hdim hle] at hlen
      refine ⟨p.modelName, d, hp.model, hd.trans hdim, ?_⟩
      intro id v hv
      rcases hget id v hv with ⟨-, rfl⟩ | hold
      · exact ⟨by simp [hlen], rfl⟩
      · rcases h.uniform hgate with hempty | ⟨m, d', hm, hd', hall⟩
        · rw [hempty id] at hold
          cases hold
        · obtain rfl : p.modelName = m := Option.some.inj (hsome.symm.trans hm)
          obtain rfl : (d : Int) = d' := Option.some.inj (hdim.symm.trans hd')
          exact hall id v hold

theorem spaceInv_publishes {db db' : EmbeddingDb} {p : Provider}
    {prepared : List (EmbeddingSnapshot × Option Vector32)} (h : SpaceInv db)
    (hwidth : ∀ e ∈ prepared, ∀ v, e.2 = some v → v.length = p.dimensions)
    (hp : Publishes db db' p prepared) : SpaceInv db' := by
  -- every vector of before belonged to an entity of the workspace and was cleared
  have hget : ∀ id v, db'.vectors.get? id = some v →
      ∃ e ∈ prepared, e.1.id = id ∧ e.2 = some v.vector ∧ v.model = p.modelName := by
    intro id v hv
    rw [hp.vectors id] at hv
    rcases Option.or_eq_some_iff.mp hv with hprep | ⟨-, hold⟩
    · obtain ⟨w, hw, rfl⟩ := Option.map_eq_some_iff.mp hprep
      obtain ⟨e, he, hsome⟩ := Option.bind_eq_some_iff.mp hw
      exact ⟨e, List.mem_of_find?_eq_some he, by simpa using List.find?_some he, hsome, rfl⟩
    · obtain ⟨hv₀, hgone⟩ := Option.filter_eq_some_iff.mp hold
      exact absurd (Option.isNone_iff_eq_none.mp hgone) (h.owned id v hv₀)
  refine ⟨?_, ?_, fun _ => Or.inr ?_⟩
  · intro id v hv
    obtain ⟨e, he, rfl, hsome, -⟩ := hget id v hv
    obtain ⟨content, hc, -⟩ := hp.current e he (by simp [hsome])
    rw [hp.entities, hc]
    simp
  · intro m hm
    rw [hp.workspace]
    exact ⟨p.dimensions, rfl, hp.fits⟩
  · rw [hp.workspace]
    refine ⟨p.modelName, p.dimensions, rfl, rfl, ?_⟩
    intro id v hv
    obtain ⟨e, he, -, hsome, hmodel⟩ := hget id v hv
    exact ⟨by rw [hwidth e he _ hsome], hmodel⟩

/-! ## Steps of runs -/

section Runs

variable (schemas : Schemas) (display : Json → String) {db : EmbeddingDb}

/-- A step of a sync changes the rows only by storing the vector it computed. -/
theorem syncNext_rows (db : EmbeddingDb) (r : SyncRun) :
    (∃ snapshot text revision vector, r.phase = .ready snapshot text revision ∧
        r.provider.embed 0 text = .ok vector ∧
        (syncNext schemas display db r).2 = .ended (.ok .persisted) ∧
        db.workspace.reindexing = false ∧
        Persists db (syncNext schemas display db r).1 r.provider snapshot vector) ∨
      (syncNext schemas display db r).1 = db := by
  obtain ⟨p, id, phase⟩ := r
  cases phase with
  | started =>
      refine Or.inr ?_
      simp only [syncNext]
      split <;> rfl
  | read snapshot =>
      refine Or.inr ?_
      simp only [syncNext]
      split <;> rfl
  | ready snapshot text revision =>
      simp only [syncNext]
      split
      · next vector hv =>
        split
        · next db' outcome hpub =>
          obtain ⟨-, hgate, ⟨rfl, hp⟩ | ⟨-, -, rfl⟩⟩ := publishSync_eq_ok hpub
          · exact Or.inl ⟨snapshot, text, revision, vector, rfl, hv, rfl, hgate, hp⟩
          · exact Or.inr rfl
        · exact Or.inr rfl
      · exact Or.inr rfl
  | gone => exact Or.inr rfl
  | ended result => exact Or.inr rfl

/-- A step of a sync keeps the counters, and one vector space. -/
theorem syncNext_db (h : SpaceInv db) (r : SyncRun) :
    SpaceInv (syncNext schemas display db r).1 ∧
      (syncNext schemas display db r).1.workspace.revision = db.workspace.revision ∧
      (syncNext schemas display db r).1.workspace.contentRevision = db.workspace.contentRevision := by
  rcases syncNext_rows schemas display db r with ⟨_, text, _, vector, -, hv, -, hgate, hp⟩ | heq
  · exact ⟨spaceInv_persists h hgate (r.provider.width 0 text vector hv) hp, hp.revision,
      hp.contentRevision⟩
  · rw [heq]
    exact ⟨h, rfl, rfl⟩

/-- The generation and the content revision a reindex works under. -/
def ReindexPhase.captured : ReindexPhase → Option (Int × Int)
  | .fenced revision contentRevision => some (revision, contentRevision)
  | .listed revision contentRevision _ => some (revision, contentRevision)
  | .loaded revision contentRevision _ _ => some (revision, contentRevision)
  | _ => none

/-- The candidates a reindex has listed. -/
def ReindexPhase.candidates : ReindexPhase → List Uuid
  | .listed _ _ ids => ids
  | .loaded _ _ ids _ => ids
  | _ => []

/-- The counters never fall behind a reindex, and are past one that was overtaken. -/
structure ReindexInv (db : EmbeddingDb) (r : ReindexRun) : Prop where
  nodup : r.phase.candidates.Nodup
  revision : ∀ c, r.phase.captured = some c → c.1 ≤ db.workspace.revision
  content : ∀ c, r.phase.captured = some c → c.2 ≤ db.workspace.contentRevision
  overtaken : ∀ c, r.phase.captured = some c → r.overtaken = true →
    c.1 < db.workspace.revision ∨ c.2 < db.workspace.contentRevision

theorem ReindexInv.of_counters {db' : EmbeddingDb} {r : ReindexRun} (h : ReindexInv db r)
    (hrev : db'.workspace.revision = db.workspace.revision)
    (hcont : db'.workspace.contentRevision = db.workspace.contentRevision) : ReindexInv db' r := by
  refine ⟨h.nodup, ?_, ?_, ?_⟩
  · rw [hrev]
    exact h.revision
  · rw [hcont]
    exact h.content
  · rw [hrev, hcont]
    exact h.overtaken

/-- A run that has not begun, or has ended, has captured nothing. -/
theorem ReindexInv.idle (db : EmbeddingDb) {r : ReindexRun} (hnone : r.phase.captured = none)
    (hnil : r.phase.candidates = []) : ReindexInv db r := by
  refine ⟨hnil ▸ List.nodup_nil, ?_, ?_, ?_⟩
  all_goals
    intro c hc
    rw [hnone] at hc
    cases hc

/-- Whatever overtakes a reindex moves one of the counters on. -/
theorem ReindexInv.overtake {db' : EmbeddingDb} {r : ReindexRun} (h : ReindexInv db r)
    (hrev : db.workspace.revision ≤ db'.workspace.revision)
    (hcont : db.workspace.contentRevision ≤ db'.workspace.contentRevision)
    (hmoved : db.workspace.revision < db'.workspace.revision ∨
      db.workspace.contentRevision < db'.workspace.contentRevision) :
    ReindexInv db' { r with overtaken := true } where
  nodup := h.nodup
  revision := fun c hc => (h.revision c hc).trans hrev
  content := fun c hc => (h.content c hc).trans hcont
  overtaken := by
    intro c hc _
    have h1 := h.revision c hc
    have h2 := h.content c hc
    omega

/-- What a step of a reindex that is not its first does. -/
theorem reindexNext_facts (h : SpaceInv db) {r : ReindexRun} (hr : ReindexInv db r)
    (hstarted : r.phase ≠ .started) :
    SpaceInv (reindexNext schemas display db r).1 ∧
      (reindexNext schemas display db r).1.workspace.revision = db.workspace.revision ∧
      (reindexNext schemas display db r).1.workspace.contentRevision =
        db.workspace.contentRevision ∧
      ReindexInv db { r with phase := (reindexNext schemas display db r).2 } ∧
      (reindexNext schemas display db r).1.entities = db.entities := by
  obtain ⟨p, phase, flag⟩ := r
  cases phase with
  | started => exact absurd rfl hstarted
  | fenced revision contentRevision =>
      exact ⟨h, rfl, rfl, ⟨OrderedMap.nodup_keys db.entities, hr.revision, hr.content, hr.overtaken⟩,
        rfl⟩
  | listed revision contentRevision ids =>
      exact ⟨h, rfl, rfl, ⟨hr.nodup, hr.revision, hr.content, hr.overtaken⟩, rfl⟩
  | loaded revision contentRevision ids records =>
      simp only [reindexNext]
      split
      · next prepared hprep =>
        obtain ⟨hids, hall⟩ := prepare_eq_nil hprep
        split
        · next db' hpub =>
          obtain ⟨-, -, hp⟩ := publishReindex_eq_ok (hids ▸ hr.nodup) hpub
          refine ⟨spaceInv_publishes h ?_ hp, ?_, ?_, ?_, hp.entities⟩
          · intro e he v hv
            obtain ⟨-, k, hk⟩ := hall e he
            rcases reindexEmbeddingForRecord_eq_ok hk with ⟨-, hnone⟩ | ⟨text, w, -, hw, -, hlen⟩
            · rw [hnone] at hv
              cases hv
            · obtain rfl : w = v := Option.some.inj (hw.symm.trans hv)
              exact hlen
          · rw [hp.workspace]
          · rw [hp.workspace]
          · exact .idle db rfl rfl
        · exact ⟨h, rfl, rfl, .idle db rfl rfl, rfl⟩
      · exact ⟨h, rfl, rfl, .idle db rfl rfl, rfl⟩
  | published => exact ⟨h, rfl, rfl, hr, rfl⟩
  | failed failures => exact ⟨h, rfl, rfl, hr, rfl⟩
  | aborted e => exact ⟨h, rfl, rfl, hr, rfl⟩

/-- A step of a reindex changes vectors only by publishing, and only when nothing has
overtaken it. -/
theorem reindexNext_vectors {r : ReindexRun} (hr : ReindexInv db r)
    (h : r.overtaken = true ∨ (reindexNext schemas display db r).2 ≠ .published) :
    (reindexNext schemas display db r).1.vectors = db.vectors := by
  obtain ⟨p, phase, flag⟩ := r
  cases phase with
  | started =>
      simp only [reindexNext]
      split
      · next db' revision contentRevision hbegin =>
        obtain ⟨rfl, -⟩ := beginReindex_eq_ok hbegin
        rfl
      · rfl
  | loaded revision contentRevision ids records =>
      simp only [reindexNext] at h ⊢
      split at h
      · next prepared hprep =>
        obtain ⟨hids, -⟩ := prepare_eq_nil hprep
        split at h
        · next db' hpub =>
          -- a publication that commits found both counters where the run had left them
          obtain ⟨hrev, hcont, -⟩ := publishReindex_eq_ok (hids ▸ hr.nodup) hpub
          rcases h with hflag | hphase
          · have hmoved := hr.overtaken (revision, contentRevision) rfl hflag
            simp only [hrev, hcont, lt_irrefl, or_self] at hmoved
          · exact absurd rfl hphase
        · rfl
      · rfl
  | fenced revision contentRevision => rfl
  | listed revision contentRevision ids => rfl
  | published => rfl
  | failed failures => rfl
  | aborted e => rfl

end Runs

/-! ## Every reachable state -/

/-- What holds in every reachable state. -/
structure EmbeddingInv (s : EmbeddingState) : Prop where
  space : SpaceInv s.db
  runs : ∀ r ∈ s.reindexes, ReindexInv s.db r

theorem embeddingInv_new (tenant : TenantEmbedding) : EmbeddingInv (.new tenant) where
  space := spaceInv_new tenant
  runs := fun _ hr => by cases hr

/-- A transaction that moves a counter on overtakes the runs in progress. -/
theorem EmbeddingInv.changed {s : EmbeddingState} (h : EmbeddingInv s) {db : EmbeddingDb}
    (hspace : SpaceInv db) (hrev : s.db.workspace.revision ≤ db.workspace.revision)
    (hcont : s.db.workspace.contentRevision ≤ db.workspace.contentRevision)
    (hmoved : s.db.workspace.revision < db.workspace.revision ∨
      s.db.workspace.contentRevision < db.workspace.contentRevision) :
    EmbeddingInv (s.changed db) where
  space := hspace
  runs := by
    intro r hr
    obtain ⟨r₀, hr₀, rfl⟩ := List.mem_map.mp hr
    exact (h.runs r₀ hr₀).overtake hrev hcont hmoved

section Reachable

variable (schemas : Schemas) (display : Json → String) {s : EmbeddingState}

theorem reindexStep_started (s : EmbeddingState) (k : Nat) (p : Provider) (flag : Bool) :
    (∃ e, s.reindexStep schemas display k ⟨p, .started, flag⟩ =
        { s with reindexes := s.reindexes.set k ⟨p, .aborted e, flag⟩ }) ∨
      ∃ db revision contentRevision, beginReindex s.db p = .ok (db, revision, contentRevision) ∧
        s.reindexStep schemas display k ⟨p, .started, flag⟩ =
          { s with
            db := db
            reindexes :=
              (overtake s.reindexes).set k ⟨p, .fenced revision contentRevision, false⟩ } := by
  cases hbegin : beginReindex s.db p with
  | error e =>
      refine Or.inl ⟨e, ?_⟩
      simp [EmbeddingState.reindexStep, reindexNext, hbegin]
  | ok x =>
      obtain ⟨db, revision, contentRevision⟩ := x
      refine Or.inr ⟨db, revision, contentRevision, rfl, ?_⟩
      simp [EmbeddingState.reindexStep, reindexNext, hbegin]

theorem reindexStep_later {k : Nat} {r : ReindexRun} (hstarted : r.phase ≠ .started) :
    s.reindexStep schemas display k r =
      { s with
        db := (reindexNext schemas display s.db r).1
        reindexes := s.reindexes.set k
          { r with phase := (reindexNext schemas display s.db r).2 } } := by
  obtain ⟨p, phase, flag⟩ := r
  cases phase with
  | started => exact absurd rfl hstarted
  | _ => rfl

theorem EmbeddingInv.reindexStep (h : EmbeddingInv s) {k : Nat} {r : ReindexRun}
    (hk : s.reindexes[k]? = some r) : EmbeddingInv (s.reindexStep schemas display k r) := by
  have hr := h.runs r (List.mem_of_getElem? hk)
  by_cases hstarted : r.phase = .started
  · obtain ⟨p, phase, flag⟩ := r
    subst hstarted
    rcases reindexStep_started schemas display s k p flag with ⟨e, heq⟩ | ⟨db, revision, contentRevision, hbegin, heq⟩
    · rw [heq]
      refine ⟨h.space, ?_⟩
      intro r hmem
      rcases List.mem_or_eq_of_mem_set hmem with hold | rfl
      · exact h.runs r hold
      · exact .idle s.db rfl rfl
    · rw [heq]
      obtain ⟨rfl, rfl, rfl, -⟩ := beginReindex_eq_ok hbegin
      refine ⟨⟨h.space.owned, h.space.stamped, fun hgate => by cases hgate⟩, ?_⟩
      intro r hmem
      rcases List.mem_or_eq_of_mem_set hmem with hold | rfl
      · obtain ⟨r₀, hr₀, rfl⟩ := List.mem_map.mp hold
        exact (h.runs r₀ hr₀).overtake (by simp) (by simp) (by simp)
      · refine ⟨List.nodup_nil, ?_, ?_, fun _ _ hflag => by cases hflag⟩
        · intro c hc
          cases hc
          exact le_refl _
        · intro c hc
          cases hc
          exact le_refl _
  · rw [reindexStep_later schemas display hstarted]
    obtain ⟨hspace, hrev, hcont, hrun, -⟩ :=
      reindexNext_facts schemas display h.space hr hstarted
    refine ⟨hspace, ?_⟩
    intro r' hmem
    rcases List.mem_or_eq_of_mem_set hmem with hold | rfl
    · exact (h.runs r' hold).of_counters hrev hcont
    · exact hrun.of_counters hrev hcont

/-- Every step keeps one vector space behind the gate. -/
theorem embeddingInv_step (h : EmbeddingInv s) (l : EmbeddingLabel) :
    EmbeddingInv (embeddingStep schemas display s l) := by
  cases l with
  | create id content =>
      simp only [embeddingStep]
      split
      · exact h
      · exact h.changed (spaceInv_insertEntity h.space id content) (le_refl _)
          (by simp [insertEntity]) (Or.inr (by simp [insertEntity]))
  | update id content =>
      simp only [embeddingStep]
      split
      · next hrow =>
        apply h.changed (spaceInv_updateEntity h.space id content)
        all_goals simp [updateEntity, insertEntity, hrow]
      · exact h
  | delete id =>
      simp only [embeddingStep]
      split
      · next hrow =>
        apply h.changed (spaceInv_deleteEntity h.space id)
        all_goals simp [deleteEntity, hrow]
      · exact h
  | setKey key =>
      have hpos : (0 : Int) < if s.db.key.isSome then 2 else 1 := by split <;> omega
      refine h.changed (spaceInv_touchKey h.space _ _) ?_ (le_refl _) (Or.inl ?_)
      · simp only [setKey, touchKey]
        omega
      · simp only [setKey, touchKey]
        omega
  | clearKey =>
      simp only [embeddingStep]
      split
      · next hkey =>
        simp only [clearKey, hkey, if_true]
        apply h.changed (spaceInv_touchKey h.space 1 none)
        all_goals simp [touchKey]
      · exact h
  | tenant tenant => exact ⟨⟨h.space.owned, h.space.stamped, h.space.uniform⟩, fun r hr =>
      (h.runs r hr).of_counters rfl rfl⟩
  | startSync p id => exact ⟨h.space, h.runs⟩
  | sync k =>
      simp only [embeddingStep]
      split
      · next r _ =>
        obtain ⟨hspace, hrev, hcont⟩ :=
          syncNext_db schemas display h.space r
        exact ⟨hspace, fun r' hr' => (h.runs r' hr').of_counters hrev hcont⟩
      · exact h
  | startReindex p =>
      refine ⟨h.space, ?_⟩
      intro r hr
      rcases List.mem_append.mp hr with hold | hnew
      · exact h.runs r hold
      · obtain rfl := List.mem_singleton.mp hnew
        exact .idle s.db rfl rfl
  | reindex k =>
      simp only [embeddingStep]
      split
      · next r hk => exact h.reindexStep schemas display hk
      · exact h

theorem embeddingInv_run (h : EmbeddingInv s) (labels : List EmbeddingLabel) :
    EmbeddingInv (run (embeddingStep schemas display) s labels) := by
  induction labels generalizing s with
  | nil => exact h
  | cons l labels ih => exact ih (embeddingInv_step schemas display h l)

end Reachable

/-- **One vector space.** Over every interleaving of syncs, reindexes, key changes and entity
writes: while the gate is down the vectors are those of the stamped model, and a reindex that
fails or was overtaken publishes none. -/
theorem uniform_vectors (schemas : Schemas) (display : Json → String) (tenant : TenantEmbedding)
    (labels : List EmbeddingLabel) :
    let s := run (embeddingStep schemas display) (.new tenant) labels
    (s.db.workspace.reindexing = false → Uniform s.db) ∧
      ∀ k r, s.reindexes[k]? = some r →
        r.overtaken = true ∨ (reindexNext schemas display s.db r).2 ≠ .published →
          (embeddingStep schemas display s (.reindex k)).db.vectors = s.db.vectors := by
  intro s
  have h : EmbeddingInv s := embeddingInv_run schemas display (embeddingInv_new tenant) labels
  refine ⟨h.space.uniform, ?_⟩
  intro k r hk hfails
  have hsame := reindexNext_vectors schemas display (h.runs r (List.mem_of_getElem? hk)) hfails
  have hstep : (embeddingStep schemas display s (.reindex k)).db =
      (reindexNext schemas display s.db r).1 := by
    simp only [embeddingStep, hk, EmbeddingState.reindexStep]
    split <;> simp_all
  rw [hstep, hsame]

end Yorishiro.Embedding
