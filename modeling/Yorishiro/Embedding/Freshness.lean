import Yorishiro.Embedding.Jobs
import Yorishiro.Embedding.Rebuild

/-!
# Freshness of stored vectors

A vector is computed long after the entity was written, and it is stored only if the
entity, the provider and the generation are still those it was computed for. What keeps
the vectors fresh is that someone is always still to compute: every entity is up to
date, or a job of it waits, or a delivery that is the job's current attempt has not
read the entity yet, or has read the version there is, under the generation there is.

Two writers break this. `fill_defaults`, `undo_job` and the confirmation of a proposal
write a version and record no job, and a sync that finds no text leaves the vector of
the version before. `embeddings_fresh` is about every run in which neither does harm.
-/

set_option autoImplicit false

namespace Yorishiro.Embedding

open Yorishiro.Lib Yorishiro.Lib.Transition Yorishiro.Schema
open Yorishiro.Queue (Instant Lifecycle Lifecycles LifecycleStatus Enqueue recordEnqueue startAt
  finish)

/-! ## Who is still to compute -/

section Definitions

variable {vectorOf : String → String → Vector32}

/-- The job will be delivered, or has failed. -/
def waits (row : Lifecycle) : Bool :=
  decide (row.status = .queued) || decide (row.status = .retrying) || decide (row.status = .failed)

/-- The snapshot is the version there is. -/
def currentSnapshot (db : EmbeddingDb) (snapshot : EmbeddingSnapshot) : Bool :=
  (db.entities.get? snapshot.id).any fun content =>
    decide (content.embeddingSyncToken = snapshot.content.embeddingSyncToken)

/-- The delivery has not read the entity yet, or is about to be reported as failed. -/
def unread (db : EmbeddingDb) : AttemptPhase vectorOf → Bool
  | .admitted => true
  | .syncing p .started => decide (p.workspaceRevision = some db.workspace.revision)
  | .decided (.error _) => true
  | _ => false

/-- The delivery has read the version there is, under the generation there is. -/
def readCurrent (db : EmbeddingDb) : AttemptPhase vectorOf → Bool
  | .syncing p (.read snapshot) =>
      decide (p.workspaceRevision = some db.workspace.revision) && currentSnapshot db snapshot
  | .syncing p (.ready snapshot _ revision) =>
      decide (p.workspaceRevision = some db.workspace.revision) &&
        decide (revision = db.workspace.revision) && currentSnapshot db snapshot
  | _ => false

/-- The current attempt of a running job is in one of the phases. -/
def attended (s : JobState vectorOf) (q : AttemptPhase vectorOf → Bool) (job : Uuid)
    (row : Lifecycle) : Bool :=
  decide (row.status = .running) && s.attempts.any fun a =>
    decide (a.job = job) && decide (a.attempt = row.attempt) && q a.phase

/-- Some job of the entity is such. -/
def someJob (s : JobState vectorOf) (id : Uuid) (q : Uuid → Lifecycle → Bool) : Bool :=
  s.entityOf.entries.any fun e => decide (e.2 = id) && (s.lifecycles.get? e.1).any (q e.1)

/-- A sync of the entity is still to read it. -/
def toCome (s : JobState vectorOf) (id : Uuid) : Bool :=
  someJob s id fun job row => waits row || attended s (unread s.db) job row

/-- A running sync of the entity has read the version there is. -/
def inProgress (s : JobState vectorOf) (id : Uuid) : Bool :=
  someJob s id (attended s (readCurrent s.db))

variable (schemas : Schemas) (display : Json → String)

/-- A delivery ends without a computation: it finds no provider, or its sync finds no text
for the version there is, and a vector. -/
def attemptLoses (db : EmbeddingDb) : AttemptPhase vectorOf → Resolution vectorOf → Bool
  | .admitted, .missing | .admitted, .disabled => !db.workspace.reindexing
  | .syncing _ (.read snapshot), _ =>
      decide (textOf schemas display snapshot.content = .ok none) && !db.workspace.reindexing &&
        currentSnapshot db snapshot && (db.vectors.get? snapshot.id).isSome
  | _, _ => false

/-- The step loses a computation: a delivery does, or an entity is rewritten without a job
while no sync of it is still to come, and its text changes or a sync of it is in progress. -/
def loses (s : JobState vectorOf) : JobLabel vectorOf → Bool
  | .rewrite id content =>
      !(s.db.workspace.reindexing || toCome s id || (!inProgress s id &&
        (s.db.entities.get? id).all fun old =>
          decide (textOf schemas display old = textOf schemas display content)))
  | .attempt k resolution =>
      (s.attempts[k]?).any fun a => attemptLoses schemas display s.db a.phase resolution
  | _ => false

end Definitions

/-! ## The invariant -/

section Invariant

variable {vectorOf : String → String → Vector32} (schemas : Schemas) (display : Json → String)

/-- The snapshot a sync works on. -/
def SyncPhase.snapshot? : SyncPhase → Option EmbeddingSnapshot
  | .read snapshot => some snapshot
  | .ready snapshot _ _ => some snapshot
  | _ => none

/-- What a sync in progress has read. -/
structure SyncCurrent (db : EmbeddingDb) (tokens : List String) (id : Uuid)
    (p : ModelProvider vectorOf) (phase : SyncPhase) : Prop where
  /-- The provider is assigned as long as its generation is the current one. -/
  provider : ∃ r, p.workspaceRevision = some r ∧ r ≤ db.workspace.revision ∧
    (r = db.workspace.revision → assigned db p.toProvider = true)
  /-- A version is known by its token. -/
  snapshot : ∀ snapshot, phase.snapshot? = some snapshot → snapshot.id = id ∧
    snapshot.content.embeddingSyncToken ∈ tokens ∧
    ∀ content, db.entities.get? snapshot.id = some content →
      content.embeddingSyncToken = snapshot.content.embeddingSyncToken → content = snapshot.content
  text : ∀ snapshot text revision, phase = .ready snapshot text revision →
    textOf schemas display snapshot.content = .ok (some text)

/-- A delivery belongs to a job, of which it is the current attempt or an earlier one. -/
structure AttemptInv (s : JobState vectorOf) (a : Attempt vectorOf) : Prop where
  row : ∃ row, s.lifecycles.get? a.job = some row ∧ a.attempt ≤ row.attempt
  entity : s.entityOf.get? a.job = some a.entityId
  sync : ∀ p phase, a.phase = .syncing p phase →
    SyncCurrent schemas display s.db s.tokens a.entityId p phase

/-- A reindex whose content revision is the current one has read the entities there are. -/
structure ReindexCurrent (vectorOf : String → String → Vector32) (db : EmbeddingDb)
    (r : ReindexRun) : Prop where
  computes : ∀ n text vector, r.provider.embed n text = .ok vector →
    vector = vectorOf r.provider.modelName text
  listed : ∀ revision ids, r.phase = .listed revision db.workspace.contentRevision ids →
    ids = db.entities.keys
  loaded : ∀ revision ids records,
    r.phase = .loaded revision db.workspace.contentRevision ids records →
      ids = db.entities.keys ∧ records = db.entities

/-- A job of the entity is still to compute its vector. -/
def Covered (s : JobState vectorOf) (id : Uuid) : Prop :=
  ∃ job row, s.entityOf.get? job = some id ∧ s.lifecycles.get? job = some row ∧
    (waits row = true ∨ row.status = .running ∧ ∃ a ∈ s.attempts, a.job = job ∧
      a.attempt = row.attempt ∧ (unread s.db a.phase = true ∨ readCurrent s.db a.phase = true))

/-- The invariant. -/
structure JobInv (s : JobState vectorOf) : Prop where
  space : EmbeddingInv s.space
  reindexes : ∀ r ∈ s.space.reindexes, ReindexCurrent vectorOf s.db r
  attempts : ∀ a ∈ s.attempts, AttemptInv schemas display s a
  distinct : (s.attempts.map fun a => (a.job, a.attempt)).Nodup
  known : ∀ job id, s.entityOf.get? job = some id → s.lifecycles.get? job ≠ none
  tokens : ∀ id content, s.db.entities.get? id = some content →
    content.embeddingSyncToken ∈ s.tokens
  covered : s.db.workspace.reindexing = false → ∀ id content,
    s.db.entities.get? id = some content →
      upToDate schemas display vectorOf s.db id content = true ∨ Covered s id

end Invariant

/-! ## Who covers an entity -/

section Cover

variable {vectorOf : String → String → Vector32} {s : JobState vectorOf} {id : Uuid}

theorem someJob_iff {q : Uuid → Lifecycle → Bool} :
    someJob s id q = true ↔ ∃ job row, s.entityOf.get? job = some id ∧
      s.lifecycles.get? job = some row ∧ q job row = true := by
  simp only [someJob, List.any_eq_true, Bool.and_eq_true, decide_eq_true_eq, Option.any_eq_true]
  constructor
  · rintro ⟨⟨job, e⟩, hmem, rfl, row, hrow, hq⟩
    exact ⟨job, row, (OrderedMap.mem_entries_iff _ _ _).mp hmem, hrow, hq⟩
  · rintro ⟨job, row, hjob, hrow, hq⟩
    exact ⟨(job, id), (OrderedMap.mem_entries_iff _ _ _).mpr hjob, rfl, row, hrow, hq⟩

theorem attended_iff {q : AttemptPhase vectorOf → Bool} {job : Uuid} {row : Lifecycle} :
    attended s q job row = true ↔ row.status = .running ∧ ∃ a ∈ s.attempts, a.job = job ∧
      a.attempt = row.attempt ∧ q a.phase = true := by
  simp [attended, and_assoc]

theorem covered_of_toCome (h : toCome s id = true) : Covered s id := by
  obtain ⟨job, row, hjob, hrow, hq⟩ := someJob_iff.mp h
  refine ⟨job, row, hjob, hrow, ?_⟩
  rcases Bool.or_eq_true_iff.mp hq with hwaits | hrun
  · exact Or.inl hwaits
  · obtain ⟨hrunning, a, ha, haj, hak, hunread⟩ := attended_iff.mp hrun
    exact Or.inr ⟨hrunning, a, ha, haj, hak, Or.inl hunread⟩

theorem toCome_or_inProgress (h : Covered s id) : toCome s id = true ∨ inProgress s id = true := by
  obtain ⟨job, row, hjob, hrow, hwaits | ⟨hrunning, a, ha, haj, hak, hunread | hread⟩⟩ := h
  · exact Or.inl (someJob_iff.mpr ⟨job, row, hjob, hrow, by simp [hwaits]⟩)
  · refine Or.inl (someJob_iff.mpr ⟨job, row, hjob, hrow, ?_⟩)
    rw [Bool.or_eq_true_iff]
    exact Or.inr (attended_iff.mpr ⟨hrunning, a, ha, haj, hak, hunread⟩)
  · exact Or.inr (someJob_iff.mpr
      ⟨job, row, hjob, hrow, attended_iff.mpr ⟨hrunning, a, ha, haj, hak, hread⟩⟩)

theorem Covered.pending (h : Covered s id) : Pending s id := by
  obtain ⟨job, row, hjob, hrow, hwaits | ⟨hrunning, -⟩⟩ := h
  · refine ⟨job, row, hjob, hrow, ?_⟩
    simp only [waits, Bool.or_eq_true, decide_eq_true_eq] at hwaits
    rcases hwaits with (hq | hr) | hf
    · exact Or.inl hq
    · exact Or.inr (Or.inr (Or.inl hr))
    · exact Or.inr (Or.inr (Or.inr hf))
  · exact ⟨job, row, hjob, hrow, Or.inr (Or.inl hrunning)⟩

theorem unread_congr {db db' : EmbeddingDb}
    (hrev : db'.workspace.revision = db.workspace.revision) (phase : AttemptPhase vectorOf) :
    unread db' phase = unread db phase := by
  unfold unread
  rw [hrev]

theorem readCurrent_congr {db db' : EmbeddingDb} {phase : AttemptPhase vectorOf}
    (hrev : db'.workspace.revision = db.workspace.revision)
    (hcurrent : ∀ p sync snapshot, phase = .syncing p sync → sync.snapshot? = some snapshot →
      currentSnapshot db' snapshot = currentSnapshot db snapshot) :
    readCurrent db' phase = readCurrent db phase := by
  cases phase with
  | syncing p sync =>
      cases sync with
      | read snapshot => simp only [readCurrent, hrev, hcurrent p _ snapshot rfl rfl]
      | ready snapshot text revision =>
          simp only [readCurrent, hrev, hcurrent p _ snapshot rfl rfl]
      | _ => rfl
  | _ => rfl

/-- What is still to read an entity does not depend on the entity. -/
theorem toCome_of_revision {db : EmbeddingDb} {tokens : List String}
    {reindexes : List ReindexRun} {syncs : List SyncRun}
    (hrev : db.workspace.revision = s.db.workspace.revision) (h : toCome s id = true) :
    toCome { s with space := ⟨db, syncs, reindexes⟩, tokens := tokens } id = true := by
  have hunread : ∀ phase : AttemptPhase vectorOf, unread db phase = unread s.db phase :=
    unread_congr hrev
  obtain ⟨job, row, hjob, hrow, hq⟩ := someJob_iff.mp h
  refine someJob_iff.mpr ⟨job, row, hjob, hrow, ?_⟩
  simpa only [attended, JobState.db, hunread] using hq

end Cover

/-! ## Runs in progress while the rows change -/

/-- What a transaction on the rows can do, as far as runs in progress depend on it. -/
structure Moves (db db' : EmbeddingDb) (tokens : List String) : Prop where
  revision : db.workspace.revision ≤ db'.workspace.revision
  key : db'.workspace.revision = db.workspace.revision → db'.key = db.key
  content : db'.workspace.contentRevision = db.workspace.contentRevision ∧
      db'.entities = db.entities ∨
    db.workspace.contentRevision < db'.workspace.contentRevision
  /-- A version with a token drawn before was there before. -/
  entities : ∀ id content, db'.entities.get? id = some content →
    content.embeddingSyncToken ∈ tokens → db.entities.get? id = some content

section Moves

variable {vectorOf : String → String → Vector32} {schemas : Schemas} {display : Json → String}
  {db db' : EmbeddingDb} {tokens tokens' : List String}

theorem Moves.of_entities (hrev : db'.workspace.revision = db.workspace.revision)
    (hkey : db'.key = db.key)
    (hcont : db'.workspace.contentRevision = db.workspace.contentRevision)
    (hent : db'.entities = db.entities) : Moves db db' tokens where
  revision := hrev.ge
  key := fun _ => hkey
  content := Or.inl ⟨hcont, hent⟩
  entities := fun _ _ hrow _ => hent ▸ hrow

theorem SyncCurrent.moves {id : Uuid} {p : ModelProvider vectorOf} {phase : SyncPhase}
    (h : SyncCurrent schemas display db tokens id p phase) (hm : Moves db db' tokens)
    (hsub : tokens ⊆ tokens') : SyncCurrent schemas display db' tokens' id p phase where
  provider := by
    obtain ⟨r, hr, hle, hassigned⟩ := h.provider
    refine ⟨r, hr, hle.trans hm.revision, ?_⟩
    intro heq
    have hsame : db'.workspace.revision = db.workspace.revision :=
      le_antisymm (heq ▸ hle) hm.revision
    have hold := hassigned (heq.trans hsame)
    rw [assigned] at hold ⊢
    rw [hm.key hsame, hsame]
    exact hold
  snapshot := by
    intro snapshot hs
    obtain ⟨hid, htoken, hversion⟩ := h.snapshot snapshot hs
    refine ⟨hid, hsub htoken, ?_⟩
    intro content hrow heq
    exact hversion content (hm.entities _ content hrow (heq ▸ htoken)) heq
  text := h.text

theorem ReindexCurrent.moves {r : ReindexRun} (h : ReindexCurrent vectorOf db r)
    (hr : ReindexInv db r) (hm : Moves db db' tokens) : ReindexCurrent vectorOf db' r where
  computes := h.computes
  listed := by
    intro revision ids hphase
    rcases hm.content with ⟨hcont, hent⟩ | hlt
    · rw [hcont] at hphase
      rw [hent]
      exact h.listed revision ids hphase
    · have hle := hr.content _ (by rw [hphase]; rfl)
      exact absurd hle (not_le.mpr hlt)
  loaded := by
    intro revision ids records hphase
    rcases hm.content with ⟨hcont, hent⟩ | hlt
    · rw [hcont] at hphase
      rw [hent]
      exact h.loaded revision ids records hphase
    · have hle := hr.content _ (by rw [hphase]; rfl)
      exact absurd hle (not_le.mpr hlt)

variable {s : JobState vectorOf}

/-- An entity that is as it was is covered as it was. -/
theorem Covered.of_rows {id : Uuid} (h : Covered s id)
    (hattempts : ∀ a ∈ s.attempts, AttemptInv schemas display s a) {space : EmbeddingState}
    (hrev : space.db.workspace.revision = s.db.workspace.revision)
    (hent : space.db.entities.get? id = s.db.entities.get? id) :
    Covered { s with space := space, tokens := tokens' } id := by
  obtain ⟨job, row, hjob, hrow, hwaits | ⟨hrunning, a, ha, haj, hak, hphase⟩⟩ := h
  · exact ⟨job, row, hjob, hrow, Or.inl hwaits⟩
  · refine ⟨job, row, hjob, hrow, Or.inr ⟨hrunning, a, ha, haj, hak, ?_⟩⟩
    have hinv := hattempts a ha
    obtain rfl : a.entityId = id := by
      have hentity := hinv.entity
      rw [haj, hjob] at hentity
      exact (Option.some.inj hentity).symm
    rcases hphase with hunread | hread
    · exact Or.inl ((unread_congr hrev a.phase).trans hunread)
    · refine Or.inr ((readCurrent_congr hrev ?_).trans hread)
      intro p phase snapshot hp hs
      obtain ⟨hid, -⟩ := (hinv.sync p phase hp).snapshot snapshot hs
      rw [currentSnapshot, currentSnapshot, hid]
      exact congrArg _ hent

/-- A transaction on the rows keeps the invariant if it keeps every entity covered. -/
theorem JobInv.of_rows (h : JobInv schemas display s) {space : EmbeddingState}
    (hspace : EmbeddingInv space) (hm : Moves s.db space.db s.tokens) (hsub : s.tokens ⊆ tokens')
    (hreindexes : ∀ r ∈ space.reindexes, ReindexCurrent vectorOf space.db r)
    (htokens : ∀ id content, space.db.entities.get? id = some content →
      content.embeddingSyncToken ∈ tokens')
    (hcovered : space.db.workspace.reindexing = false → ∀ id content,
      space.db.entities.get? id = some content →
        upToDate schemas display vectorOf space.db id content = true ∨
          Covered { s with space := space, tokens := tokens' } id) :
    JobInv schemas display { s with space := space, tokens := tokens' } where
  space := hspace
  reindexes := hreindexes
  attempts := by
    intro a ha
    obtain ⟨hrow, hentity, hsync⟩ := h.attempts a ha
    exact ⟨hrow, hentity, fun p phase hp => (hsync p phase hp).moves hm hsub⟩
  distinct := h.distinct
  known := h.known
  tokens := htokens
  covered := hcovered

end Moves

/-! ## Writers -/

section Writers

variable {vectorOf : String → String → Vector32} {schemas : Schemas} {display : Json → String}
  {s : JobState vectorOf} {tokens : List String}

theorem moves_insertEntity {db : EmbeddingDb} {content : EntityContent} (id : Uuid)
    (htoken : content.embeddingSyncToken ∉ tokens) :
    Moves db (insertEntity db id content) tokens where
  revision := le_refl _
  key := fun _ => rfl
  content := Or.inr (by simp [insertEntity])
  entities := by
    intro l c hrow hmem
    simp only [insertEntity] at hrow
    rcases OrderedMap.get?_insert_eq_some hrow with ⟨-, rfl⟩ | ⟨-, hold⟩
    · exact absurd hmem htoken
    · exact hold

theorem moves_deleteEntity (db : EmbeddingDb) (id : Uuid) (tokens : List String) :
    Moves db (deleteEntity db id) tokens := by
  unfold deleteEntity
  split
  · refine ⟨le_refl _, fun _ => rfl, Or.inr (by simp), ?_⟩
    intro l c hrow _
    exact (OrderedMap.get?_erase_eq_some hrow).2
  · exact Moves.of_entities rfl rfl rfl rfl

/-- Reindexes in progress see that the entities have changed. -/
theorem JobInv.reindexes_changed (h : JobInv schemas display s) {db : EmbeddingDb}
    (hm : Moves s.db db tokens) :
    ∀ r ∈ (s.space.changed db).reindexes, ReindexCurrent vectorOf db r := by
  intro r hr
  obtain ⟨r₀, hr₀, rfl⟩ := List.mem_map.mp hr
  obtain ⟨hcomputes, hlisted, hloaded⟩ := (h.reindexes r₀ hr₀).moves (h.space.runs r₀ hr₀) hm
  exact ⟨hcomputes, hlisted, hloaded⟩

/-- A version is written; its entity must be covered afterwards. -/
theorem JobInv.written (h : JobInv schemas display s) {id : Uuid} {content : EntityContent}
    (htoken : content.embeddingSyncToken ∉ s.tokens)
    (hspace : EmbeddingInv (s.space.changed (insertEntity s.db id content)))
    (hself : s.db.workspace.reindexing = false →
      upToDate schemas display vectorOf (insertEntity s.db id content) id content = true ∨
        Covered { s with
          space := s.space.changed (insertEntity s.db id content)
          tokens := content.embeddingSyncToken :: s.tokens } id) :
    JobInv schemas display { s with
      space := s.space.changed (insertEntity s.db id content)
      tokens := content.embeddingSyncToken :: s.tokens } := by
  have hm : Moves s.db (insertEntity s.db id content) s.tokens := moves_insertEntity id htoken
  apply h.of_rows hspace hm (List.subset_cons_self _ _) (h.reindexes_changed hm)
  · intro l c hrow
    rcases OrderedMap.get?_insert_eq_some hrow with ⟨-, rfl⟩ | ⟨-, hold⟩
    · exact List.mem_cons_self
    · exact List.mem_cons_of_mem _ (h.tokens l c hold)
  · intro hgate l c hrow
    rcases OrderedMap.get?_insert_eq_some hrow with ⟨rfl, rfl⟩ | ⟨hl, hold⟩
    · exact hself hgate
    · rcases h.covered hgate l c hold with hfresh | hcov
      · exact Or.inl hfresh
      · exact Or.inr (hcov.of_rows h.attempts rfl (by simp [EmbeddingState.changed, insertEntity, hl, JobState.db]))

theorem upToDate_congr {db db' : EmbeddingDb} {id : Uuid} {content : EntityContent}
    (hvector : db'.vectors.get? id = db.vectors.get? id)
    (hmodel : db'.workspace.model = db.workspace.model) :
    upToDate schemas display vectorOf db' id content =
      upToDate schemas display vectorOf db id content := by
  unfold upToDate
  rw [hvector, hmodel]

/-- An entity is deleted. -/
theorem JobInv.deleted (h : JobInv schemas display s) {id : Uuid}
    (hrow : (s.db.entities.get? id).isSome = true)
    (hspace : EmbeddingInv (s.space.changed (deleteEntity s.db id))) :
    JobInv schemas display { s with space := s.space.changed (deleteEntity s.db id) } := by
  have hm := moves_deleteEntity s.db id s.tokens
  have hent : (deleteEntity s.db id).entities = s.db.entities.erase id := by
    simp [deleteEntity, hrow]
  have hvec : (deleteEntity s.db id).vectors = s.db.vectors.erase id := by
    simp [deleteEntity, hrow]
  have hws : (deleteEntity s.db id).workspace.reindexing = s.db.workspace.reindexing ∧
      (deleteEntity s.db id).workspace.revision = s.db.workspace.revision ∧
      (deleteEntity s.db id).workspace.model = s.db.workspace.model := by
    simp [deleteEntity, hrow]
  apply h.of_rows hspace hm (List.Subset.refl _) (h.reindexes_changed hm)
  · intro l c hc
    simp only [EmbeddingState.changed, hent] at hc
    exact h.tokens l c (OrderedMap.get?_erase_eq_some hc).2
  · intro hgate l c hc
    simp only [EmbeddingState.changed, hent, hws.1] at hc hgate
    obtain ⟨hl, hold⟩ := OrderedMap.get?_erase_eq_some hc
    rcases h.covered hgate l c hold with hfresh | hcov
    · refine Or.inl ((upToDate_congr ?_ hws.2.2).trans hfresh)
      simp [hvec, hl]
    · refine Or.inr (hcov.of_rows h.attempts hws.2.1 ?_)
      simp [EmbeddingState.changed, hent, hl]

/-- A write of the provider key, or of the first transaction of a reindex, raises the gate. -/
theorem JobInv.gated (h : JobInv schemas display s) {space : EmbeddingState}
    (hspace : EmbeddingInv space) (hm : Moves s.db space.db s.tokens)
    (hent : space.db.entities = s.db.entities)
    (hreindexes : ∀ r ∈ space.reindexes, ReindexCurrent vectorOf space.db r)
    (hgate : space.db.workspace.reindexing = true) :
    JobInv schemas display { s with space := space } := by
  apply h.of_rows hspace hm (List.Subset.refl _) hreindexes
  · intro id content hrow
    exact h.tokens id content (hent ▸ hrow)
  · intro hdown
    rw [hgate] at hdown
    cases hdown

/-- A job is recorded for an entity. -/
theorem JobInv.enqueued (h : JobInv schemas display s) (id : Uuid) {job : Enqueue} {now : Instant}
    {t : Lifecycles} (ht : recordEnqueue s.lifecycles (syncJob job) now = .ok t) :
    JobInv schemas display { s with lifecycles := t, entityOf := s.entityOf.insert job.id id } ∧
      toCome { s with lifecycles := t, entityOf := s.entityOf.insert job.id id } id = true := by
  obtain ⟨hfresh, hrows⟩ := Table.insert_eq_ok ht
  have hget : ∀ l, t.get? l = if l = job.id then some ((syncJob job).row now)
      else s.lifecycles.get? l := by
    intro l
    rw [Table.get?, hrows, OrderedMap.get?_insert]
    rfl
  -- the id of the job is new, so no other job is touched
  have hother : ∀ l row, s.lifecycles.get? l = some row →
      l ≠ job.id ∧ t.get? l = some row := by
    intro l row hrow
    have hne : l ≠ job.id := by
      rintro rfl
      rw [show s.lifecycles.get? job.id = none from hfresh] at hrow
      cases hrow
    exact ⟨hne, by rw [hget, if_neg hne, hrow]⟩
  have hentity : ∀ l e, s.entityOf.get? l = some e →
      (s.entityOf.insert job.id id).get? l = some e := by
    intro l e hl
    have hne : l ≠ job.id := by
      rintro rfl
      exact h.known job.id e hl hfresh
    simp [hne, hl]
  refine ⟨⟨h.space, h.reindexes, ?_, h.distinct, ?_, h.tokens, ?_⟩, ?_⟩
  · intro a ha
    obtain ⟨⟨row, hrow, hle⟩, he, hsync⟩ := h.attempts a ha
    exact ⟨⟨row, (hother _ row hrow).2, hle⟩, hentity _ _ he, hsync⟩
  · intro l e hl
    rcases OrderedMap.get?_insert_eq_some hl with ⟨rfl, rfl⟩ | ⟨hne, hold⟩
    · simp [hget]
    · rw [hget, if_neg hne]
      exact h.known l e hold
  · intro hgate l content hrow
    rcases h.covered hgate l content hrow with hup | ⟨j, row, hj, hjrow, hphase⟩
    · exact Or.inl hup
    · exact Or.inr ⟨j, row, hentity j l hj, (hother j row hjrow).2, hphase⟩
  · refine someJob_iff.mpr ⟨job.id, (syncJob job).row now, by simp, ?_, ?_⟩
    · simp [hget]
    · rfl

end Writers

/-! ## Conflicts -/

section Conflicts

variable {α β : Type}

/-- A computation that does not end in a conflict. -/
def Unconflicted (x : Except YorishiroError α) : Prop :=
  ∀ message, x ≠ .error (.conflict message)

theorem Unconflicted.ok (a : α) : Unconflicted (.ok a) := by
  intro message h
  cases h

theorem Unconflicted.bind {x : Except YorishiroError α} {f : α → Except YorishiroError β}
    (hx : Unconflicted x) (hf : ∀ a, x = .ok a → Unconflicted (f a)) : Unconflicted (x >>= f) := by
  cases hr : x with
  | error e =>
      intro message h
      exact hx message (hr.trans (congrArg _ (Except.error.inj h)))
  | ok a => exact hf a hr

theorem Unconflicted.map {x : Except YorishiroError α} (hx : Unconflicted x) (f : α → β) :
    Unconflicted (x.map f) := by
  cases hr : x with
  | error e =>
      intro message h
      exact hx message (hr.trans (congrArg _ (Except.error.inj h)))
  | ok a => exact .ok (f a)

/-- A conflict is what makes a delivery superseded. -/
theorem classifyEmbeddingError_of_unconflicted {x : Except YorishiroError α} {e : YorishiroError}
    (hx : Unconflicted x) (h : x = .error e) : classifyEmbeddingError e = .error e := by
  cases e with
  | conflict message => exact absurd h (hx message)
  | _ => rfl

end Conflicts

/-! ## Deliveries -/

section Attempts

variable {vectorOf : String → String → Vector32} {schemas : Schemas} {display : Json → String}
  {db : EmbeddingDb}

theorem unconflicted_textOf (content : EntityContent) :
    Unconflicted (textOf schemas display content) := by
  apply Unconflicted.bind
  · intro message h
    unfold getById at h
    split at h <;> cases h
  · intro schema _
    apply Unconflicted.bind
    · intro message h
      unfold Entity.resolveEntityType at h
      split at h <;> cases h
    · intro t _
      exact .ok _

theorem unconflicted_validateVector (v : Vector32) (n : Nat) :
    Unconflicted (validateVector v n) := by
  intro message h
  unfold validateVector at h
  split at h <;> cases h

theorem unconflicted_embedAndWrite {model : String} {snapshot : EmbeddingSnapshot}
    {vector : Vector32} (hcurrent : currentSnapshot db snapshot = true) :
    Unconflicted (embedAndWrite db model snapshot vector) := by
  apply Unconflicted.bind (unconflicted_validateVector _ _)
  intro _ _
  obtain ⟨content, hrow, htoken⟩ := (Option.any_eq_true _ _).mp hcurrent
  simp only [hrow, of_decide_eq_true htoken, if_true]
  exact .ok _

theorem unconflicted_stampFirst (p : Provider) (written : Bool) :
    Unconflicted (stampFirst db p written) := by
  unfold stampFirst
  split_ifs
  · apply Unconflicted.map
    intro message h
    unfold dimensionsColumn at h
    split at h <;> cases h
  · exact .ok _
  · exact .ok _

/-- **No false conflict.** The publication of a vector for the version there is, by the
provider that is assigned and under the generation there is, is not refused as superseded. -/
theorem unconflicted_publishSync {p : Provider} {snapshot : EmbeddingSnapshot} {vector : Vector32}
    (hgate : db.workspace.reindexing = false) (hassigned : assigned db p = true)
    (hcurrent : currentSnapshot db snapshot = true) :
    Unconflicted (publishSync db p snapshot db.workspace.revision vector) := by
  simp only [assigned, Bool.and_eq_true, decide_eq_true_eq] at hassigned
  obtain ⟨hrev, hkey⟩ := hassigned
  have hassignment : checkEmbeddingAssignment db p = .ok () := by
    cases hk : db.key with
    | none => simp [checkEmbeddingAssignment, hrev, hk]
    | some key =>
        rw [hk] at hkey
        simp only [Option.all_some, Bool.and_eq_true, decide_eq_true_eq] at hkey
        simp [checkEmbeddingAssignment, hrev, hk, hkey.1, hkey.2]
  apply Unconflicted.bind
  · apply Unconflicted.bind
    · intro message h
      unfold requireActive at h
      split at h <;> cases h
    · intro _ _
      rw [if_pos rfl]
      exact .ok ()
  intro _ _
  rw [hassignment]
  apply Unconflicted.bind (.ok ())
  intro _ _
  rw [hgate, if_neg Bool.false_ne_true]
  apply Unconflicted.bind (unconflicted_validateVector _ _)
  intro _ _
  apply Unconflicted.bind
  · intro message h
    unfold checkEffectiveModel at h
    split at h
    · split at h <;> cases h
    · cases h
  intro _ _
  apply Unconflicted.bind (unconflicted_embedAndWrite hcurrent)
  intro x _
  exact unconflicted_stampFirst p x.2

/-- What a delivery does to the rows. -/
theorem attemptNext_rows (schemas : Schemas) (display : Json → String) (db : EmbeddingDb) (a : Attempt vectorOf)
    (resolution : Resolution vectorOf) :
    (∃ p snapshot text revision vector, a.phase = .syncing p (.ready snapshot text revision) ∧
        p.embed 0 text = .ok vector ∧ db.workspace.reindexing = false ∧
        Persists db (attemptNext schemas display db a resolution).1 p.toProvider snapshot vector) ∨
      (attemptNext schemas display db a resolution).1 = db := by
  obtain ⟨job, k, id, phase⟩ := a
  cases phase with
  | admitted =>
      refine Or.inr ?_
      simp only [attemptNext]
      split <;> rfl
  | syncing p phase =>
      rcases syncNext_rows schemas display db ⟨p.toProvider, id, phase⟩ with
        ⟨snapshot, text, revision, vector, hphase, hv, -, hgate, hp⟩ | heq
      · exact Or.inl ⟨p, snapshot, text, revision, vector, congrArg _ hphase, hv, hgate, hp⟩
      · exact Or.inr heq
  | decided result => exact Or.inr rfl
  | finished => exact Or.inr rfl

/-- A vector that was stored for the version there is makes the entity up to date. -/
theorem upToDate_persists {db' : EmbeddingDb} {p : ModelProvider vectorOf}
    {snapshot : EmbeddingSnapshot} {vector : Vector32} {text : String} {content : EntityContent}
    (hp : Persists db db' p.toProvider snapshot vector) (hv : p.embed 0 text = .ok vector)
    (htext : textOf schemas display content = .ok (some text)) :
    upToDate schemas display vectorOf db' snapshot.id content = true := by
  simp only [upToDate, htext, hp.model, Option.any_some, hp.vectors, OrderedMap.get?_insert,
    if_true, decide_eq_true_eq]
  rw [p.computes 0 text vector hv]

/-- What was up to date stays so when a vector is stored for another entity. -/
theorem upToDate_of_persists {db' : EmbeddingDb} {p : Provider} {snapshot : EmbeddingSnapshot}
    {vector : Vector32} {id : Uuid} {content : EntityContent}
    (hp : Persists db db' p snapshot vector) (hid : id ≠ snapshot.id)
    (h : upToDate schemas display vectorOf db id content = true) :
    upToDate schemas display vectorOf db' id content = true := by
  have hvector : db'.vectors.get? id = db.vectors.get? id := by simp [hp.vectors, hid]
  rcases hp.stamp with ⟨hnone, -⟩ | ⟨hsome, -⟩
  · unfold upToDate at h ⊢
    rw [hvector]
    split at h
    · exact h
    -- an unstamped workspace has no entity whose text is up to date
    · rw [hnone] at h
      cases h
    · exact h
  · exact (upToDate_congr hvector (hp.model.trans hsome.symm)).trans h

/-- The next phase of a sync in progress is as current as the last. -/
theorem SyncCurrent.next {tokens : List String} {id : Uuid} {p p' : ModelProvider vectorOf}
    {phase phase' : SyncPhase}
    (htokens : ∀ id content, db.entities.get? id = some content →
      content.embeddingSyncToken ∈ tokens)
    (h : SyncCurrent schemas display db tokens id p phase)
    (hnext : AttemptPhase.ofSync p (syncNext schemas display db ⟨p.toProvider, id, phase⟩).2 =
      .syncing p' phase') : SyncCurrent schemas display db tokens id p' phase' := by
  cases phase with
  | started =>
      simp only [syncNext] at hnext
      split at hnext
      · next content hrow =>
        cases hnext
        refine ⟨h.provider, ?_, fun _ _ _ hready => by cases hready⟩
        intro snapshot hs
        cases hs
        refine ⟨rfl, htokens id content hrow, ?_⟩
        intro content' hrow' _
        exact (Option.some.inj (hrow.symm.trans hrow')).symm
      · cases hnext
  | read snapshot =>
      simp only [syncNext] at hnext
      split at hnext
      · next text htext =>
        cases hnext
        refine ⟨h.provider, h.snapshot, ?_⟩
        intro snapshot' text' revision' hready
        cases hready
        exact htext
      · cases hnext
      · cases hnext
  | ready snapshot text revision =>
      simp only [syncNext] at hnext
      split at hnext
      · split at hnext
        · next outcome _ => cases outcome <;> cases hnext
        · cases hnext
      · cases hnext
  | gone => cases hnext
  | ended result =>
      cases result with
      | ok outcome => cases outcome <;> cases hnext
      | error e => cases hnext

/-- The version there is, is the one the sync has read. -/
theorem SyncCurrent.eq_content {tokens : List String} {id : Uuid} {p : ModelProvider vectorOf}
    {phase : SyncPhase} {snapshot : EmbeddingSnapshot} {content : EntityContent}
    (h : SyncCurrent schemas display db tokens id p phase) (hs : phase.snapshot? = some snapshot)
    (hcurrent : currentSnapshot db snapshot = true) (hrow : db.entities.get? id = some content) :
    snapshot.id = id ∧ content = snapshot.content := by
  obtain ⟨rfl, -, hversion⟩ := h.snapshot snapshot hs
  obtain ⟨content', hrow', htoken⟩ := (Option.any_eq_true _ _).mp hcurrent
  obtain rfl : content' = content := Option.some.inj (hrow'.symm.trans hrow)
  exact ⟨rfl, hversion content' hrow' (of_decide_eq_true htoken)⟩

/-- A delivery covers the entity after its step, or has made it up to date. -/
def CoversNext (schemas : Schemas) (display : Json → String) (s : JobState vectorOf)
    (a : Attempt vectorOf) (resolution : Resolution vectorOf) (content : EntityContent) : Prop :=
  unread (attemptNext schemas display s.db a resolution).1
      (attemptNext schemas display s.db a resolution).2 = true ∨
    readCurrent (attemptNext schemas display s.db a resolution).1
      (attemptNext schemas display s.db a resolution).2 = true ∨
    upToDate schemas display vectorOf (attemptNext schemas display s.db a resolution).1
      a.entityId content = true

/-- A sync that has read the version there is: its text is made, or there is none and no vector
either. -/
theorem coversNext_read {s : JobState vectorOf} {job id : Uuid} {k : Int}
    {p : ModelProvider vectorOf} {snapshot : EmbeddingSnapshot} {resolution : Resolution vectorOf}
    {content : EntityContent} (hgate : s.db.workspace.reindexing = false)
    (hkeeps : attemptLoses schemas display s.db (.syncing p (.read snapshot)) resolution = false)
    (hsync : SyncCurrent schemas display s.db s.tokens id p (.read snapshot))
    (hrow : s.db.entities.get? id = some content)
    (hrev : p.workspaceRevision = some s.db.workspace.revision)
    (hcurrent : currentSnapshot s.db snapshot = true) :
    CoversNext schemas display s ⟨job, k, id, .syncing p (.read snapshot)⟩ resolution content := by
  obtain ⟨rfl, rfl⟩ := hsync.eq_content rfl hcurrent hrow
  cases htext : textOf schemas display snapshot.content with
  | error e =>
      refine Or.inl ?_
      have hclass := classifyEmbeddingError_of_unconflicted
        (unconflicted_textOf snapshot.content) htext
      simp [attemptNext, syncNext, htext, AttemptPhase.ofSync, hclass, unread]
  | ok text =>
      cases text with
      | some text =>
          refine Or.inr (Or.inl ?_)
          simp [attemptNext, syncNext, htext, AttemptPhase.ofSync, readCurrent, hrev, hcurrent]
      | none =>
          refine Or.inr (Or.inr ?_)
          have hnone : s.db.vectors.get? snapshot.id = none := by
            simpa [attemptLoses, htext, hgate, hcurrent] using hkeeps
          simp [attemptNext, syncNext, htext, upToDate, hnone]

/-- A sync that has the text of the version there is: the vector is stored, or the delivery fails
and is retried. -/
theorem coversNext_ready {s : JobState vectorOf} {job id : Uuid} {k : Int}
    {p : ModelProvider vectorOf} {snapshot : EmbeddingSnapshot} {text : String}
    {resolution : Resolution vectorOf} {content : EntityContent}
    (hgate : s.db.workspace.reindexing = false)
    (hsync : SyncCurrent schemas display s.db s.tokens id p
      (.ready snapshot text s.db.workspace.revision))
    (hrow : s.db.entities.get? id = some content)
    (hrev : p.workspaceRevision = some s.db.workspace.revision)
    (hcurrent : currentSnapshot s.db snapshot = true) :
    CoversNext schemas display s
      ⟨job, k, id, .syncing p (.ready snapshot text s.db.workspace.revision)⟩ resolution
      content := by
  obtain ⟨rfl, rfl⟩ := hsync.eq_content rfl hcurrent hrow
  have htext := hsync.text snapshot text _ rfl
  have hassigned : assigned s.db p.toProvider = true := by
    obtain ⟨r, hr, -, hassigned⟩ := hsync.provider
    exact hassigned (Option.some.inj (hr.symm.trans hrev))
  cases hv : p.embed 0 text with
  | error e =>
      refine Or.inl ?_
      have hclass := classifyEmbeddingError_of_unconflicted (p.fails 0 text) hv
      simp [attemptNext, syncNext, hv, AttemptPhase.ofSync, hclass, unread]
  | ok vector =>
      cases hpub : publishSync s.db p.toProvider snapshot s.db.workspace.revision vector with
      | error e =>
          refine Or.inl ?_
          have hclass := classifyEmbeddingError_of_unconflicted
            (unconflicted_publishSync hgate hassigned hcurrent) hpub
          simp [attemptNext, syncNext, hv, hpub, AttemptPhase.ofSync, hclass, unread]
      | ok x =>
          obtain ⟨db', outcome⟩ := x
          refine Or.inr (Or.inr ?_)
          obtain ⟨-, -, ⟨-, hp⟩ | ⟨-, hgone, -⟩⟩ := publishSync_eq_ok hpub
          · simp only [attemptNext, syncNext, hv, hpub]
            exact upToDate_persists hp hv htext
          · rw [hrow] at hgone
            cases hgone

/-- **One step of a delivery.** A delivery that covers an entity covers it still, unless it
has made the entity up to date. -/
theorem attemptNext_covers {s : JobState vectorOf} {a : Attempt vectorOf}
    {resolution : Resolution vectorOf} {content : EntityContent}
    (hgate : s.db.workspace.reindexing = false)
    (hkeeps : attemptLoses schemas display s.db a.phase resolution = false)
    (hinv : AttemptInv schemas display s a) (hrow : s.db.entities.get? a.entityId = some content)
    (h : unread s.db a.phase = true ∨ readCurrent s.db a.phase = true) :
    CoversNext schemas display s a resolution content := by
  obtain ⟨job, k, id, phase⟩ := a
  cases phase with
  | admitted =>
      cases resolution with
      | failed e => exact Or.inl rfl
      | missing => simp [attemptLoses, hgate] at hkeeps
      | disabled => simp [attemptLoses, hgate] at hkeeps
      | enabled p =>
          refine Or.inl ?_
          simp only [attemptNext]
          split
          · next hassigned =>
            simp only [assigned, Bool.and_eq_true] at hassigned
            exact hassigned.1
          · rfl
  | syncing p phase =>
      have hsync := hinv.sync p phase rfl
      cases phase with
      | started =>
          have hrev : p.workspaceRevision = some s.db.workspace.revision := by
            simpa [unread, readCurrent] using h
          refine Or.inr (Or.inl ?_)
          simp [attemptNext, syncNext, hrow, AttemptPhase.ofSync, readCurrent, hrev,
            currentSnapshot]
      | read snapshot =>
          have hread : p.workspaceRevision = some s.db.workspace.revision ∧
              currentSnapshot s.db snapshot = true := by
            simpa [unread, readCurrent] using h
          exact coversNext_read hgate hkeeps hsync hrow hread.1 hread.2
      | ready snapshot text revision =>
          obtain ⟨⟨hrev, rfl⟩, hcurrent⟩ : (p.workspaceRevision = some s.db.workspace.revision ∧
              revision = s.db.workspace.revision) ∧ currentSnapshot s.db snapshot = true := by
            simpa [unread, readCurrent] using h
          exact coversNext_ready hgate hsync hrow hrev hcurrent
      | gone => simp [unread, readCurrent] at h
      | ended result => simp [unread, readCurrent] at h
  | decided result =>
      cases result with
      | error e => exact Or.inl rfl
      | ok outcome => simp [unread, readCurrent] at h
  | finished => simp [unread, readCurrent] at h

/-- A delivery leaves the entities, the key, the counters and the gate as they are. -/
theorem attemptNext_frame (schemas : Schemas) (display : Json → String) (db : EmbeddingDb) (a : Attempt vectorOf)
    (resolution : Resolution vectorOf) :
    (attemptNext schemas display db a resolution).1.entities = db.entities ∧
      (attemptNext schemas display db a resolution).1.key = db.key ∧
      (attemptNext schemas display db a resolution).1.workspace.revision =
        db.workspace.revision ∧
      (attemptNext schemas display db a resolution).1.workspace.contentRevision =
        db.workspace.contentRevision ∧
      (attemptNext schemas display db a resolution).1.workspace.reindexing =
        db.workspace.reindexing := by
  rcases attemptNext_rows schemas display db a resolution with ⟨p, snapshot, text, revision, vector, -, -, -, hp⟩ | heq
  · exact ⟨hp.entities, hp.key, hp.revision, hp.contentRevision, hp.reindexing⟩
  · rw [heq]
    exact ⟨rfl, rfl, rfl, rfl, rfl⟩

/-- The next phase of a delivery whose sync is in progress. -/
theorem AttemptInv.next {s : JobState vectorOf} {a : Attempt vectorOf}
    (htokens : ∀ id content, s.db.entities.get? id = some content →
      content.embeddingSyncToken ∈ s.tokens)
    (h : AttemptInv schemas display s a) {resolution : Resolution vectorOf}
    {p : ModelProvider vectorOf} {phase : SyncPhase}
    (hnext : (attemptNext schemas display s.db a resolution).2 = .syncing p phase) :
    SyncCurrent schemas display s.db s.tokens a.entityId p phase := by
  obtain ⟨job, k, id, old⟩ := a
  cases old with
  | admitted =>
      cases resolution with
      | enabled p₀ =>
          simp only [attemptNext] at hnext
          split at hnext
          · next hassigned =>
            cases hnext
            have hrev := hassigned
            simp only [assigned, Bool.and_eq_true, decide_eq_true_eq] at hrev
            exact ⟨⟨_, hrev.1, le_refl _, fun _ => hassigned⟩, fun _ hs => (by cases hs),
              fun _ _ _ hready => (by cases hready)⟩
          · cases hnext
      | _ => cases hnext
  | syncing p₀ old => exact (h.sync p₀ old rfl).next htokens hnext
  | decided result => cases hnext
  | finished => cases hnext

variable {s : JobState vectorOf} {k : Nat} {a : Attempt vectorOf}

/-- Deliveries keep their job and their number. -/
theorem map_set_phase (hk : s.attempts[k]? = some a) (phase : AttemptPhase vectorOf) :
    ((s.attempts.set k { a with phase := phase }).map fun a => (a.job, a.attempt)) =
      s.attempts.map fun a => (a.job, a.attempt) := by
  rw [List.map_set]
  apply List.ext_getElem?
  intro i
  by_cases hi : k = i
  · subst hi
    obtain ⟨hlt, heq⟩ := List.getElem?_eq_some_iff.mp hk
    simp [hlt, heq]
  · rw [List.getElem?_set_ne hi]

/-- What is up to date stays so. -/
theorem upToDate_attemptNext {id : Uuid} {content : EntityContent}
    (ha : AttemptInv schemas display s a) (resolution : Resolution vectorOf)
    (hrow : s.db.entities.get? id = some content)
    (hup : upToDate schemas display vectorOf s.db id content = true) :
    upToDate schemas display vectorOf (attemptNext schemas display s.db a resolution).1 id
      content = true := by
  rcases attemptNext_rows schemas display s.db a resolution with
    ⟨p, snapshot, text, revision, vector, hphase, hv, -, hp⟩ | heq
  · have hsync := ha.sync p _ hphase
    by_cases hid : id = snapshot.id
    · subst hid
      obtain ⟨content', hrow', htoken⟩ := hp.current
      obtain rfl : content' = content := Option.some.inj (hrow'.symm.trans hrow)
      obtain ⟨-, -, hversion⟩ := hsync.snapshot snapshot rfl
      obtain rfl := hversion content' hrow' htoken
      exact upToDate_persists hp hv (hsync.text snapshot text revision rfl)
    · exact upToDate_of_persists hp hid hup
  · rw [heq]
    exact hup

/-- An entity that is covered stays so, or has become up to date. -/
theorem Covered.attempted {id : Uuid} {content : EntityContent} (h : JobInv schemas display s)
    (hk : s.attempts[k]? = some a) {resolution : Resolution vectorOf}
    (hkeeps : attemptLoses schemas display s.db a.phase resolution = false)
    (hgate : s.db.workspace.reindexing = false) (hrow : s.db.entities.get? id = some content)
    (hcov : Covered s id) :
    upToDate schemas display vectorOf (attemptNext schemas display s.db a resolution).1 id
        content = true ∨ Covered (s.attempted schemas display k a resolution) id := by
  obtain ⟨hent, -, hrev, -, -⟩ :=
    attemptNext_frame schemas display s.db a resolution
  obtain ⟨job, row, hjob, hjrow, hwaits | ⟨hrunning, b, hb, hbj, hbk, hphase⟩⟩ := hcov
  · exact Or.inr ⟨job, row, hjob, hjrow, Or.inl hwaits⟩
  · obtain ⟨i, hi⟩ := List.mem_iff_getElem?.mp hb
    by_cases hik : i = k
    · -- the delivery that covers the entity is the one that takes the step
      subst hik
      obtain rfl : a = b := Option.some.inj (hk.symm.trans hi)
      have hinv := h.attempts a hb
      obtain rfl : a.entityId = id := by
        have hentity := hinv.entity
        rw [hbj, hjob] at hentity
        exact (Option.some.inj hentity).symm
      rcases attemptNext_covers hgate hkeeps hinv hrow hphase with hu | hr | hup
      · exact Or.inr ⟨job, row, hjob, hjrow, Or.inr ⟨hrunning, _,
          List.mem_set (List.getElem?_eq_some_iff.mp hk).1 _, hbj, hbk, Or.inl hu⟩⟩
      · exact Or.inr ⟨job, row, hjob, hjrow, Or.inr ⟨hrunning, _,
          List.mem_set (List.getElem?_eq_some_iff.mp hk).1 _, hbj, hbk, Or.inr hr⟩⟩
      · exact Or.inl hup
    · refine Or.inr ⟨job, row, hjob, hjrow, Or.inr ⟨hrunning, b, ?_, hbj, hbk, ?_⟩⟩
      · refine List.mem_iff_getElem?.mpr ⟨i, ?_⟩
        rw [JobState.attempted, List.getElem?_set_ne (Ne.symm hik), hi]
      · rcases hphase with hu | hr
        · exact Or.inl ((unread_congr hrev b.phase).trans hu)
        · refine Or.inr ((readCurrent_congr hrev ?_).trans hr)
          intro p phase snapshot _ _
          rw [currentSnapshot, currentSnapshot]
          exact congrArg (fun m : OrderedMap Uuid EntityContent => (m.get? snapshot.id).any _) hent

theorem JobInv.attempted (h : JobInv schemas display s) (hk : s.attempts[k]? = some a)
    {resolution : Resolution vectorOf}
    (hkeeps : attemptLoses schemas display s.db a.phase resolution = false) :
    JobInv schemas display (s.attempted schemas display k a resolution) := by
  obtain ⟨hent, hkey, hrev, hcont, hreindexing⟩ :=
    attemptNext_frame schemas display s.db a resolution
  have hm : Moves s.db (attemptNext schemas display s.db a resolution).1 s.tokens :=
    .of_entities hrev hkey hcont hent
  have ha := h.attempts a (List.mem_of_getElem? hk)
  refine ⟨⟨?_, ?_⟩, ?_, ?_, ?_, h.known, ?_, ?_⟩
  · rcases attemptNext_rows schemas display s.db a resolution with
      ⟨p, snapshot, text, revision, vector, -, hv, hgate, hp⟩ | heq
    · exact spaceInv_persists h.space.space hgate (p.width 0 text vector hv) hp
    · show SpaceInv (attemptNext schemas display s.db a resolution).1
      rw [heq]
      exact h.space.space
  · intro r hr
    exact (h.space.runs r hr).of_counters hrev hcont
  · intro r hr
    exact (h.reindexes r hr).moves (h.space.runs r hr) hm
  · intro b hb
    rcases List.mem_or_eq_of_mem_set hb with hold | rfl
    · obtain ⟨hrow, hentity, hsync⟩ := h.attempts b hold
      exact ⟨hrow, hentity, fun p phase hp => (hsync p phase hp).moves hm (List.Subset.refl _)⟩
    · exact ⟨ha.row, ha.entity, fun p phase hp =>
        (ha.next h.tokens hp).moves hm (List.Subset.refl _)⟩
  · show ((s.attempts.set k _).map _).Nodup
    rw [map_set_phase hk]
    exact h.distinct
  · intro id content hrow
    exact h.tokens id content (hent ▸ hrow)
  · intro hgate id content hrow
    have hrow' : s.db.entities.get? id = some content := hent ▸ hrow
    have hgate' : s.db.workspace.reindexing = false := hreindexing ▸ hgate
    rcases h.covered hgate' id content hrow' with hup | hcov
    · exact Or.inl (upToDate_attemptNext ha resolution hrow' hup)
    · exact Covered.attempted h hk hkeeps hgate' hrow' hcov

end Attempts

/-! ## Starting and finishing -/

section Lifecycles

variable {vectorOf : String → String → Vector32} {schemas : Schemas} {display : Json → String}
  {s : JobState vectorOf}

theorem JobInv.delivered (h : JobInv schemas display s) (job : Uuid) (now : Instant) :
    JobInv schemas display (s.deliver job now) := by
  unfold JobState.deliver
  split
  · next entityId admission t hentity hstart =>
    split
    · next k hgranted =>
      rcases Queue.startAt_eq_ok hstart with ⟨row, hrow, hg, -, -, hrep⟩ | ⟨hnone, -⟩
      · obtain rfl : k = row.attempt + 1 := Option.some.inj (hgranted.symm.trans hg)
        refine ⟨h.space, h.reindexes, ?_, ?_, ?_, h.tokens, ?_⟩
        · intro a ha
          rcases List.mem_append.mp ha with hold | hnew
          · obtain ⟨⟨row', hrow', hle⟩, he, hsync⟩ := h.attempts a hold
            refine ⟨?_, he, hsync⟩
            by_cases hj : a.job = job
            · obtain rfl : row' = row := by
                rw [hj, hrow] at hrow'
                exact (Option.some.inj hrow').symm
              refine ⟨Queue.claimRow now row', hj ▸ hrep.get?_self, ?_⟩
              simp only [Queue.claimRow]
              omega
            · exact ⟨row', (hrep.get?_ne hj).trans hrow', hle⟩
          · obtain rfl := List.mem_singleton.mp hnew
            exact ⟨⟨_, hrep.get?_self, le_refl _⟩, hentity, fun _ _ hp => by cases hp⟩
        · -- the number granted is above those of all earlier deliveries of the job
          rw [List.map_append, List.nodup_append]
          refine ⟨h.distinct, List.nodup_singleton _, ?_⟩
          intro x hx y hy hxy
          obtain ⟨a, ha, rfl⟩ := List.mem_map.mp hx
          rw [List.map_singleton, List.mem_singleton] at hy
          subst hy
          obtain ⟨hj, hk⟩ := Prod.mk.inj hxy
          obtain ⟨row', hrow', hle⟩ := (h.attempts a ha).row
          rw [hj, hrow] at hrow'
          cases hrow'
          simp only at hk
          omega
        · intro j e hj
          by_cases hjob : j = job
          · subst hjob
            simp [hrep.get?_self]
          · rw [hrep.get?_ne hjob]
            exact h.known j e hj
        · intro hgate id content hc
          rcases h.covered hgate id content hc with hup | ⟨j, row', hj, hrow', hphase⟩
          · exact Or.inl hup
          · refine Or.inr ?_
            by_cases hjob : j = job
            · subst hjob
              exact ⟨j, _, hj, hrep.get?_self, Or.inr ⟨rfl, ⟨j, _, entityId, .admitted⟩,
                List.mem_append_right _ List.mem_cons_self, rfl, rfl, Or.inl rfl⟩⟩
            · refine ⟨j, row', hj, (hrep.get?_ne hjob).trans hrow', ?_⟩
              rcases hphase with hwaits | ⟨hrunning, b, hb, hrest⟩
              · exact Or.inl hwaits
              · exact Or.inr ⟨hrunning, b, List.mem_append_left _ hb, hrest⟩
      · rw [hnone] at hgranted
        cases hgranted
    · exact h
  · exact h

/-- A delivery that ends in an error leaves its job failed; any other end covers nothing. -/
theorem JobInv.finished (describe : YorishiroError → String) (h : JobInv schemas display s)
    {k : Nat} {a : Attempt vectorOf} {result : Except YorishiroError EmbeddingSyncOutcome}
    (hk : s.attempts[k]? = some a) (hphase : a.phase = .decided result) (now : Instant) :
    JobInv schemas display (s.finishAttempt describe k a result now) := by
  unfold JobState.finishAttempt
  split
  · next t hfinish =>
    obtain ⟨row, hrow, hfilter, hrep⟩ := Queue.finish_eq_ok hfinish
    simp only [Queue.finishFilter, Bool.and_eq_true, decide_eq_true_eq] at hfilter
    have ha := List.mem_of_getElem? hk
    refine ⟨h.space, h.reindexes, ?_, ?_, ?_, h.tokens, ?_⟩
    · have hrows : ∀ b ∈ s.attempts, ∃ row', t.get? b.job = some row' ∧ b.attempt ≤ row'.attempt := by
        intro b hb
        obtain ⟨row', hrow', hle⟩ := (h.attempts b hb).row
        by_cases hj : b.job = a.job
        · rw [hj, hrow] at hrow'
          cases hrow'
          exact ⟨_, hj ▸ hrep.get?_self, by simpa using hle⟩
        · exact ⟨row', (hrep.get?_ne hj).trans hrow', hle⟩
      intro b hb
      rcases List.mem_or_eq_of_mem_set hb with hold | rfl
      · exact ⟨hrows b hold, (h.attempts b hold).entity, (h.attempts b hold).sync⟩
      · exact ⟨hrows a ha, (h.attempts a ha).entity, fun _ _ hp => by cases hp⟩
    · rw [map_set_phase hk]
      exact h.distinct
    · intro j e hj
      by_cases hjob : j = a.job
      · subst hjob
        simp [hrep.get?_self]
      · rw [hrep.get?_ne hjob]
        exact h.known j e hj
    · intro hgate id content hc
      rcases h.covered hgate id content hc with hup | ⟨j, row', hj, hrow', hcovers⟩
      · exact Or.inl hup
      · refine Or.inr ?_
        by_cases hjob : j = a.job
        · subst hjob
          obtain rfl : row' = row := Option.some.inj (hrow'.symm.trans hrow)
          rcases hcovers with hwaits | ⟨-, b, hb, hbj, hbk, hcover⟩
          · simp [waits, hfilter.2] at hwaits
          · -- the current attempt is this delivery, so it can only have failed
            obtain rfl : b = a := List.inj_on_of_nodup_map h.distinct hb ha
              (Prod.ext hbj (hbk.trans hfilter.1))
            rw [hphase] at hcover
            cases result with
            | ok outcome => simp [unread, readCurrent] at hcover
            | error e =>
                exact ⟨b.job, _, hj, hrep.get?_self, Or.inl (by simp [waits, finishOf])⟩
        · refine ⟨j, row', hj, (hrep.get?_ne hjob).trans hrow', ?_⟩
          rcases hcovers with hwaits | ⟨hrunning, b, hb, hbj, hrest⟩
          · exact Or.inl hwaits
          · refine Or.inr ⟨hrunning, b, ?_, hbj, hrest⟩
            obtain ⟨i, hi⟩ := List.mem_iff_getElem?.mp hb
            refine List.mem_iff_getElem?.mpr ⟨i, ?_⟩
            have hik : k ≠ i := by
              rintro rfl
              obtain rfl : a = b := Option.some.inj (hk.symm.trans hi)
              exact hjob hbj.symm
            rw [List.getElem?_set_ne hik, hi]
  · exact h

end Lifecycles

/-! ## Reindexes -/

section Reindexes

variable {vectorOf : String → String → Vector32} {schemas : Schemas} {display : Json → String}
  {s : JobState vectorOf}

/-- A step that leaves the rows alone. -/
theorem JobInv.of_db_eq (h : JobInv schemas display s) {space : EmbeddingState}
    (hspace : EmbeddingInv space) (hdb : space.db = s.db)
    (hreindexes : ∀ r ∈ space.reindexes, ReindexCurrent vectorOf s.db r) :
    JobInv schemas display { s with space := space } := by
  apply h.of_rows hspace (hdb ▸ Moves.of_entities rfl rfl rfl rfl) (List.Subset.refl _)
  · rw [hdb]
    exact hreindexes
  · rw [hdb]
    exact h.tokens
  · rw [hdb]
    intro hgate id content hrow
    rcases h.covered hgate id content hrow with hup | hcov
    · exact Or.inl hup
    · exact Or.inr (hcov.of_rows h.attempts (by rw [hdb]) (by rw [hdb]))

/-- **Publication.** A publication of the entities there are makes all of them up to date. -/
theorem upToDate_publishes {db db' : EmbeddingDb} {p : Provider}
    (hcomputes : ∀ n text vector, p.embed n text = .ok vector → vector = vectorOf p.modelName text)
    {prepared : List (EmbeddingSnapshot × Option Vector32)}
    (hprep : prepare schemas display p db.entities 0 db.entities.keys = (prepared, []))
    (hp : Publishes db db' p prepared) {id : Uuid} {content : EntityContent}
    (hrow : db.entities.get? id = some content) :
    upToDate schemas display vectorOf db' id content = true := by
  obtain ⟨hids, hall⟩ := prepare_eq_nil hprep
  have hmem : id ∈ prepared.map fun e => e.1.id := by
    rw [hids, OrderedMap.mem_keys_iff, hrow]
    rfl
  obtain ⟨e, he, rfl, hvector⟩ := preparedVector_of_mem hmem
  obtain ⟨hread, n, hn⟩ := hall e he
  obtain rfl : e.1.content = content := Option.some.inj (hread.symm.trans hrow)
  have hget := hp.vectors e.1.id
  rw [hvector, hrow] at hget
  rcases reindexEmbeddingForRecord_eq_ok hn with ⟨htext, hnone⟩ | ⟨text, v, htext, hv, hembed, -⟩
  · simp only [upToDate, htext, hget, hnone]
    cases db.vectors.get? e.1.id <;> rfl
  · rw [hv] at hget
    simp only [upToDate, htext, hp.workspace, Option.any_some, hget, ← hcomputes n text v hembed]
    simp

/-- A run that holds no revision has nothing to be current with. -/
theorem ReindexCurrent.ended {db : EmbeddingDb} {r : ReindexRun}
    (hcomputes : ∀ n text vector, r.provider.embed n text = .ok vector →
      vector = vectorOf r.provider.modelName text) (hnone : r.phase.captured = none) :
    ReindexCurrent vectorOf db r := by
  refine ⟨hcomputes, ?_, ?_⟩
  · intro _ _ hphase
    rw [hphase] at hnone
    cases hnone
  · intro _ _ _ hphase
    rw [hphase] at hnone
    cases hnone

theorem ReindexCurrent.set_phase {db : EmbeddingDb} {r : ReindexRun} {phase : ReindexPhase}
    (h : ReindexCurrent vectorOf db r)
    (hlisted : ∀ revision ids, phase = .listed revision db.workspace.contentRevision ids →
      ids = db.entities.keys)
    (hloaded : ∀ revision ids records,
      phase = .loaded revision db.workspace.contentRevision ids records →
        ids = db.entities.keys ∧ records = db.entities) :
    ReindexCurrent vectorOf db { r with phase := phase } :=
  ⟨h.computes, hlisted, hloaded⟩

/-- The publication of a reindex keeps the invariant. -/
theorem JobInv.published (h : JobInv schemas display s) {db' : EmbeddingDb} {k : Nat}
    {r : ReindexRun} {prepared : List (EmbeddingSnapshot × Option Vector32)} {phase : ReindexPhase}
    (hspace : EmbeddingInv { s.space with
      db := db', reindexes := s.space.reindexes.set k { r with phase := phase } })
    (hr : ReindexCurrent vectorOf s.db r)
    (hprep : prepare schemas display r.provider s.db.entities 0 s.db.entities.keys = (prepared, []))
    (hp : Publishes s.db db' r.provider prepared) (hended : phase.captured = none) :
    JobInv schemas display { s with space := { s.space with
      db := db', reindexes := s.space.reindexes.set k { r with phase := phase } } } := by
  have hm : Moves s.db db' s.tokens :=
    .of_entities (by rw [hp.workspace]) hp.key (by rw [hp.workspace]) hp.entities
  apply h.of_rows hspace hm (List.Subset.refl _)
  · intro r' hr'
    rcases List.mem_or_eq_of_mem_set hr' with hold | rfl
    · exact (h.reindexes r' hold).moves (h.space.runs r' hold) hm
    · exact .ended hr.computes hended
  · intro id content hrow
    exact h.tokens id content (hp.entities ▸ hrow)
  · intro _ id content hrow
    exact Or.inl (upToDate_publishes hr.computes hprep hp (hp.entities ▸ hrow))

theorem JobInv.reindexed (h : JobInv schemas display s) {k : Nat} {r : ReindexRun}
    (hk : s.space.reindexes[k]? = some r) :
    JobInv schemas display { s with space := s.space.reindexStep schemas display k r } := by
  have hspace : EmbeddingInv (s.space.reindexStep schemas display k r) :=
    h.space.reindexStep schemas display hk
  have hr := h.reindexes r (List.mem_of_getElem? hk)
  have hruns := h.space.runs r (List.mem_of_getElem? hk)
  -- a step that leaves the rows alone only has to keep this run current
  have hsame : ∀ phase, reindexNext schemas display s.db r = (s.db, phase) →
      r.phase ≠ .started → ReindexCurrent vectorOf s.db { r with phase := phase } →
      JobInv schemas display { s with space := s.space.reindexStep schemas display k r } := by
    intro phase hnext hstarted hcurrent
    rw [reindexStep_later schemas display hstarted] at hspace ⊢
    apply h.of_db_eq hspace
    · exact congrArg Prod.fst hnext
    · intro r' hr'
      rcases List.mem_or_eq_of_mem_set hr' with hold | rfl
      · exact h.reindexes r' hold
      · rw [show (reindexNext schemas display s.space.db r).2 = phase from congrArg Prod.snd hnext]
        exact hcurrent
  obtain ⟨p, phase, flag⟩ := r
  cases phase with
  | started =>
      rcases reindexStep_started schemas display s.space k p flag with
        ⟨e, heq⟩ | ⟨db, revision, contentRevision, hbegin, heq⟩
      · rw [heq] at hspace ⊢
        apply h.of_db_eq hspace rfl
        intro r' hr'
        rcases List.mem_or_eq_of_mem_set hr' with hold | rfl
        · exact h.reindexes r' hold
        · exact .ended hr.computes rfl
      · rw [heq] at hspace ⊢
        obtain ⟨rfl, rfl, rfl, -⟩ := beginReindex_eq_ok hbegin
        have hm : Moves s.db { s.space.db with
            workspace := { s.space.db.workspace with
              revision := s.space.db.workspace.revision + 1, reindexing := true } } s.tokens :=
          ⟨by simp [JobState.db], fun heq => by simp [JobState.db] at heq,
            Or.inl ⟨rfl, rfl⟩, fun _ _ hrow _ => hrow⟩
        apply h.gated hspace hm rfl
        · intro r' hr'
          rcases List.mem_or_eq_of_mem_set hr' with hold | rfl
          · exact h.reindexes_changed hm r' hold
          · exact ⟨hr.computes, fun _ _ hp => (by cases hp), fun _ _ _ hp => (by cases hp)⟩
        · rfl
  | fenced revision contentRevision =>
      apply hsame _ rfl (by simp)
      refine hr.set_phase ?_ fun _ _ _ hp => by cases hp
      intro revision' ids hp
      cases hp
      rfl
  | listed revision contentRevision ids =>
      apply hsame _ rfl (by simp)
      refine hr.set_phase (fun _ _ hp => by cases hp) ?_
      intro revision' ids' records hp
      cases hp
      obtain rfl := hr.listed revision ids rfl
      exact ⟨rfl, OrderedMap.filter_keys s.db.entities⟩
  | loaded revision contentRevision ids records =>
      cases hprep : prepare schemas display p records 0 ids with
      | mk prepared failures =>
          cases failures with
          | cons failure failures =>
              exact hsame (.failed (failure :: failures)) (by simp [reindexNext, hprep]) (by simp)
                (.ended hr.computes rfl)
          | nil =>
              cases hpub : publishReindex s.db p revision contentRevision prepared with
              | error e =>
                  exact hsame (.aborted e) (by simp [reindexNext, hprep, hpub]) (by simp)
                    (.ended hr.computes rfl)
              | ok db' =>
                  have hids := (prepare_eq_nil hprep).1
                  obtain ⟨-, hcont, hp⟩ := publishReindex_eq_ok (hids ▸ hruns.nodup) hpub
                  obtain ⟨rfl, rfl⟩ := hr.loaded revision ids records (by rw [hcont])
                  have hnext : reindexNext schemas display s.space.db
                      ⟨p, .loaded revision contentRevision s.db.entities.keys s.db.entities, flag⟩ =
                        (db', .published) := by
                    simp only [JobState.db] at hprep hpub
                    simp [reindexNext, hprep, hpub, JobState.db]
                  rw [reindexStep_later schemas display (by simp), hnext] at hspace ⊢
                  exact h.published hspace hr hprep hp rfl
  | published => exact hsame _ rfl (by simp) hr
  | failed failures => exact hsame _ rfl (by simp) hr
  | aborted e => exact hsame _ rfl (by simp) hr

end Reindexes

/-! ## Every reachable state -/

section Reachable

variable {vectorOf : String → String → Vector32} {schemas : Schemas} {display : Json → String}
  {s : JobState vectorOf}

theorem embeddingStep_create {s : EmbeddingState} {id : Uuid} (content : EntityContent)
    (hrow : ¬ (s.db.entities.get? id).isSome = true) :
    embeddingStep schemas display s (.create id content) =
      s.changed (insertEntity s.db id content) := by
  rw [embeddingStep, if_neg hrow]

theorem embeddingStep_update {s : EmbeddingState} {id : Uuid} (content : EntityContent)
    (hrow : (s.db.entities.get? id).isSome = true) :
    embeddingStep schemas display s (.update id content) =
      s.changed (insertEntity s.db id content) := by
  rw [embeddingStep, if_pos hrow, updateEntity, if_pos hrow]

theorem jobInv_new (tenant : TenantEmbedding) :
    JobInv schemas display (.new tenant : JobState vectorOf) where
  space := embeddingInv_new tenant
  reindexes := fun _ hr => by cases hr
  attempts := fun _ ha => by cases ha
  distinct := List.nodup_nil
  known := fun _ _ hj => by cases hj
  tokens := fun _ _ hrow => by cases hrow
  covered := fun _ _ _ hrow => by cases hrow

/-- A version written with its job. -/
theorem JobInv.enqueue (h : JobInv schemas display s) {id : Uuid} {content : EntityContent}
    {job : Enqueue} {now : Instant} {l : EmbeddingLabel}
    (htoken : content.embeddingSyncToken ∉ s.tokens)
    (hl : embeddingStep schemas display s.space l = s.space.changed (insertEntity s.db id content)) :
    JobInv schemas display (s.enqueue (s.write schemas display l content) id job now) := by
  unfold JobState.enqueue JobState.write
  split
  · next t ht =>
    obtain ⟨h', hcome⟩ := h.enqueued id ht
    have hspace := embeddingInv_step schemas display h.space l
    rw [hl] at hspace ⊢
    exact h'.written htoken hspace fun _ => Or.inr
      (covered_of_toCome (toCome_of_revision rfl hcome))
  · exact h

/-- A version written without a job. -/
theorem JobInv.rewrite (h : JobInv schemas display s) {id : Uuid} {content : EntityContent}
    (htoken : content.embeddingSyncToken ∉ s.tokens) (hrow : (s.db.entities.get? id).isSome = true)
    (hkeeps : loses schemas display s (.rewrite id content) = false) :
    JobInv schemas display (s.write schemas display (.update id content) content) := by
  have hl : embeddingStep schemas display s.space (.update id content) =
      s.space.changed (insertEntity s.db id content) := embeddingStep_update content hrow
  have hspace := embeddingInv_step schemas display h.space (.update id content)
  unfold JobState.write
  rw [hl] at hspace ⊢
  apply h.written htoken hspace
  intro hgate
  obtain ⟨old, hold⟩ := Option.isSome_iff_exists.mp hrow
  simp only [loses, hgate, hold, Bool.false_or, Option.all_some, Bool.not_eq_false',
    Bool.or_eq_true, Bool.and_eq_true, Bool.not_eq_true', decide_eq_true_eq] at hkeeps
  rcases hkeeps with hcome | ⟨hidle, htext⟩
  · exact Or.inr (covered_of_toCome (toCome_of_revision rfl hcome))
  · rcases h.covered hgate id old hold with hup | hcov
    · refine Or.inl ?_
      unfold upToDate at hup ⊢
      rw [← htext]
      exact hup
    · rcases toCome_or_inProgress hcov with hcome | hbusy
      · exact Or.inr (covered_of_toCome (toCome_of_revision rfl hcome))
      · rw [hidle] at hbusy
        cases hbusy

/-- A write of the provider key. -/
theorem JobInv.touched (h : JobInv schemas display s) {times : Int} {key : Option EmbeddingKey}
    (hpos : 0 < times) (hspace : EmbeddingInv (s.space.changed (touchKey s.db times key))) :
    JobInv schemas display { s with space := s.space.changed (touchKey s.db times key) } := by
  have hm : Moves s.db (touchKey s.db times key) s.tokens := by
    refine ⟨?_, ?_, Or.inl ⟨rfl, rfl⟩, fun _ _ hrow _ => hrow⟩
    · simp only [touchKey]
      omega
    · intro heq
      simp only [touchKey] at heq
      omega
  exact h.gated hspace hm rfl (h.reindexes_changed hm) rfl

theorem JobInv.delete (h : JobInv schemas display s) (id : Uuid) :
    JobInv schemas display (s.onSpace schemas display (.delete id)) := by
  have hspace := embeddingInv_step schemas display h.space (.delete id)
  simp only [JobState.onSpace, embeddingStep] at hspace ⊢
  split at hspace
  · next hrow =>
    rw [if_pos hrow]
    exact h.deleted hrow hspace
  · next hrow =>
    rw [if_neg hrow]
    exact h

theorem JobInv.clearKey (h : JobInv schemas display s) :
    JobInv schemas display (s.onSpace schemas display .clearKey) := by
  have hspace := embeddingInv_step schemas display h.space .clearKey
  simp only [JobState.onSpace, embeddingStep] at hspace ⊢
  split at hspace
  · next hkey =>
    rw [if_pos hkey]
    rw [Embedding.clearKey, if_pos hkey] at hspace ⊢
    exact h.touched one_pos hspace
  · next hkey =>
    rw [if_neg hkey]
    exact h

/-- A change of the tenant's settings writes no entity. -/
theorem JobInv.tenant (h : JobInv schemas display s) (tenant : TenantEmbedding) :
    JobInv schemas display (s.onSpace schemas display (.tenant tenant)) := by
  have hm : Moves s.db { s.db with tenant } s.tokens := .of_entities rfl rfl rfl rfl
  apply h.of_rows (embeddingInv_step schemas display h.space (.tenant tenant)) hm
    (List.Subset.refl _)
  · intro r hr
    exact (h.reindexes r hr).moves (h.space.runs r hr) hm
  · exact h.tokens
  · intro hgate id content hrow
    rcases h.covered hgate id content hrow with hup | hcov
    · exact Or.inl hup
    · exact Or.inr (hcov.of_rows h.attempts rfl rfl)

theorem JobInv.startReindex (h : JobInv schemas display s) (provider : ModelProvider vectorOf) :
    JobInv schemas display (s.onSpace schemas display (.startReindex provider.toProvider)) := by
  apply h.of_db_eq (embeddingInv_step schemas display h.space _) rfl
  intro r hr
  rcases List.mem_append.mp hr with hold | hnew
  · exact h.reindexes r hold
  · obtain rfl := List.mem_singleton.mp hnew
    exact .ended provider.computes rfl

/-- Every step that loses no computation keeps every entity covered. -/
theorem jobInv_step (describe : YorishiroError → String) (h : JobInv schemas display s)
    (l : JobLabel vectorOf) (hkeeps : loses schemas display s l = false) :
    JobInv schemas display (jobStep schemas display describe s l) := by
  cases l with
  | create id content job now =>
      simp only [jobStep]
      split
      · exact h
      · next hnot =>
        simp only [Bool.or_eq_true, List.contains_iff_mem, not_or] at hnot
        exact h.enqueue hnot.1 (embeddingStep_create content hnot.2)
  | update id content job now =>
      simp only [jobStep]
      split
      · exact h
      · next hnot =>
        simp only [Bool.or_eq_true, List.contains_iff_mem, not_or, Bool.not_eq_true,
          Option.isNone_eq_false_iff] at hnot
        exact h.enqueue hnot.1 (embeddingStep_update content hnot.2)
  | rewrite id content =>
      simp only [jobStep]
      split
      · exact h
      · next hnot =>
        simp only [Bool.or_eq_true, List.contains_iff_mem, not_or, Bool.not_eq_true,
          Option.isNone_eq_false_iff] at hnot
        exact h.rewrite hnot.1 hnot.2 hkeeps
  | delete id => exact h.delete id
  | resync id job now =>
      simp only [jobStep, JobState.enqueue]
      split
      · next t ht => exact (h.enqueued id ht).1
      · exact h
  | setKey key =>
      have hspace := embeddingInv_step schemas display h.space (.setKey key)
      exact h.touched (by split <;> omega) hspace
  | clearKey => exact h.clearKey
  | tenant tenant => exact h.tenant tenant
  | deliver job now => exact h.delivered job now
  | attempt k resolution =>
      simp only [jobStep]
      split
      · next a hk =>
        apply h.attempted hk
        simpa [loses, hk] using hkeeps
      · exact h
  | finish k now =>
      simp only [jobStep]
      split
      · next a hk =>
        split
        · next result hphase => exact h.finished describe hk hphase now
        · exact h
      · exact h
  | startReindex provider => exact h.startReindex provider
  | reindex k =>
      simp only [jobStep, JobState.onSpace, embeddingStep]
      split
      · next r hk => exact h.reindexed hk
      · exact h

end Reachable

/-- **Freshness.** In every run in which no step loses a computation, every state reached with
the gate down has for each entity a job that is to come, runs or has failed, or the vector its
text determines. -/
theorem embeddings_fresh (vectorOf : String → String → Vector32) (schemas : Schemas)
    (display : Json → String) (describe : YorishiroError → String) (tenant : TenantEmbedding)
    (labels : List (JobLabel vectorOf))
    (hmeet : StepsMeet (jobStep schemas display describe)
      (fun s l => loses schemas display s l = false) (.new tenant) labels) :
    Fresh schemas display (run (jobStep schemas display describe) (.new tenant) labels) := by
  have h := run_invariant (JobInv schemas display)
    (fun s l hs hl => jobInv_step describe hs l hl) (jobInv_new tenant) hmeet
  intro hgate id content hrow
  rcases h.covered hgate id content hrow with hup | hcov
  · exact Or.inr hup
  · exact Or.inl hcov.pending

/-! ## A default that is filled in -/

/-- The vectors of the provider that measures the length of a text. -/
def lengthOf (_ : String) (text : String) : Vector32 := [.finite text.length]

/-- The provider of a new workspace. -/
def newProvider : ModelProvider lengthOf where
  toProvider := { lengthProvider "m" with workspaceRevision := some 0 }
  computes := by
    intro n text vector h
    cases h
    rfl
  fails := by
    intro n text message h
    cases h

def noteJob : Enqueue := ⟨10, "embedding_sync", .shared, none, none, none, none⟩

/-- No error is printed here. -/
def noDescription : YorishiroError → String := fun _ => ""

/-- A note is created and its job is delivered. -/
def noteDelivered (content : EntityContent) : List (JobLabel lengthOf) :=
  [.create 1 content noteJob 0, .deliver 10 0, .attempt 0 (.enabled newProvider),
    .attempt 0 (.enabled newProvider), .attempt 0 (.enabled newProvider),
    .attempt 0 (.enabled newProvider), .finish 0 0]

/-- A note without a body is created and synced, and `fill_defaults` gives it one. -/
def bodyFilled : List (JobLabel lengthOf) :=
  noteDelivered (noteOf [] "t1") ++
    [.rewrite 1 (note (.string "untitled") "t2")]

theorem embeddings_fresh_note :
    (run (jobStep noteSchemas noDisplay noDescription) (.new plainTenant)
        (noteDelivered (note (.string "hello") "t1"))).db.workspace.reindexing = false ∧
      Fresh noteSchemas noDisplay (run (jobStep noteSchemas noDisplay noDescription)
        (.new plainTenant) (noteDelivered (note (.string "hello") "t1"))) :=
  ⟨rfl, embeddings_fresh lengthOf noteSchemas noDisplay noDescription plainTenant _
    (by decide)⟩

/-- The filled body has no vector, and the only job of the note is completed. -/
theorem not_fresh_bodyFilled :
    ¬ Fresh noteSchemas noDisplay
      (run (jobStep noteSchemas noDisplay noDescription) (.new plainTenant) bodyFilled) := by
  intro h
  rcases h rfl 1 (note (.string "untitled") "t2") (by decide) with
    ⟨job, row, hjob, hrow, hstatus⟩ | hup
  · have hjob' : (OrderedMap.empty.insert 10 1 : OrderedMap Uuid Uuid).get? job = some 1 := hjob
    obtain rfl : job = 10 := by
      rcases OrderedMap.get?_insert_eq_some hjob' with ⟨rfl, -⟩ | ⟨-, hnone⟩
      · rfl
      · cases hnone
    have hdone : ((run (jobStep noteSchemas noDisplay noDescription) (.new plainTenant)
        bodyFilled).lifecycles.get? 10).map Lifecycle.status = some .completed := by
      decide
    rw [hrow] at hdone
    have hcompleted : row.status = .completed := Option.some.inj hdone
    simp [hcompleted] at hstatus
  · revert hup
    decide

end Yorishiro.Embedding
