import Yorishiro.Embedding.Rebuild
import Yorishiro.Schedule.Tick

/-!
# Finding stale workspaces

`run_metadata_scan` enqueues a reindex of every workspace whose stored vectors are not of the model
that is configured for it. It does not look at the vectors: it compares the stamp of the workspace.
`flags_reachable` says that this comes to the same: in every state that syncs and reindexes can
leave, a workspace that is not flagged has only vectors of the model, and one that is flagged has
none, unless a reindex of it is due anyway.

Any number of scans run beside each other and beside everything else, a statement or a transaction
at a time. `scan_accounts` says what each of them has done about the workspaces that it listed.
-/

set_option autoImplicit false

namespace Yorishiro.Embedding

open Yorishiro.Lib Yorishiro.Lib.Transition Yorishiro.Schema
open Yorishiro.Queue (QueueDb WorkerClass)
open Yorishiro.Schedule (ReindexArgs DispatchGiven CommitOutcome Texts dispatchReindex)

/-! ## What is configured -/

/-- `EmbeddingMetadata`. -/
structure EmbeddingMetadata where
  model : String
  dimensions : Nat
deriving DecidableEq, Repr

/-- `EmbeddingProvider` of the settings. -/
inductive ConfiguredProvider where
  | none
  | localModel
  | openai
deriving DecidableEq, Repr

/-- The settings that say which model is configured. -/
structure EmbeddingSettings where
  provider : ConfiguredProvider
  dimensions : Nat
  baseUrl : Option String
  model : Option String
  localModel : String
deriving DecidableEq, Repr

/-- What `DEFAULT_MODEL` is called, in short and in full. -/
def defaultModelShortId : String := "multilingual-e5-base"

def defaultModelId : String := "intfloat/multilingual-e5-base"

/-- The width of `DEFAULT_MODEL`. -/
def defaultModelDimensions : Nat := 768

/-- `deployment_embedding_metadata`. -/
def deploymentEmbeddingMetadata (settings : EmbeddingSettings) :
    Except String (Option EmbeddingMetadata) :=
  match settings.baseUrl, settings.model with
  | some _, some model => .ok (some ⟨model, settings.dimensions⟩)
  | _, _ =>
      match settings.provider with
      | .none => .ok none
      | .openai => .error "embedding provider openai requires base_url and model"
      | .localModel =>
          if settings.localModel ≠ defaultModelShortId then
            .error ("unknown local embedding model " ++ settings.localModel.quote)
          else if settings.dimensions ≠ defaultModelDimensions then
            .error "configured embedding dimensions do not match local model output width"
          else .ok (some ⟨defaultModelId, defaultModelDimensions⟩)

/-- `effective_embedding_metadata`: the provider key of the workspace, or else the deployment. -/
def effectiveEmbeddingMetadata (key : Option EmbeddingKey) (settings : EmbeddingSettings) :
    Except String (Option EmbeddingMetadata) :=
  match key with
  -- `i32` as `usize`
  | some key => .ok (some ⟨key.model, (key.dimensions % 2 ^ 64).toNat⟩)
  | none => deploymentEmbeddingMetadata settings

/-! ## Stamps -/

/-- The filter of `stamped_for_reindex`. -/
def isListed (row : WorkspaceEmbedding) : Bool := row.model.isSome || row.reindexing

/-- `usize::try_from` of an `i32`. -/
def toUsize (width : Int) : Option Nat := if 0 ≤ width then some width.toNat else none

/-- `is_stamped_with_other_embedding`. -/
def isStampedWithOtherEmbedding (row : WorkspaceEmbedding) (providerModel : String)
    (dimensions : Nat) : Bool :=
  row.reindexing || row.model.any fun model =>
    decide (model ≠ providerModel) ||
      row.dimensions.all fun width => decide (toUsize width ≠ some dimensions)

/-- The scan enqueues a reindex for the model, as far as the stamp goes. -/
def flags (row : WorkspaceEmbedding) (metadata : EmbeddingMetadata) : Bool :=
  isListed row && isStampedWithOtherEmbedding row metadata.model metadata.dimensions

/-- The vector is of the model. -/
def StoredVector.Of (v : StoredVector) (metadata : EmbeddingMetadata) : Prop :=
  v.model = metadata.model ∧ v.vector.length = metadata.dimensions

section Stamps

variable {schemas : Schemas} {display : Json → String} {db : EmbeddingDb}
  {metadata : EmbeddingMetadata}

theorem toUsize_natCast (n : Nat) : toUsize (n : Int) = some n := by
  unfold toUsize
  rw [if_pos (Int.natCast_nonneg n), Int.toNat_natCast]

/-- While no reindex is due, the scan looks at the model and the width of the stamp. -/
theorem flags_iff (hgate : db.workspace.reindexing = false) :
    flags db.workspace metadata = true ↔ ∃ model, db.workspace.model = some model ∧
      (model ≠ metadata.model ∨ ∀ width, db.workspace.dimensions = some width →
        toUsize width ≠ some metadata.dimensions) := by
  unfold flags isListed isStampedWithOtherEmbedding
  rw [hgate, Bool.or_false, Bool.false_or]
  cases db.workspace.model with
  | none => simp
  | some model =>
      cases db.workspace.dimensions with
      | none => simp
      | some width => simp

/-- A stamp that is not flagged is that of every vector. -/
theorem current_of_not_flagged (h : SpaceInv db) (hflags : flags db.workspace metadata = false) :
    db.workspace.reindexing = false ∧
      ∀ id v, db.vectors.get? id = some v → v.Of metadata := by
  have hgate : db.workspace.reindexing = false := by
    by_contra hgate
    rw [Bool.not_eq_false] at hgate
    simp [flags, isListed, isStampedWithOtherEmbedding, hgate] at hflags
  refine ⟨hgate, fun id v hv => ?_⟩
  rcases h.uniform hgate with hnone | ⟨model, dimensions, hmodel, hdimensions, hall⟩
  · rw [hnone id] at hv
    cases hv
  · obtain ⟨hlength, hof⟩ := hall id v hv
    have hkept : ¬∃ model, db.workspace.model = some model ∧ (model ≠ metadata.model ∨
        ∀ width, db.workspace.dimensions = some width →
          toUsize width ≠ some metadata.dimensions) := by
      rw [← flags_iff hgate, hflags]
      exact Bool.false_ne_true
    push Not at hkept
    obtain ⟨hsame, width, hwidth, husize⟩ := hkept model hmodel
    rw [hdimensions] at hwidth
    cases hwidth
    rw [← hlength, toUsize_natCast] at husize
    exact ⟨hof.trans hsame, Option.some.inj husize⟩

/-- A stamp that is flagged while no reindex is due is that of no vector of the model. -/
theorem stale_of_flagged (h : SpaceInv db) (hgate : db.workspace.reindexing = false)
    (hflags : flags db.workspace metadata = true) {id : Uuid} {v : StoredVector}
    (hv : db.vectors.get? id = some v) : ¬v.Of metadata := by
  rintro ⟨hmodelOf, hlengthOf⟩
  obtain ⟨model, hmodel, hother⟩ := (flags_iff hgate).mp hflags
  rcases h.uniform hgate with hnone | ⟨model', dimensions, hmodel', hdimensions, hall⟩
  · rw [hnone id] at hv
    cases hv
  · obtain ⟨hlength, hof⟩ := hall id v hv
    rw [hmodel] at hmodel'
    cases hmodel'
    rcases hother with hne | hwidth
    · exact hne (hof.symm.trans hmodelOf)
    · refine hwidth dimensions hdimensions ?_
      rw [← hlength, hlengthOf, toUsize_natCast]

/-- A reindex that publishes under the model leaves a stamp that is not flagged. -/
theorem not_flagged_of_published {r : ReindexRun} (hphase : r.phase ≠ .published)
    (hpublished : (reindexNext schemas display db r).2 = .published)
    (hmodel : r.provider.modelName = metadata.model)
    (hdimensions : r.provider.dimensions = metadata.dimensions) :
    flags (reindexNext schemas display db r).1.workspace metadata = false := by
  obtain ⟨p, phase, overtaken⟩ := r
  cases phase with
  | loaded revision contentRevision ids records =>
      simp only [reindexNext] at hpublished ⊢
      split at hpublished
      · split at hpublished
        · rename_i db' hdb'
          dsimp only
          obtain ⟨_, -, hdb'⟩ := Except.bind_eq_ok.mp hdb'
          split_ifs at hdb'
          obtain ⟨written, -, hdb'⟩ := Except.bind_eq_ok.mp hdb'
          obtain ⟨dimensions, hcolumn, hdb'⟩ := Except.bind_eq_ok.mp hdb'
          cases hdb'
          unfold dimensionsColumn at hcolumn
          split_ifs at hcolumn
          cases hcolumn
          dsimp only at hmodel hdimensions
          simp [flags, isListed, isStampedWithOtherEmbedding, restamp, hmodel, hdimensions,
            toUsize_natCast]
        · cases hpublished
      · cases hpublished
  | published => exact absurd rfl hphase
  | started =>
      simp only [reindexNext] at hpublished
      split at hpublished <;> cases hpublished
  | fenced revision contentRevision => cases hpublished
  | listed revision contentRevision ids => cases hpublished
  | failed failures => cases hpublished
  | aborted e => cases hpublished

end Stamps

/-- **Stamps and vectors.** In every state that the writers of a workspace can leave, whatever model
is configured: a workspace that is not flagged has no vector of another model; one that is flagged
while no reindex is due has none of the model; and a reindex that publishes with the model leaves it
unflagged. -/
theorem flags_reachable (schemas : Schemas) (display : Json → String) (tenant : TenantEmbedding)
    (labels : List EmbeddingLabel) (metadata : EmbeddingMetadata) :
    let s := run (embeddingStep schemas display) (.new tenant) labels
    (flags s.db.workspace metadata = false → s.db.workspace.reindexing = false ∧
        ∀ id v, s.db.vectors.get? id = some v → v.Of metadata) ∧
      (flags s.db.workspace metadata = true → s.db.workspace.reindexing = false →
        ∀ id v, s.db.vectors.get? id = some v → ¬v.Of metadata) ∧
      ∀ r ∈ s.reindexes, r.phase ≠ .published →
        (reindexNext schemas display s.db r).2 = .published →
          r.provider.modelName = metadata.model → r.provider.dimensions = metadata.dimensions →
            flags (reindexNext schemas display s.db r).1.workspace metadata = false := by
  intro s
  have h : EmbeddingInv s := embeddingInv_run schemas display (embeddingInv_new tenant) labels
  refine ⟨fun hflags => current_of_not_flagged h.space hflags, fun hflags hgate id v hv => ?_,
    fun r _ hphase hpublished hmodel hdimensions => ?_⟩
  · exact stale_of_flagged h.space hgate hflags hv
  · exact not_flagged_of_published hphase hpublished hmodel hdimensions

/-! ## Scans -/

/-- The database of a workspace is one that its writers can leave. -/
def ReachableEmbedding (db : EmbeddingDb) : Prop :=
  ∃ (schemas : Schemas) (display : Json → String) (tenant : TenantEmbedding)
    (labels : List EmbeddingLabel),
    db = (run (embeddingStep schemas display) (.new tenant) labels).db

/-- The workspaces and the queue. -/
structure ScanDb where
  workspaces : OrderedMap Uuid EmbeddingDb
  queue : QueueDb
  reachable : ∀ id db, workspaces.get? id = some db → ReachableEmbedding db

/-- What the calls of a step return: its statement, the worker class of the workspace, and the
dispatch with its commit. -/
structure ScanGiven where
  statement : Except String Unit
  workerClass : Except String WorkerClass
  dispatch : DispatchGiven
  commit : CommitOutcome

/-- What came of a workspace that was listed. -/
inductive ScanOutcome where
  | current
  | active
  | enqueued (lifecycleId : Uuid)
  | failed (message : String)
deriving DecidableEq, Repr

/-- Where a scan stands: `checking` and `dispatching` are about the workspace that they name. -/
inductive ScanPhase where
  | started
  | scanning (rest : List (Uuid × WorkspaceEmbedding))
  | checking (id : Uuid) (rest : List (Uuid × WorkspaceEmbedding))
  | dispatching (id : Uuid) (rest : List (Uuid × WorkspaceEmbedding))
  | refused (message : String)

/-- A run of `run_metadata_scan`, with the database it has listed the workspaces in, the rows that it
listed and what came of them so far. -/
structure Scan where
  listedIn : Option ScanDb
  listed : List (Uuid × WorkspaceEmbedding)
  outcomes : List (Uuid × ScanOutcome)
  phase : ScanPhase

/-- A scan that has not begun. -/
def Scan.start : Scan := ⟨none, [], [], .started⟩

/-- The workspaces that are still to come. -/
def ScanPhase.remaining : ScanPhase → List Uuid
  | .started | .refused _ => []
  | .scanning rest => rest.map Prod.fst
  | .checking id rest | .dispatching id rest => id :: rest.map Prod.fst

/-- The scan goes on to the next workspace. -/
def Scan.settle (scan : Scan) (id : Uuid) (outcome : ScanOutcome)
    (rest : List (Uuid × WorkspaceEmbedding)) : Scan :=
  { scan with outcomes := scan.outcomes ++ [(id, outcome)], phase := .scanning rest }

/-- The rows of `stamped_for_reindex`. -/
def stampedForReindex (db : ScanDb) : List (Uuid × WorkspaceEmbedding) :=
  (db.workspaces.entries.filter fun e => isListed e.2.workspace).map fun e => (e.1, e.2.workspace)

/-- `has_active_reindex`. -/
def hasActiveReindex (queue : QueueDb) (id : Uuid) : Bool :=
  queue.lifecycles.rows.entries.any fun e =>
    (decide (e.2.jobName = "reindex") || decide (e.2.jobName = "startup_reindex")) &&
      decide (e.2.workspaceId = some id) && e.2.status.active

/-- `resolve_workspace_metadata`; a workspace that is gone has no provider key. -/
def resolveWorkspaceMetadata (settings : EmbeddingSettings) (db : ScanDb) (id : Uuid) :
    Except String (Option EmbeddingMetadata) :=
  effectiveEmbeddingMetadata ((db.workspaces.get? id).bind EmbeddingDb.key) settings

/-- The message of a failure. -/
def failureMessage (id : Uuid) (err : String) : String :=
  "workspace " ++ id.toString ++ ": " ++ err

/-- `enqueue_for_class` for the workspace: what it returns, and the queue it leaves. -/
def enqueueStartup (texts : Texts) (given : ScanGiven) (queue : QueueDb) (id : Uuid) :
    Except String Uuid × QueueDb :=
  match given.workerClass with
  | .error err => (.error (failureMessage id err), queue)
  | .ok workerClass =>
      let args : ReindexArgs :=
        { lifecycleId := none, workspaceId := id, workerClass := workerClass, startup := true }
      match dispatchReindex texts given.dispatch queue args with
      -- a refusal is recorded outside of a transaction
      | (.error err, queue) => (.error (failureMessage id err), queue)
      | (.ok lifecycleId, after) =>
          match given.commit with
          | .committed => (.ok lifecycleId, after)
          | .failed err applied =>
              (.error (failureMessage id err), if applied then after else queue)

/-- The next statement or transaction of a scan. -/
def scanNext (texts : Texts) (settings : EmbeddingSettings) (given : ScanGiven) (db : ScanDb)
    (scan : Scan) : ScanDb × Scan :=
  match scan.phase with
  | .started =>
      match given.statement with
      | .error err => (db, { scan with phase := .refused err })
      | .ok () =>
          let rows := stampedForReindex db
          (db, { scan with listedIn := some db, listed := rows, phase := .scanning rows })
  | .scanning [] => (db, scan)
  | .scanning ((id, row) :: rest) =>
      match given.statement, resolveWorkspaceMetadata settings db id with
      | .error err, _ => (db, scan.settle id (.failed (failureMessage id err)) rest)
      | .ok (), .error err => (db, scan.settle id (.failed (failureMessage id err)) rest)
      | .ok (), .ok none => (db, scan.settle id .current rest)
      | .ok (), .ok (some metadata) =>
          if isStampedWithOtherEmbedding row metadata.model metadata.dimensions then
            (db, { scan with phase := .checking id rest })
          else (db, scan.settle id .current rest)
  | .checking id rest =>
      match given.statement with
      | .error err =>
          (db, scan.settle id (.failed (failureMessage id (failureMessage id err))) rest)
      | .ok () =>
          if hasActiveReindex db.queue id then (db, scan.settle id .active rest)
          else (db, { scan with phase := .dispatching id rest })
  | .dispatching id rest =>
      match enqueueStartup texts given db.queue id with
      | (.ok lifecycleId, queue) =>
          ({ db with queue := queue }, scan.settle id (.enqueued lifecycleId) rest)
      | (.error err, queue) =>
          ({ db with queue := queue }, scan.settle id (.failed (failureMessage id err)) rest)
  | .refused _ => (db, scan)

/-- The failures of a scan. -/
def Scan.failures (scan : Scan) : List String :=
  scan.outcomes.filterMap fun e =>
    match e.2 with
    | .failed message => some message
    | _ => none

/-- What a scan that has come to its end returns. -/
def Scan.result (scan : Scan) : Option (Except String Unit) :=
  match scan.phase with
  | .refused message => some (.error message)
  | .scanning [] =>
      if scan.failures.isEmpty then some (.ok ())
      else some (.error ("startup reindex metadata scan failed: " ++
        "; ".intercalate scan.failures))
  | _ => none

/-- The database, and the scans of all workers. -/
structure ScanState where
  db : ScanDb
  scans : List Scan

/-- A step of the system: a scan begins or goes on, or anything else happens to the database. -/
inductive ScanLabel where
  | start
  | scan (k : Nat) (given : ScanGiven)
  | other (db : ScanDb)

/-- The state after a label. -/
def scanStep (texts : Texts) (settings : EmbeddingSettings) (s : ScanState) :
    ScanLabel → ScanState
  | .start => { s with scans := s.scans ++ [.start] }
  | .scan k given =>
      match s.scans[k]? with
      | some scan =>
          { db := (scanNext texts settings given s.db scan).1
            scans := s.scans.set k (scanNext texts settings given s.db scan).2 }
      | none => s
  | .other db => { s with db := db }

/-! ## What scans account for -/

/-- The databases that a run goes through. -/
def ScanVisited (texts : Texts) (settings : EmbeddingSettings) (start : ScanDb)
    (labels : List ScanLabel) (db : ScanDb) : Prop :=
  ∃ before, before <+: labels ∧ db = (run (scanStep texts settings) ⟨start, []⟩ before).db

section Accounts

variable (visited : ScanDb → Prop) (settings : EmbeddingSettings)

/-- A model was configured for the workspace, and the stamp that was listed is another. -/
def FoundStale (id : Uuid) (row : WorkspaceEmbedding) : Prop :=
  ∃ db metadata, visited db ∧ resolveWorkspaceMetadata settings db id = .ok (some metadata) ∧
    flags row metadata = true

/-- No model was configured for the workspace, or every vector that it had when it was listed is of
that model. -/
def FoundCurrent (id : Uuid) (w : EmbeddingDb) : Prop :=
  ∃ db, visited db ∧ (resolveWorkspaceMetadata settings db id = .ok none ∨
    ∃ metadata, resolveWorkspaceMetadata settings db id = .ok (some metadata) ∧
      w.workspace.reindexing = false ∧ ∀ l v, w.vectors.get? l = some v → v.Of metadata)

/-- A reindex of the workspace was queued, running or to be retried. -/
def SeenActive (id : Uuid) : Prop := ∃ db, visited db ∧ hasActiveReindex db.queue id = true

/-- What the outcome of a workspace stands for. -/
def Accounted (id : Uuid) (w : EmbeddingDb) : ScanOutcome → Prop
  | .current => FoundCurrent visited settings id w
  | .active | .enqueued _ => FoundStale visited settings id w.workspace ∧ SeenActive visited id
  | .failed _ => True

/-- The workspace in the database that the scan listed the workspaces in. -/
def ListedAs (listedIn : Option ScanDb) (id : Uuid) (w : EmbeddingDb) : Prop :=
  ∃ db, listedIn = some db ∧ db.workspaces.get? id = some w ∧ isListed w.workspace = true

/-- **What a scan has done.** It comes by every workspace that it listed, in order, whatever fails,
and accounts for it. A scan that returns without an error has come by all of them. -/
structure ScanAccounts (scan : Scan) : Prop where
  listing : ∀ db, scan.listedIn = some db → visited db ∧ scan.listed = stampedForReindex db
  order : scan.outcomes.map Prod.fst ++ scan.phase.remaining = scan.listed.map Prod.fst
  outcomes : ∀ id outcome, (id, outcome) ∈ scan.outcomes →
    ∃ w, ListedAs scan.listedIn id w ∧ Accounted visited settings id w outcome
  ended : scan.result = some (.ok ()) → ∀ id ∈ scan.listed.map Prod.fst,
    ∃ outcome, (id, outcome) ∈ scan.outcomes ∧ ∀ message, outcome ≠ .failed message

/-- What a scan knows of the workspaces that are still to come. -/
def Stands (listedIn : Option ScanDb) : ScanPhase → Prop
  | .started | .refused _ => True
  | .scanning rest => ∀ e ∈ rest, ∃ w, ListedAs listedIn e.1 w ∧ w.workspace = e.2
  | .checking id rest | .dispatching id rest =>
      (∃ w, ListedAs listedIn id w ∧ FoundStale visited settings id w.workspace) ∧
        ∀ e ∈ rest, ∃ w, ListedAs listedIn e.1 w ∧ w.workspace = e.2

/-- The invariant of a scan. -/
structure ScanInv (scan : Scan) : Prop where
  listing : ∀ db, scan.listedIn = some db → visited db ∧ scan.listed = stampedForReindex db
  order : scan.outcomes.map Prod.fst ++ scan.phase.remaining = scan.listed.map Prod.fst
  outcomes : ∀ id outcome, (id, outcome) ∈ scan.outcomes →
    ∃ w, ListedAs scan.listedIn id w ∧ Accounted visited settings id w outcome
  fresh : scan.phase = .started → scan.outcomes = []
  stands : Stands visited settings scan.listedIn scan.phase

end Accounts

section Scans

variable {visited visited' : ScanDb → Prop} {texts : Texts} {settings : EmbeddingSettings}
  {given : ScanGiven} {db : ScanDb} {scan : Scan}

theorem FoundStale.mono (hmono : ∀ db, visited db → visited' db) {id : Uuid}
    {row : WorkspaceEmbedding} (h : FoundStale visited settings id row) :
    FoundStale visited' settings id row := by
  obtain ⟨db, metadata, hdb, hrest⟩ := h
  exact ⟨db, metadata, hmono db hdb, hrest⟩

theorem SeenActive.mono (hmono : ∀ db, visited db → visited' db) {id : Uuid}
    (h : SeenActive visited id) : SeenActive visited' id := by
  obtain ⟨db, hdb, hactive⟩ := h
  exact ⟨db, hmono db hdb, hactive⟩

theorem Accounted.mono (hmono : ∀ db, visited db → visited' db) {id : Uuid} {w : EmbeddingDb}
    {outcome : ScanOutcome} (h : Accounted visited settings id w outcome) :
    Accounted visited' settings id w outcome := by
  cases outcome with
  | current =>
      obtain ⟨db, hdb, hrest⟩ := h
      exact ⟨db, hmono db hdb, hrest⟩
  | active => exact ⟨h.1.mono hmono, h.2.mono hmono⟩
  | enqueued lifecycleId => exact ⟨h.1.mono hmono, h.2.mono hmono⟩
  | failed message => trivial

theorem Stands.mono (hmono : ∀ db, visited db → visited' db) {listedIn : Option ScanDb}
    {phase : ScanPhase} (h : Stands visited settings listedIn phase) :
    Stands visited' settings listedIn phase := by
  have hthis : ∀ {id : Uuid},
      (∃ w, ListedAs listedIn id w ∧ FoundStale visited settings id w.workspace) →
        ∃ w, ListedAs listedIn id w ∧ FoundStale visited' settings id w.workspace :=
    fun ⟨w, hw, hstale⟩ => ⟨w, hw, hstale.mono hmono⟩
  cases phase with
  | started => trivial
  | scanning rest => exact h
  | checking id rest => exact ⟨hthis h.1, h.2⟩
  | dispatching id rest => exact ⟨hthis h.1, h.2⟩
  | refused message => trivial

theorem ScanInv.mono (hmono : ∀ db, visited db → visited' db) (h : ScanInv visited settings scan) :
    ScanInv visited' settings scan where
  listing := fun db hdb => ⟨hmono db (h.listing db hdb).1, (h.listing db hdb).2⟩
  order := h.order
  outcomes := by
    intro id outcome houtcome
    obtain ⟨w, hw, haccounted⟩ := h.outcomes id outcome houtcome
    exact ⟨w, hw, haccounted.mono hmono⟩
  fresh := h.fresh
  stands := h.stands.mono hmono

theorem scanInv_start : ScanInv visited settings .start :=
  ⟨fun _ h => (by cases h), rfl, fun _ _ h => (by cases h), fun _ => rfl, trivial⟩

/-- A workspace is settled, and the scan goes on. -/
theorem ScanInv.settle {id : Uuid} {outcome : ScanOutcome}
    {rest : List (Uuid × WorkspaceEmbedding)} (h : ScanInv visited settings scan)
    (hremaining : scan.phase.remaining = id :: rest.map Prod.fst)
    (hthis : ∃ w, ListedAs scan.listedIn id w ∧ Accounted visited settings id w outcome)
    (hrest : ∀ e ∈ rest, ∃ w, ListedAs scan.listedIn e.1 w ∧ w.workspace = e.2) :
    ScanInv visited settings (scan.settle id outcome rest) where
  listing := h.listing
  order := by
    have horder := h.order
    rw [hremaining] at horder
    simpa [Scan.settle, ScanPhase.remaining] using horder
  outcomes := by
    intro l o hmem
    rcases List.mem_append.mp hmem with hmem | hmem
    · exact h.outcomes l o hmem
    · cases List.mem_singleton.mp hmem
      exact hthis
  fresh := fun hphase => by cases hphase
  stands := hrest

/-- A dispatch that returns an identifier has queued a startup reindex of the workspace. -/
theorem lifecycle_of_dispatchReindex {given : DispatchGiven} {queue queue' : QueueDb}
    {id lifecycleId : Uuid} {workerClass : WorkerClass}
    (h : dispatchReindex texts given queue ⟨none, id, workerClass, true⟩ =
      (.ok lifecycleId, queue')) :
    ∃ e : Queue.Enqueue, e.jobName = "startup_reindex" ∧ e.workspaceId = some id ∧
      queue'.lifecycles.get? lifecycleId = some (e.row given.now) := by
  rcases Queue.dispatchJob_cases (ReindexArgs.spec ⟨none, id, workerClass, true⟩) given.lifecycleId
      given.target given.policy with
    ⟨diagnostic, hrefused⟩ | ⟨e, job, hjob, hid, hname, hworkspace, -, -⟩
  · simp [dispatchReindex, hrefused, Queue.refuse] at h
  · simp only [dispatchReindex, hjob] at h
    split at h
    · cases h
    · cases h
    · rename_i queue₁ hrecord
      cases h
      obtain ⟨-, -, hlifecycles, -⟩ := Queue.recordInTransaction_eq_ok hrecord
      rw [hid] at hlifecycles
      exact ⟨e, hname, hworkspace, hlifecycles.get?_self⟩

/-- What a dispatch has returned an identifier for is active. -/
theorem active_of_enqueueStartup {queue queue' : QueueDb} {id lifecycleId : Uuid}
    (h : enqueueStartup texts given queue id = (.ok lifecycleId, queue')) :
    hasActiveReindex queue' id = true := by
  unfold enqueueStartup at h
  split at h
  · cases h
  · rename_i workerClass hclass
    dsimp only at h
    split at h
    · cases h
    · rename_i dispatched after hdispatch
      split at h
      · cases h
        obtain ⟨e, hname, hworkspace, hlifecycle⟩ := lifecycle_of_dispatchReindex hdispatch
        refine List.any_eq_true.mpr ⟨_, (OrderedMap.mem_entries_iff _ _ _).mpr hlifecycle, ?_⟩
        simp [hname, hworkspace, Queue.Enqueue.row, Queue.LifecycleStatus.active]
      · cases h

/-- The rows that a scan lists. -/
theorem mem_stampedForReindex {id : Uuid} {row : WorkspaceEmbedding}
    (h : (id, row) ∈ stampedForReindex db) :
    ∃ w, db.workspaces.get? id = some w ∧ isListed w.workspace = true ∧ w.workspace = row := by
  obtain ⟨⟨l, w⟩, hmem, heq⟩ := List.mem_map.mp h
  cases heq
  obtain ⟨hentry, hlisted⟩ := List.mem_filter.mp hmem
  exact ⟨w, (OrderedMap.mem_entries_iff _ _ _).mp hentry, hlisted, rfl⟩

/-- A stamp that is not another one, found with the model that is configured. -/
theorem foundCurrent_of_stamp (hdb : visited db) {id : Uuid} {w : EmbeddingDb}
    {listedIn : Option ScanDb} (hw : ListedAs listedIn id w) {metadata : EmbeddingMetadata}
    (hmetadata : resolveWorkspaceMetadata settings db id = .ok (some metadata))
    (hother : isStampedWithOtherEmbedding w.workspace metadata.model metadata.dimensions = false) :
    FoundCurrent visited settings id w := by
  obtain ⟨seen, -, hget, -⟩ := hw
  obtain ⟨schemas, display, tenant, labels, rfl⟩ := seen.reachable id w hget
  have h : EmbeddingInv _ := embeddingInv_run schemas display (embeddingInv_new tenant) labels
  have hflags : flags (run (embeddingStep schemas display) (.new tenant) labels).db.workspace
      metadata = false := by
    unfold flags
    rw [hother, Bool.and_false]
  exact ⟨db, hdb, Or.inr ⟨metadata, hmetadata, current_of_not_flagged h.space hflags⟩⟩

/-- **Step lemma.** The next step of a scan keeps its account. -/
theorem ScanInv.next (h : ScanInv visited settings scan) (hdb : visited db)
    (hnext : visited (scanNext texts settings given db scan).1) :
    ScanInv visited settings (scanNext texts settings given db scan).2 := by
  obtain ⟨listedIn, listed, outcomes, phase⟩ := scan
  cases phase with
  | started =>
      have hnone : outcomes = [] := h.fresh rfl
      subst hnone
      simp only [scanNext]
      split
      · exact ⟨h.listing, h.order, h.outcomes, nofun, trivial⟩
      -- what is listed now stands for the whole scan
      · refine ⟨fun seen hseen => ?_, rfl, fun _ _ hmem => (by cases hmem), nofun, fun e he => ?_⟩
        · cases hseen
          exact ⟨hdb, rfl⟩
        · obtain ⟨w, hget, hlisted, hrow⟩ := mem_stampedForReindex he
          exact ⟨w, ⟨db, rfl, hget, hlisted⟩, hrow⟩
  | scanning rest =>
      cases rest with
      | nil => exact h
      | cons e rest =>
          obtain ⟨id, row⟩ := e
          obtain ⟨w, hw, rfl⟩ := h.stands (id, row) List.mem_cons_self
          have hrest := fun e he => h.stands e (List.mem_cons_of_mem _ he)
          have hsettle := fun outcome (haccounted : Accounted visited settings id w outcome) =>
            h.settle rfl ⟨w, hw, haccounted⟩ hrest
          simp only [scanNext]
          split
          · exact hsettle _ trivial
          · exact hsettle _ trivial
          · rename_i hmetadata
            exact hsettle .current ⟨db, hdb, Or.inl hmetadata⟩
          · rename_i metadata _ hmetadata
            split_ifs with hother
            · refine ⟨h.listing, h.order, h.outcomes, nofun, ?_, hrest⟩
              have hlisted : isListed w.workspace = true := by
                obtain ⟨_, _, _, hlisted⟩ := hw
                exact hlisted
              refine ⟨w, hw, db, metadata, hdb, hmetadata, ?_⟩
              rw [flags, hlisted, hother]
              rfl
            · exact hsettle .current
                (foundCurrent_of_stamp hdb hw hmetadata (Bool.eq_false_iff.mpr hother))
  | checking id rest =>
      obtain ⟨⟨w, hw, hstale⟩, hrest⟩ := h.stands
      simp only [scanNext]
      split
      · exact h.settle rfl ⟨w, hw, trivial⟩ hrest
      · split_ifs with hactive
        · exact h.settle rfl ⟨w, hw, hstale, db, hdb, hactive⟩ hrest
        · exact ⟨h.listing, h.order, h.outcomes, nofun, ⟨w, hw, hstale⟩, hrest⟩
  | dispatching id rest =>
      obtain ⟨⟨w, hw, hstale⟩, hrest⟩ := h.stands
      simp only [scanNext] at hnext ⊢
      cases henqueue : enqueueStartup texts given db.queue id with
      | mk result queue =>
          rw [henqueue] at hnext
          cases result with
          | error err => exact h.settle rfl ⟨w, hw, trivial⟩ hrest
          | ok lifecycleId =>
              exact h.settle rfl
                ⟨w, hw, hstale, _, hnext, active_of_enqueueStartup henqueue⟩ hrest
  | refused message => exact h

/-- What the invariant says at the end. -/
theorem ScanInv.accounts (h : ScanInv visited settings scan) :
    ScanAccounts visited settings scan where
  listing := h.listing
  order := h.order
  outcomes := h.outcomes
  ended := by
    intro hresult id hid
    obtain ⟨listedIn, listed, outcomes, phase⟩ := scan
    unfold Scan.result at hresult
    split at hresult
    · cases hresult
    · rename_i hphase
      split_ifs at hresult with hnone
      · have horder := h.order
        rw [hphase, ScanPhase.remaining, List.map_nil, List.append_nil] at horder
        rw [← horder] at hid
        obtain ⟨⟨l, outcome⟩, hmem, rfl⟩ := List.mem_map.mp hid
        refine ⟨outcome, hmem, ?_⟩
        rintro message rfl
        have hfailure : message ∈ Scan.failures ⟨listedIn, listed, outcomes, phase⟩ :=
          List.mem_filterMap.mpr ⟨(l, .failed message), hmem, rfl⟩
        rw [List.isEmpty_iff.mp hnone] at hfailure
        cases hfailure
      · cases hresult
    · cases hresult

end Scans

/-! ## Runs -/

section Runs

variable {texts : Texts} {settings : EmbeddingSettings} {start : ScanDb}

theorem scanVisited_mono {labels : List ScanLabel} {label : ScanLabel} (db : ScanDb)
    (h : ScanVisited texts settings start labels db) :
    ScanVisited texts settings start (labels ++ [label]) db := by
  obtain ⟨before, hbefore, hdb⟩ := h
  exact ⟨before, hbefore.trans (List.prefix_append labels [label]), hdb⟩

theorem scanVisited_end (labels : List ScanLabel) :
    ScanVisited texts settings start labels
      (run (scanStep texts settings) ⟨start, []⟩ labels).db :=
  ⟨labels, List.prefix_refl labels, rfl⟩

theorem scanInv_run (labels : List ScanLabel) :
    ∀ scan ∈ (run (scanStep texts settings) ⟨start, []⟩ labels).scans,
      ScanInv (ScanVisited texts settings start labels) settings scan := by
  induction labels using List.reverseRecOn with
  | nil =>
      intro scan hscan
      cases hscan
  | append_singleton labels label ih =>
      have hnow : ScanVisited texts settings start labels _ := scanVisited_end labels
      have hnext : ScanVisited texts settings start (labels ++ [label]) _ :=
        scanVisited_end (labels ++ [label])
      intro scan hscan
      rw [run_append] at hscan hnext
      cases label with
      | start =>
          rcases List.mem_append.mp hscan with hscan | hscan
          · exact (ih scan hscan).mono scanVisited_mono
          · rw [List.mem_singleton.mp hscan]
            exact scanInv_start
      | scan k given =>
          simp only [run, scanStep] at hscan hnext
          split at hscan
          · rename_i scan' hk
            rw [hk] at hnext
            rcases List.mem_or_eq_of_mem_set hscan with hscan | rfl
            · exact (ih scan hscan).mono scanVisited_mono
            · exact ((ih scan' (List.mem_of_getElem? hk)).mono scanVisited_mono).next
                (scanVisited_mono _ hnow) hnext
          · exact (ih scan hscan).mono scanVisited_mono
      | other db => exact (ih scan hscan).mono scanVisited_mono

/-- **Scans.** However scans run beside each other and beside whatever else happens to the
workspaces and the queue: a scan comes by every workspace that it listed, and one that returns
without an error has seen for each of them that no model is configured for it, that all vectors it
had in the database the scan listed it in are of the model, or that a reindex of it is active. -/
theorem scan_accounts (texts : Texts) (settings : EmbeddingSettings) (start : ScanDb)
    (labels : List ScanLabel) :
    ∀ scan ∈ (run (scanStep texts settings) ⟨start, []⟩ labels).scans,
      ScanAccounts (ScanVisited texts settings start labels) settings scan :=
  fun scan hscan => (scanInv_run labels scan hscan).accounts

end Runs

/-! ### A workspace that is stamped with another model -/

/-- The workspace has been indexed with the model `ada`. -/
def indexedWithAda : EmbeddingDb :=
  (run (embeddingStep Table.empty fun _ => "") (.new ⟨true, none, none⟩)
    [.startReindex (lengthProvider "ada"), .reindex 0, .reindex 0, .reindex 0, .reindex 0]).db

/-- It is the only workspace, and nothing is queued. -/
def adaWorkspace : ScanDb where
  workspaces := OrderedMap.ofList [(1, indexedWithAda)]
  queue := QueueDb.empty
  reachable := by
    intro id db h
    rcases OrderedMap.get?_insert_eq_some h with ⟨-, rfl⟩ | ⟨-, h⟩
    · exact ⟨_, _, _, _, rfl⟩
    · cases h

/-- The deployment is configured for the model `bge`. -/
def bgeSettings : EmbeddingSettings where
  provider := .openai
  dimensions := 1
  baseUrl := some "http://localhost"
  model := some "bge"
  localModel := ""

/-- Every call succeeds, and the lifecycle gets the number 5. -/
def succeeding : ScanGiven where
  statement := .ok ()
  workerClass := .ok .shared
  dispatch :=
    { lifecycleId := 5
      target := .ok ⟨"worker-target:shared", "shared"⟩
      policy := .ok ⟨"free", none⟩
      now := 0
      record := .ok () }
  commit := .committed

/-- One scan from its beginning to its end. -/
def wholeScan : ScanState :=
  run (scanStep ⟨id, fun _ => ""⟩ bgeSettings) ⟨adaWorkspace, []⟩
    [.start, .scan 0 succeeding, .scan 0 succeeding, .scan 0 succeeding, .scan 0 succeeding]

/-- The reindex has been enqueued, and the scan returns without an error. -/
theorem scan_accounts_indexedWithAda : ∃ scan ∈ wholeScan.scans,
    scan.outcomes = [(1, .enqueued 5)] ∧ scan.result = some (.ok ()) ∧
      ScanAccounts (ScanVisited ⟨id, fun _ => ""⟩ bgeSettings adaWorkspace
        [.start, .scan 0 succeeding, .scan 0 succeeding, .scan 0 succeeding, .scan 0 succeeding])
        bgeSettings scan := by
  have hsome : wholeScan.scans[0]?.isSome = true := by decide
  obtain ⟨scan, hscan⟩ := Option.isSome_iff_exists.mp hsome
  have houtcomes : wholeScan.scans[0]?.map Scan.outcomes = some [(1, .enqueued 5)] := by
    decide
  have hresult : wholeScan.scans[0]?.bind Scan.result = some (.ok ()) := by rfl
  rw [hscan] at houtcomes hresult
  have hmem := List.mem_of_getElem? hscan
  exact ⟨scan, hmem, Option.some.inj houtcomes, hresult, scan_accounts _ _ _ _ scan hmem⟩

end Yorishiro.Embedding
