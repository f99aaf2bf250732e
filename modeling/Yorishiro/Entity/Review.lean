import Yorishiro.Entity.Recording
import Yorishiro.Entity.Undo
import Yorishiro.Schema.Sequence

/-!
# Infer-fill jobs, their review, and undo

The system of a workspace in which jobs change entities: attempts record proposals, reviewers
confirm, reject or discard them, workers fill defaults, and meanwhile everything else goes on.
`step` is one committed transaction of one of them.

`ReviewEffect` says once what a step can do, and `ReviewInv` is what every step keeps: the key of
the proposals, the version each was made for, and that a job with a settled proposal or a snapshot
is over. From it follow the results about confirmation and undo in every reachable state.
-/

set_option autoImplicit false

namespace Yorishiro.Entity

open Yorishiro.Lib Yorishiro.Lib.JsonSchema Yorishiro.Metaschema Yorishiro.Schema
open Yorishiro.Lib.Transition Yorishiro.Inference

/-! ## The system -/

/-- The database of a workspace, and the fills that its audit log has as completed. -/
structure ReviewState where
  workspace : WorkspaceState
  filled : List Uuid

abbrev ReviewState.store (s : ReviewState) : EntityStore := s.workspace.store

abbrev ReviewState.tables (s : ReviewState) : Tables := s.workspace.store.tables

/-- The state with other tables. -/
def ReviewState.withTables (s : ReviewState) (tables : Tables) : ReviewState :=
  { s with workspace := { s.workspace with store := { s.workspace.store with tables := tables } } }

/-- What happens to the row of an inference job. -/
inductive JobOp where
  | create (id : Uuid) (schemaName : String)
  | claim (id : Uuid)
  | reconcile (id : Uuid) (target : Int)
  | complete (id : Uuid) (attempt proposed skipped : Int)
  | fail (id : Uuid) (attempt : Int) (message : String)
  | retry (id : Uuid) (message : String) (attempt : Int)

/-- The operations on entities and schemas that neither fill nor confirm nor infer. -/
def Op.isPlain : Op → Bool
  | .run (.fillDefaults _) _ => false
  | .run (.confirm _ _) _ => false
  | .infer _ _ => false
  | _ => true

/-- One transaction. -/
inductive ReviewOp where
  | plain (op : { op : Op // op.isPlain = true })
  | job (op : JobOp)
  | record (schemaName : String) (target : Target) (attempt : Attempt)
  | reject (jobId : Uuid)
  | discard (jobId : Uuid)
  | confirm (jobId : Uuid) (updatedBy : Option Uuid) (stamps : Nat → Stamp)
  | fill (args : FillDefaultsArgs) (stamps : Nat → Stamp)

/-- The job table after the operation. -/
def JobOp.apply (cx : Context) (s : ReviewState) : JobOp → Except YorishiroError InferenceJobs
  | .create id schemaName =>
      -- identifiers of jobs are UUIDs, so a fill and an inference job have different ones
      if id ∈ s.filled then .error (.internal .uniqueViolation)
      else (Inference.create s.tables.jobs id cx.workspaceId schemaName).mapError .internal
  | .claim id => (claimAttempt s.tables.jobs id none).map Prod.fst
  | .reconcile id target => (reconcileAttempt s.tables.jobs id target).map Prod.fst
  | .complete id attempt proposed skipped =>
      ((completeProposalsAttempt s.tables.jobs id attempt proposed skipped).mapError
        .internal).map Prod.fst
  | .fail id attempt message =>
      ((failAttempt s.tables.jobs id attempt message).mapError .internal).map Prod.fst
  | .retry id message attempt =>
      ((Inference.retry s.tables.jobs id message attempt).mapError .internal).map Prod.fst

/-- `transition_pending`. -/
def transitionPending (tables : Tables) (jobId : Uuid) (status : ProposalStatus) : Tables :=
  { tables with
    proposals := tables.proposals.updateWhere (fun _ p => p.isPending jobId)
      fun p => { p with status := status } }

/-- `reject`. -/
def reject (cx : Context) (tables : Tables) (jobId : Uuid) : Except YorishiroError Tables := do
  requireCompletedJob cx tables jobId
  pure (transitionPending tables jobId .rejected)

/-- `discard`. -/
def discard (cx : Context) (tables : Tables) (jobId : Uuid) : Except YorishiroError Tables := do
  requireCompletedJob cx tables jobId
  pure (transitionPending tables jobId .discarded)

/-- The transaction of `perform_infer_fill` that records an attempt: the version it proposes for
must still be the active one. -/
def recordProposals (cx : Context) (backend : Backend) (tables : Tables) (schemaName : String)
    (target : Target) (attempt : Attempt) : Except YorishiroError Tables := do
  let current ← getActiveSchema tables.schemas schemaName
  if current.1 ≠ target.schemaId ∨ current.2.version ≠ target.schemaVersion then
    .error (.internal (.custom
      "active schema changed while infer-fill proposals were being generated"))
  else do
    let recorded := recordAttempt backend cx.workspaceId tables.jobs target tables.proposals attempt
    let _ ← recorded.1
    pure { tables with proposals := recorded.2 }

/-- `FillDefaultsWorker::fill`: a redelivery of a completed fill does nothing. -/
def fill (cx : Context) (s : ReviewState) (args : FillDefaultsArgs) (stamps : Nat → Stamp) :
    Except YorishiroError ReviewState :=
  if args.jobId ∈ s.filled then .ok s
  else if (s.tables.jobs.get? args.jobId).isSome then .error (.internal .uniqueViolation)
  else do
    let workspace ← (Op.run (.fillDefaults args) stamps).apply cx s.workspace
    pure { workspace := workspace, filled := args.jobId :: s.filled }

/-- What a transaction does, if it commits. -/
def ReviewOp.apply (cx : Context) (backend : Backend) (s : ReviewState) :
    ReviewOp → Except YorishiroError ReviewState
  | .plain op => do
      let workspace ← op.1.apply cx s.workspace
      pure { s with workspace := workspace }
  | .job op => do
      let jobs ← op.apply cx s
      pure (s.withTables { s.tables with jobs := jobs })
  | .record schemaName target attempt => do
      let tables ← recordProposals cx backend s.tables schemaName target attempt
      pure (s.withTables tables)
  | .reject jobId => do
      let tables ← Entity.reject cx s.tables jobId
      pure (s.withTables tables)
  | .discard jobId => do
      let tables ← Entity.discard cx s.tables jobId
      pure (s.withTables tables)
  | .confirm jobId updatedBy stamps => do
      let workspace ← (Op.run (.confirm jobId updatedBy) stamps).apply cx s.workspace
      pure { s with workspace := workspace }
  | .fill args stamps => Entity.fill cx s args stamps

/-- One transaction; one that fails leaves everything as it was. -/
def ReviewState.step (cx : Context) (backend : Backend) (s : ReviewState) (op : ReviewOp) :
    ReviewState :=
  match op.apply cx backend s with
  | .ok s' => s'
  | .error _ => s

/-- Before the first job: any entities and schemas, but no job, proposal or snapshot. -/
structure ReviewState.Unused (s : ReviewState) : Prop where
  jobs : s.tables.jobs = Table.empty
  proposals : s.tables.proposals = OrderedMap.empty
  snapshots : s.tables.snapshots = []
  filled : s.filled = []

/-- The state is reached by some transactions. -/
def ReviewState.Reachable (cx : Context) (backend : Backend) (s : ReviewState) : Prop :=
  ∃ start ops, ReviewState.Unused start ∧ s = run (ReviewState.step cx backend) start ops

/-! ## What a transaction does -/

/-- The job is completed, and none of its proposals is pending. -/
def Reviewed (tables : Tables) (jobId : Uuid) : Prop :=
  (∃ job, tables.jobs.get? jobId = some job ∧ job.status = .completed) ∧
    ∀ id p, tables.proposals.get? id = some p → p.jobId = jobId → p.status ≠ .pending

/-- The versions keep their numbers. -/
def KeepsVersions (a b : Schemas) : Prop :=
  ∀ id row, a.get? id = some row → ∃ row', b.get? id = some row' ∧ row'.version = row.version

/-- A completed job stays completed, and a new one is not a fill. -/
structure MovesJobs (filled : List Uuid) (a b : InferenceJobs) : Prop where
  completed : ∀ id job, a.get? id = some job → job.status = .completed → b.get? id = some job
  fresh : ∀ id, a.get? id = none → b.get? id ≠ none → id ∉ filled

/-- Recorded rows: each is pending, for a running job and a stored version, and has a key of its
own. -/
inductive Records (tables : Tables) : Proposals → Prop where
  | start : Records tables tables.proposals
  | insert {m m' : Proposals} {id : Uuid} {p : ProposalRecord} {job : InferenceJob}
      {row : SchemaRecord} (hm : Records tables m) (hinsert : Proposals.insertRow m id p = .ok m')
      (hjob : tables.jobs.get? p.jobId = some job) (hrunning : job.status = .running)
      (hrow : tables.schemas.get? p.schemaId = some row) (hversion : row.version = p.schemaVersion)
      (hpending : p.status = .pending) : Records tables m'

/-- What a transaction can do. -/
inductive ReviewEffect (s s' : ReviewState) : Prop where
  | plain (hjobs : s'.tables.jobs = s.tables.jobs)
      (hproposals : s'.tables.proposals = s.tables.proposals)
      (hsnapshots : s'.tables.snapshots = s.tables.snapshots) (hfilled : s'.filled = s.filled)
      (hversions : KeepsVersions s.tables.schemas s'.tables.schemas)
  | job (hjobs : MovesJobs s.filled s.tables.jobs s'.tables.jobs)
      (htables : s'.tables = { s.tables with jobs := s'.tables.jobs })
      (hfilled : s'.filled = s.filled)
  | record (hrecords : Records s.tables s'.tables.proposals)
      (htables : s'.tables = { s.tables with proposals := s'.tables.proposals })
      (hfilled : s'.filled = s.filled)
  -- confirming, rejecting or discarding: nothing of the job is pending afterwards
  | review (jobId : Uuid) (status : ProposalRecord → ProposalStatus)
      (taken : List EntitySnapshot)
      (hcompleted : ∃ job, s.tables.jobs.get? jobId = some job ∧ job.status = .completed)
      (hproposals : s'.tables.proposals = s.tables.proposals.updateWhere
        (fun _ p => p.isPending jobId) fun p => { p with status := status p })
      (hstatus : ∀ id p, s.tables.proposals.get? id = some p → p.isPending jobId = true →
        status p ≠ .pending)
      (hsnapshots : s'.tables.snapshots = s.tables.snapshots ++ taken)
      (htaken : ∀ snap ∈ taken, snap.jobId = jobId)
      (hjobs : s'.tables.jobs = s.tables.jobs) (hschemas : s'.tables.schemas = s.tables.schemas)
      (hfilled : s'.filled = s.filled)
  | fill (jobId : Uuid) (taken : List EntitySnapshot) (hnew : jobId ∉ s.filled)
      (hjob : s.tables.jobs.get? jobId = none)
      (htables : s'.tables = { s.tables with snapshots := s.tables.snapshots ++ taken })
      (htaken : ∀ snap ∈ taken, snap.jobId = jobId) (hfilled : s'.filled = jobId :: s.filled)
  | nothing (h : s' = s)

/-! ### Plain operations -/

/-- What reviews depend on is left, but for new versions. -/
structure KeepsReview (a b : Tables) : Prop where
  jobs : b.jobs = a.jobs
  proposals : b.proposals = a.proposals
  snapshots : b.snapshots = a.snapshots
  versions : KeepsVersions a.schemas b.schemas

theorem KeepsReview.of_eq {a b : Tables} (h : b = a) : KeepsReview a b := by
  subst h
  exact ⟨rfl, rfl, rfl, fun _ row hrow => ⟨row, hrow, rfl⟩⟩

theorem KeepsReview.trans {a b c : Tables} (hab : KeepsReview a b) (hbc : KeepsReview b c) :
    KeepsReview a c where
  jobs := hbc.jobs.trans hab.jobs
  proposals := hbc.proposals.trans hab.proposals
  snapshots := hbc.snapshots.trans hab.snapshots
  versions := by
    intro id row hrow
    obtain ⟨row', hrow', hversion⟩ := hab.versions id row hrow
    obtain ⟨row'', hrow'', hversion'⟩ := hbc.versions id row' hrow'
    exact ⟨row'', hrow'', hversion'.trans hversion⟩

section Plain

variable {cx : Context} {w w' : WorkspaceState}

theorem keepsReview_createSchema {tenantId : Uuid} {definition : MetaSchemaDefinition}
    {originTemplateId : Option Uuid} {originSnapshot : Option MetaSchemaDefinition} {id : Uuid}
    {now : Queue.Instant} {r : Schemas × Workspace × SchemaRecord × VersioningDiff}
    (h : createSchema cx.validator.env cx.showBound w.store.tables.schemas w.store.tables.workspace
      tenantId definition originTemplateId originSnapshot id now = .ok r) :
    KeepsReview w.store.tables (w.withSchemas r.1 r.2.1).store.tables := by
  refine ⟨rfl, rfl, rfl, fun l row hrow => ?_⟩
  obtain ⟨hinserted, -⟩ := createSchema_eq_ok h
  exact ⟨_, hinserted.get?_old hrow, retire_version _ row⟩

theorem keepsReview_archive {id : Uuid} {r : Schemas × SchemaRecord}
    (h : archive w.store.tables.schemas id = .ok r) :
    KeepsReview w.store.tables (w.withSchemas r.1 w.store.tables.workspace).store.tables := by
  refine ⟨rfl, rfl, rfl, fun l row hrow => ?_⟩
  have hget := archive_eq_ok h l
  rw [hrow, Option.map_some] at hget
  refine ⟨_, hget, ?_⟩
  split_ifs <;> rfl

theorem tables_createWithQuota {input : CreateEntityInput} {createdBy : Option Uuid}
    {quota : Option Int} {id : Uuid} {stamp : Stamp}
    (h : createWithQuota cx w input createdBy quota id stamp = .ok w') :
    w'.store.tables = w.store.tables := by
  obtain ⟨schema, -, -, rfl⟩ := createWithQuota_eq_ok.mp h
  rfl

theorem tables_createRelation {sourceId targetId : Uuid} {relationType : String}
    {properties : Json} {id : Uuid}
    (h : createRelation w sourceId targetId relationType properties id = .ok w') :
    w'.store.tables = w.store.tables := by
  obtain ⟨_, _, _, -, -, -, -, rfl⟩ := createRelation_eq_ok.mp h
  rfl

theorem keepsReview_importRecord {args : ImportArgs} {p : ImportProgress} {id : Uuid} {stamp : Stamp}
    {record : ExportRecord} {r : WorkspaceState × ImportProgress}
    (h : importRecord cx args w p id stamp record = .ok r) :
    KeepsReview w.store.tables r.1.store.tables := by
  cases record with
  | schema oldId definition =>
      obtain ⟨created, hcreated, h⟩ := Except.bind_eq_ok.mp h
      cases h
      exact keepsReview_createSchema hcreated
  | entity oldId schemaId entityType data =>
      obtain ⟨resolved, -, h⟩ := Except.bind_eq_ok.mp h
      obtain ⟨w', hcreated, h⟩ := Except.bind_eq_ok.mp h
      cases h
      exact .of_eq (tables_createWithQuota hcreated)
  | relation sourceId targetId relationType properties =>
      obtain ⟨w', hcreated, h⟩ := Except.bind_eq_ok.mp h
      cases h
      exact .of_eq (tables_createRelation hcreated)

theorem keepsReview_importLines {args : ImportArgs} {given : Nat → Uuid × Stamp}
    {lines : List (ImportLine × Nat)} {state r : WorkspaceState × ImportProgress}
    (h : lines.foldlM (importLine cx args given) state = .ok r) :
    KeepsReview state.1.store.tables r.1.store.tables := by
  induction lines generalizing state with
  | nil =>
      cases h
      exact .of_eq rfl
  | cons line lines ih =>
      rw [List.foldlM_cons] at h
      obtain ⟨state', hline, h⟩ := Except.bind_eq_ok.mp h
      refine KeepsReview.trans ?_ (ih h)
      unfold importLine at hline
      split at hline
      · cases hline
        exact .of_eq rfl
      · cases hline
      · exact keepsReview_importRecord (Except.mapError_eq_ok hline)

/-- A transaction that commits leaves what its program says. -/
theorem run_apply_ends {ρ : Type} {job : Job} {stamps : Nat → Stamp} {p : EntityProg ρ}
    {f : ρ → Reply} (hcode : code cx job = p >>= fun r => pure (f r)) {err : YorishiroError → Prop}
    {post : ρ → EntityStore → Prop} (hends : p.ends err post w.store)
    (h : (Op.run job stamps).apply cx w = .ok w') :
    ∃ r, p.alone stamps 0 w.store = .ok (r, w'.store) ∧ post r w'.store := by
  obtain ⟨done, hdone, h⟩ := Except.bind_eq_ok.mp h
  cases h
  rw [hcode, Prog.alone_bind_pure] at hdone
  obtain ⟨⟨r, store⟩, halone, rfl⟩ := Except.map_eq_ok hdone
  exact ⟨r, halone, (Prog.ends_sound hends).1 r store halone⟩

/-- **Plain operations.** -/
theorem keepsReview_plain {op : Op} (hplain : op.isPlain = true) (h : op.apply cx w = .ok w') :
    KeepsReview w.store.tables w'.store.tables := by
  cases op with
  | createSchema tenantId definition originTemplateId originSnapshot id now =>
      obtain ⟨created, hcreated, h⟩ := Except.bind_eq_ok.mp h
      cases h
      exact keepsReview_createSchema hcreated
  | archive id =>
      obtain ⟨archived, harchived, h⟩ := Except.bind_eq_ok.mp h
      cases h
      exact keepsReview_archive harchived
  | create input createdBy quota id stamp => exact .of_eq (tables_createWithQuota h)
  | importJsonl args lines given =>
      obtain ⟨imported, himported, h⟩ := Except.bind_eq_ok.mp h
      cases h
      exact keepsReview_importLines himported
  | run job stamps =>
      cases job with
      | update input =>
          obtain ⟨r, -, htables, -⟩ := run_apply_ends rfl (update_ends cx input w.store) h
          exact .of_eq htables
      | delete id =>
          obtain ⟨r, -, htables⟩ := run_apply_ends rfl (delete_ends id w.store) h
          exact .of_eq htables
      | undoJob jobId =>
          obtain ⟨r, -, -, hback, -⟩ := run_apply_ends rfl (undoJob_ends jobId w.store) h
          exact .of_eq hback.tables
      | fillDefaults args => cases hplain
      | confirm jobId updatedBy => cases hplain
  | infer jobs proposals => cases hplain

end Plain

/-! ### Job rows -/

section Jobs

variable {filled : List Uuid} {jobs jobs' : InferenceJobs} {id : Uuid}

theorem MovesJobs.refl (filled : List Uuid) (jobs : InferenceJobs) : MovesJobs filled jobs jobs :=
  ⟨fun _ _ hjob _ => hjob, fun _ hnone hsome => absurd hnone hsome⟩

/-- A row that is not completed may be replaced. -/
theorem MovesJobs.of_replaces {row row' : InferenceJob} (hrow : jobs.get? id = some row)
    (hstatus : row.status ≠ .completed) (hreplaces : Table.Replaces jobs jobs' id row') :
    MovesJobs filled jobs jobs' := by
  constructor
  · intro l job hjob hcompleted
    have hne : l ≠ id := by
      rintro rfl
      rw [hrow] at hjob
      cases hjob
      exact hstatus hcompleted
    rw [hreplaces.get?_ne hne, hjob]
  · intro l hnone hsome
    by_cases hl : l = id
    · rw [hl, hrow] at hnone
      cases hnone
    · rw [hreplaces.get?_ne hl] at hsome
      exact absurd hnone hsome

/-- A statement that moves a running row leaves the completed ones. -/
theorem movesJobs_of_owned {attempt : Int} {f : InferenceJob → InferenceJob} {b : Bool}
    (h : (jobs.updateRow id (ownedBy attempt) f).map changedOne = .ok (jobs', b)) :
    MovesJobs filled jobs jobs' := by
  rcases changedOne_eq_ok h with ⟨-, row, hrow, howned, hreplaces⟩ | ⟨-, rfl⟩
  · refine .of_replaces hrow ?_ hreplaces
    intro hcompleted
    simp [ownedBy, hcompleted] at howned
  · exact .refl filled jobs'

theorem movesJobs_apply {cx : Context} {s : ReviewState} {op : JobOp}
    (h : op.apply cx s = .ok jobs') : MovesJobs s.filled s.tables.jobs jobs' := by
  cases op with
  | create id schemaName =>
      simp only [JobOp.apply] at h
      split_ifs at h with hfilled
      have hcreate := Except.mapError_eq_ok h
      constructor
      · exact fun l job hjob _ => Table.get?_insert_of_some hcreate hjob
      · intro l hnone hsome
        rw [Table.get?_insert hcreate] at hsome
        split_ifs at hsome with hl
        · rw [hl]
          exact hfilled
        · exact absurd hnone hsome
  | claim id =>
      obtain ⟨⟨claimed, b⟩, hclaim, rfl⟩ := Except.map_eq_ok h
      rcases moveToRunning_eq_ok hclaim with ⟨-, row, hrow, hqueued, hreplaces⟩ | ⟨-, rfl⟩
      · refine .of_replaces hrow ?_ hreplaces
        intro hcompleted
        simp [hcompleted] at hqueued
      · exact .refl _ _
  | reconcile id target =>
      obtain ⟨⟨claimed, b⟩, hclaim, rfl⟩ := Except.map_eq_ok h
      rcases reconcileAttempt_eq_ok hclaim with
        ⟨-, row, row', hrow, hreconcilable, -, -, hreplaces⟩ | ⟨-, rfl⟩
      · refine .of_replaces hrow ?_ hreplaces
        intro hcompleted
        rcases hreconcilable with ⟨hfailed, -⟩ | ⟨-, hne⟩
        · rw [hfailed] at hcompleted
          cases hcompleted
        · exact hne hcompleted
      · exact .refl _ _
  | complete id attempt proposed skipped =>
      obtain ⟨⟨updated, b⟩, hupdate, rfl⟩ := Except.map_eq_ok h
      exact movesJobs_of_owned (Except.mapError_eq_ok hupdate)
  | fail id attempt message =>
      obtain ⟨⟨updated, b⟩, hupdate, rfl⟩ := Except.map_eq_ok h
      exact movesJobs_of_owned (Except.mapError_eq_ok hupdate)
  | retry id message attempt =>
      obtain ⟨⟨updated, b⟩, hupdate, rfl⟩ := Except.map_eq_ok h
      exact movesJobs_of_owned (Except.mapError_eq_ok hupdate)

end Jobs

/-! ### Proposals -/

section Reviews

variable {cx : Context} {backend : Backend} {s s' : ReviewState}

theorem records_recordProposals {tables tables' : Tables} {schemaName : String} {target : Target}
    {attempt : Attempt}
    (h : recordProposals cx backend tables schemaName target attempt = .ok tables') :
    Records tables tables'.proposals ∧
      tables' = { tables with proposals := tables'.proposals } := by
  obtain ⟨current, hcurrent, h⟩ := Except.bind_eq_ok.mp h
  split_ifs at h with hchanged
  push Not at hchanged
  obtain ⟨_, -, h⟩ := Except.bind_eq_ok.mp h
  cases h
  refine ⟨?_, rfl⟩
  refine recordAttempt_induction (P := Records tables) ?_ .start
  rintro ⟨job, hjob, -, hrunning, -⟩ batch - answer - m m' hm hinsert
  have hrow := get?_of_getActiveSchema hcurrent
  rw [hchanged.1] at hrow
  exact .insert hm hinsert hjob hrunning hrow hchanged.2 rfl

theorem completed_of_requireCompletedJob {tables : Tables} {jobId : Uuid}
    (h : requireCompletedJob cx tables jobId = .ok ()) :
    ∃ job, tables.jobs.get? jobId = some job ∧ job.status = .completed := by
  unfold requireCompletedJob at h
  split at h
  · cases h
  · rename_i job hjob
    split_ifs at h with hworkspace hstatus hany
    exact ⟨job, hjob, not_not.mp hstatus⟩

theorem transitionPending_effect {jobId : Uuid} {status : ProposalStatus}
    (hjob : requireCompletedJob cx s.tables jobId = .ok ()) (hstatus : status ≠ .pending) :
    ReviewEffect s (s.withTables (transitionPending s.tables jobId status)) :=
  .review jobId (fun _ => status) [] (completed_of_requireCompletedJob hjob) rfl
    (fun _ _ _ _ => hstatus) (List.append_nil _).symm nofun rfl rfl rfl

/-- Every pending proposal of a confirmed job has got another status. -/
theorem Accounts.settled {jobId : Uuid} {store : EntityStore} {report : ConfirmReport}
    {outcome : Uuid → Option ProposalStatus} (h : Accounts cx jobId s.store store report outcome)
    (hall : ∀ k, pendingFor s.tables jobId k ≠ [] → outcome k ≠ none) {id : Uuid}
    {p : ProposalRecord} (hp : s.tables.proposals.get? id = some p)
    (hpending : p.isPending jobId = true) : (outcome p.entityId).getD p.status ≠ .pending := by
  have hmem : p ∈ pendingFor s.tables jobId p.entityId :=
    mem_pendingFor.mpr ⟨⟨id, hp⟩, hpending, rfl⟩
  obtain ⟨status, hstatus⟩ := Option.ne_none_iff_exists'.mp
    (hall p.entityId (List.ne_nil_of_mem hmem))
  rw [hstatus, Option.getD_some]
  rcases h.ways _ _ hstatus with rfl | rfl | rfl <;> decide

theorem confirm_effect {jobId : Uuid} {updatedBy : Option Uuid} {stamps : Nat → Stamp}
    {w : WorkspaceState} (h : (Op.run (.confirm jobId updatedBy) stamps).apply cx s.workspace = .ok w) :
    ReviewEffect s { s with workspace := w } := by
  obtain ⟨report, -, hjob, -, outcome, haccounts, hall⟩ :=
    run_apply_ends rfl (confirm_ends cx jobId updatedBy s.store) h
  obtain ⟨ks, -, -, hsnapshots⟩ := haccounts.snapshots
  refine .review jobId (fun p => (outcome p.entityId).getD p.status) _
    (completed_of_requireCompletedJob hjob) haccounts.proposals
    (fun id p => haccounts.settled hall) hsnapshots ?_ haccounts.jobs haccounts.schemas rfl
  intro snap hsnap
  obtain ⟨k, -, hk⟩ := List.mem_filterMap.mp hsnap
  obtain ⟨row, -, rfl⟩ := Option.map_eq_some_iff.mp hk
  rfl

theorem fill_effect {args : FillDefaultsArgs} {stamps : Nat → Stamp}
    (h : fill cx s args stamps = .ok s') : ReviewEffect s s' := by
  unfold fill at h
  split_ifs at h with hfilled hjob
  · cases h
    exact .nothing rfl
  · obtain ⟨w, hw, h⟩ := Except.bind_eq_ok.mp h
    cases h
    obtain ⟨report, -, active, ks, -, hprogress⟩ :=
      run_apply_ends rfl (fillDefaults_ends args s.store) hw
    refine .fill args.jobId
      (ks.filterMap fun k => (s.store.rows.get? k).map fun row => row.snapshot args.jobId k) hfilled
      (Option.not_isSome_iff_eq_none.mp hjob) ?_ ?_ rfl
    · rw [← hprogress.snapshotted.snapshots]
      exact hprogress.tables
    · intro snap hsnap
      obtain ⟨k, -, hk⟩ := List.mem_filterMap.mp hsnap
      obtain ⟨row, -, rfl⟩ := Option.map_eq_some_iff.mp hk
      rfl

/-- **What one transaction can do.** -/
theorem apply_effect {op : ReviewOp} (h : op.apply cx backend s = .ok s') : ReviewEffect s s' := by
  cases op with
  | plain op =>
      obtain ⟨w, hw, h⟩ := Except.bind_eq_ok.mp h
      cases h
      obtain ⟨hjobs, hproposals, hsnapshots, hversions⟩ := keepsReview_plain op.2 hw
      exact .plain hjobs hproposals hsnapshots rfl hversions
  | job op =>
      obtain ⟨jobs, hjobs, h⟩ := Except.bind_eq_ok.mp h
      cases h
      exact .job (movesJobs_apply hjobs) rfl rfl
  | record schemaName target attempt =>
      obtain ⟨tables, htables, h⟩ := Except.bind_eq_ok.mp h
      cases h
      obtain ⟨hrecords, heq⟩ := records_recordProposals htables
      exact .record hrecords heq rfl
  | reject jobId =>
      obtain ⟨tables, htables, h⟩ := Except.bind_eq_ok.mp h
      cases h
      obtain ⟨_, hjob, htables⟩ := Except.bind_eq_ok.mp htables
      cases htables
      exact transitionPending_effect hjob (by decide)
  | discard jobId =>
      obtain ⟨tables, htables, h⟩ := Except.bind_eq_ok.mp h
      cases h
      obtain ⟨_, hjob, htables⟩ := Except.bind_eq_ok.mp htables
      cases htables
      exact transitionPending_effect hjob (by decide)
  | confirm jobId updatedBy stamps =>
      obtain ⟨w, hw, h⟩ := Except.bind_eq_ok.mp h
      cases h
      exact confirm_effect hw
  | fill args stamps => exact fill_effect h

end Reviews

/-! ## What every transaction keeps -/

/-- What holds of the jobs, their proposals and their snapshots. -/
structure ReviewInv (s : ReviewState) : Prop where
  unique : ∀ id id' p p', s.tables.proposals.get? id = some p →
    s.tables.proposals.get? id' = some p' → p.clash p' = true → id = id'
  version : ∀ id p, s.tables.proposals.get? id = some p →
    ∃ row, s.tables.schemas.get? p.schemaId = some row ∧ row.version = p.schemaVersion
  settled : ∀ id p, s.tables.proposals.get? id = some p → p.status ≠ .pending →
    Reviewed s.tables p.jobId
  snapshots : ∀ snap ∈ s.tables.snapshots, snap.jobId ∈ s.filled ∨ Reviewed s.tables snap.jobId
  apart : ∀ jobId ∈ s.filled, s.tables.jobs.get? jobId = none

theorem ReviewState.Unused.inv {s : ReviewState} (h : s.Unused) : ReviewInv s where
  unique := fun _ _ _ _ hp => by rw [h.proposals] at hp; cases hp
  version := fun _ _ hp => by rw [h.proposals] at hp; cases hp
  settled := fun _ _ hp => by rw [h.proposals] at hp; cases hp
  snapshots := fun snap hsnap => by rw [h.snapshots] at hsnap; cases hsnap
  apart := fun jobId hjobId => by rw [h.filled] at hjobId; cases hjobId

section Invariant

variable {cx : Context} {backend : Backend} {s s' : ReviewState}

theorem clash_comm (p q : ProposalRecord) : p.clash q = q.clash p := by
  unfold ProposalRecord.clash
  simp only [eq_comm]

/-- A proposal that is stored afterwards was stored before or is a recorded one. -/
theorem Records.cases {tables : Tables} {m : Proposals} (h : Records tables m) {id : Uuid}
    {p : ProposalRecord} (hp : m.get? id = some p) :
    tables.proposals.get? id = some p ∨ (p.status = .pending ∧
      (∃ job, tables.jobs.get? p.jobId = some job ∧ job.status = .running) ∧
      ∃ row, tables.schemas.get? p.schemaId = some row ∧ row.version = p.schemaVersion) := by
  induction h with
  | start => exact Or.inl hp
  | insert hm hinsert hjob hrunning hrow hversion hpending ih =>
      unfold Proposals.insertRow at hinsert
      split_ifs at hinsert
      cases hinsert
      rw [OrderedMap.get?_insert] at hp
      split_ifs at hp
      · cases hp
        exact Or.inr ⟨hpending, ⟨_, hjob, hrunning⟩, _, hrow, hversion⟩
      · exact ih hp

theorem Records.unique {tables : Tables} {m : Proposals} (h : Records tables m)
    (hunique : ∀ id id' p p', tables.proposals.get? id = some p →
      tables.proposals.get? id' = some p' → p.clash p' = true → id = id')
    {id id' : Uuid} {p p' : ProposalRecord} (hp : m.get? id = some p) (hp' : m.get? id' = some p')
    (hclash : p.clash p' = true) : id = id' := by
  induction h generalizing id id' p p' with
  | start => exact hunique id id' p p' hp hp' hclash
  | @insert m₁ m₂ new q job row hm hinsert _ _ _ _ _ ih =>
      unfold Proposals.insertRow at hinsert
      split_ifs at hinsert with hrefused
      cases hinsert
      rw [Bool.or_eq_true, not_or] at hrefused
      -- the new row clashes with none that is there
      have hnew : ∀ l r, m₁.get? l = some r → r.clash q = true → False := by
        intro l r hr hrq
        exact hrefused.2 (List.any_eq_true.mpr
          ⟨(l, r), (OrderedMap.mem_entries_iff m₁ l r).mpr hr, hrq⟩)
      rw [OrderedMap.get?_insert] at hp hp'
      split_ifs at hp hp' with hid hid' hid'
      · rw [hid, hid']
      · cases hp
        exact (hnew id' p' hp' (by rw [clash_comm]; exact hclash)).elim
      · cases hp'
        exact (hnew id p hp hclash).elim
      · exact ih hp hp' hclash

/-- A job that has been reviewed stays so. -/
theorem Reviewed.effect {jobId : Uuid} (h : Reviewed s.tables jobId) (heffect : ReviewEffect s s') :
    Reviewed s'.tables jobId := by
  obtain ⟨⟨job, hjob, hcompleted⟩, hsettled⟩ := h
  cases heffect with
  | plain hjobs hproposals hsnapshots hfilled hversions =>
      exact ⟨⟨job, by rw [hjobs, hjob], hcompleted⟩, by rw [hproposals]; exact hsettled⟩
  | job hjobs htables hfilled =>
      refine ⟨⟨job, hjobs.completed jobId job hjob hcompleted, hcompleted⟩, ?_⟩
      rw [htables]
      exact hsettled
  | record hrecords htables hfilled =>
      refine ⟨⟨job, by rw [htables]; exact hjob, hcompleted⟩, fun id p hp hpj => ?_⟩
      rcases hrecords.cases hp with hold | ⟨-, ⟨job', hjob', hrunning⟩, -⟩
      · exact hsettled id p hold hpj
      -- proposals are recorded for running jobs only
      · rw [hpj, hjob] at hjob'
        cases hjob'
        rw [hcompleted] at hrunning
        cases hrunning
  | review other status taken hother hproposals hstatus hsnapshots htaken hjobs hschemas hfilled =>
      refine ⟨⟨job, by rw [hjobs, hjob], hcompleted⟩, fun id p hp hpj => ?_⟩
      rw [hproposals, OrderedMap.get?_updateWhere] at hp
      obtain ⟨old, hold, rfl⟩ := Option.map_eq_some_iff.mp hp
      split_ifs at hpj ⊢ with hpending
      · exact hstatus id old hold hpending
      · exact hsettled id old hold hpj
  | fill other taken hnew hother htables htaken hfilled =>
      rw [htables]
      exact ⟨⟨job, hjob, hcompleted⟩, hsettled⟩
  | nothing h =>
      rw [h]
      exact ⟨⟨job, hjob, hcompleted⟩, hsettled⟩

/-- A review leaves a proposal everything but its status, and that too if it is another job's. -/
theorem proposal_of_review {m m' : Proposals} {jobId : Uuid}
    {status : ProposalRecord → ProposalStatus}
    (h : m' = m.updateWhere (fun _ p => p.isPending jobId) fun p => { p with status := status p })
    {id : Uuid} {p : ProposalRecord} (hp : m'.get? id = some p) :
    ∃ old status', m.get? id = some old ∧ p = { old with status := status' } ∧
      (p.jobId = jobId ∨ p = old) := by
  rw [h, OrderedMap.get?_updateWhere] at hp
  obtain ⟨old, hold, rfl⟩ := Option.map_eq_some_iff.mp hp
  split_ifs with hpending
  · simp only [ProposalRecord.isPending, Bool.and_eq_true, decide_eq_true_eq] at hpending
    exact ⟨old, status old, hold, rfl, Or.inl hpending.1⟩
  · exact ⟨old, old.status, hold, rfl, Or.inr rfl⟩

/-- Reviewing a job settles all its proposals. -/
theorem reviewed_of_review {jobId : Uuid} {status : ProposalRecord → ProposalStatus}
    (hcompleted : ∃ job, s.tables.jobs.get? jobId = some job ∧ job.status = .completed)
    (hproposals : s'.tables.proposals = s.tables.proposals.updateWhere
      (fun _ p => p.isPending jobId) fun p => { p with status := status p })
    (hstatus : ∀ id p, s.tables.proposals.get? id = some p → p.isPending jobId = true →
      status p ≠ .pending)
    (hjobs : s'.tables.jobs = s.tables.jobs) : Reviewed s'.tables jobId := by
  refine ⟨by rw [hjobs]; exact hcompleted, fun id p hp hpj => ?_⟩
  rw [hproposals, OrderedMap.get?_updateWhere] at hp
  obtain ⟨old, hold, rfl⟩ := Option.map_eq_some_iff.mp hp
  split_ifs at hpj ⊢ with hpending
  · exact hstatus id old hold hpending
  · intro holdPending
    exact hpending (by simp [ProposalRecord.isPending, hpj, holdPending])

/-! ### What a step keeps of the invariant -/

/-- No step makes two proposals clash: recording checks it, and reviews change statuses only. -/
theorem ReviewInv.unique_effect (h : ReviewInv s) (heffect : ReviewEffect s s') :
    ∀ id id' p p', s'.tables.proposals.get? id = some p →
      s'.tables.proposals.get? id' = some p' → p.clash p' = true → id = id' := by
  cases heffect with
  | plain hjobs hproposals hsnapshots hfilled hversions =>
      rw [hproposals]
      exact h.unique
  | job hjobs htables hfilled =>
      rw [htables]
      exact h.unique
  | record hrecords htables hfilled => exact fun id id' p p' => hrecords.unique h.unique
  | review jobId status taken hcompleted hproposals hstatus hsnapshots htaken hjobs hschemas
      hfilled =>
      intro id id' p p' hp hp' hclash
      obtain ⟨q, a, hq, rfl, -⟩ := proposal_of_review hproposals hp
      obtain ⟨q', b, hq', rfl, -⟩ := proposal_of_review hproposals hp'
      exact h.unique id id' q q' hq hq' hclash
  | fill jobId taken hnew hjob htables htaken hfilled =>
      rw [htables]
      exact h.unique
  | nothing heq =>
      rw [heq]
      exact h.unique

/-- A proposal's schema keeps its version. -/
theorem ReviewInv.version_effect (h : ReviewInv s) (heffect : ReviewEffect s s') :
    ∀ id p, s'.tables.proposals.get? id = some p →
      ∃ row, s'.tables.schemas.get? p.schemaId = some row ∧ row.version = p.schemaVersion := by
  cases heffect with
  | plain hjobs hproposals hsnapshots hfilled hversions =>
      intro id p hp
      rw [hproposals] at hp
      obtain ⟨row, hrow, hversion⟩ := h.version id p hp
      obtain ⟨row', hrow', hversion'⟩ := hversions p.schemaId row hrow
      exact ⟨row', hrow', hversion'.trans hversion⟩
  | job hjobs htables hfilled =>
      rw [htables]
      exact h.version
  | record hrecords htables hfilled =>
      intro id p hp
      rw [htables]
      rcases hrecords.cases hp with hold | ⟨-, -, hrow⟩
      · exact h.version id p hold
      · exact hrow
  | review jobId status taken hcompleted hproposals hstatus hsnapshots htaken hjobs hschemas
      hfilled =>
      intro id p hp
      obtain ⟨q, a, hq, rfl, -⟩ := proposal_of_review hproposals hp
      rw [hschemas]
      exact h.version id q hq
  | fill jobId taken hnew hjob htables htaken hfilled =>
      rw [htables]
      exact h.version
  | nothing heq =>
      rw [heq]
      exact h.version

/-- A proposal that is settled is of a job that was reviewed. -/
theorem ReviewInv.settled_effect (h : ReviewInv s) (heffect : ReviewEffect s s') :
    ∀ id p, s'.tables.proposals.get? id = some p → p.status ≠ .pending →
      Reviewed s'.tables p.jobId := by
  have hold : ∀ id p, s.tables.proposals.get? id = some p → p.status ≠ .pending →
      Reviewed s'.tables p.jobId :=
    fun id p hp hstatus => (h.settled id p hp hstatus).effect heffect
  cases heffect with
  | plain hjobs hproposals hsnapshots hfilled hversions =>
      rw [hproposals]
      exact hold
  | job hjobs htables hfilled =>
      intro id p hp
      rw [htables] at hp
      exact hold id p hp
  | record hrecords htables hfilled =>
      intro id p hp hstatus
      rcases hrecords.cases hp with hbefore | ⟨hpending, -⟩
      · exact hold id p hbefore hstatus
      · exact absurd hpending hstatus
  | review jobId status taken hcompleted hproposals hstatus hsnapshots htaken hjobs hschemas
      hfilled =>
      intro id p hp hne
      obtain ⟨q, a, hq, -, hpj | rfl⟩ := proposal_of_review hproposals hp
      · rw [hpj]
        exact reviewed_of_review hcompleted hproposals hstatus hjobs
      · exact hold id p hq hne
  | fill jobId taken hnew hjob htables htaken hfilled =>
      intro id p hp
      rw [htables] at hp
      exact hold id p hp
  | nothing heq =>
      rw [heq]
      exact h.settled

/-- A snapshot is of a fill, or of a job that was reviewed. -/
theorem ReviewInv.snapshots_effect (h : ReviewInv s) (heffect : ReviewEffect s s') :
    ∀ snap ∈ s'.tables.snapshots, snap.jobId ∈ s'.filled ∨ Reviewed s'.tables snap.jobId := by
  have hold : ∀ snap ∈ s.tables.snapshots,
      snap.jobId ∈ s.filled ∨ Reviewed s'.tables snap.jobId :=
    fun snap hsnap => (h.snapshots snap hsnap).imp_right fun hjob => hjob.effect heffect
  cases heffect with
  | plain hjobs hproposals hsnapshots hfilled hversions =>
      rw [hsnapshots, hfilled]
      exact hold
  | job hjobs htables hfilled =>
      intro snap hsnap
      rw [htables] at hsnap
      rw [hfilled]
      exact hold snap hsnap
  | record hrecords htables hfilled =>
      intro snap hsnap
      rw [htables] at hsnap
      rw [hfilled]
      exact hold snap hsnap
  | review jobId status taken hcompleted hproposals hstatus hsnapshots htaken hjobs hschemas
      hfilled =>
      intro snap hsnap
      rw [hsnapshots, List.mem_append] at hsnap
      rw [hfilled]
      rcases hsnap with hsnap | hsnap
      · exact hold snap hsnap
      · rw [htaken snap hsnap]
        exact Or.inr (reviewed_of_review hcompleted hproposals hstatus hjobs)
  | fill jobId taken hnew hjob htables htaken hfilled =>
      intro snap hsnap
      rw [htables, List.mem_append] at hsnap
      rw [hfilled]
      rcases hsnap with hsnap | hsnap
      · exact (hold snap hsnap).imp_left (List.mem_cons_of_mem _)
      · rw [htaken snap hsnap]
        exact Or.inl List.mem_cons_self
  | nothing heq =>
      rw [heq]
      exact h.snapshots

/-- A fill's job id is given to no job. -/
theorem ReviewInv.apart_effect (h : ReviewInv s) (heffect : ReviewEffect s s') :
    ∀ jobId ∈ s'.filled, s'.tables.jobs.get? jobId = none := by
  cases heffect with
  | plain hjobs hproposals hsnapshots hfilled hversions =>
      rw [hfilled, hjobs]
      exact h.apart
  | job hjobs htables hfilled =>
      intro jobId hjobId
      rw [hfilled] at hjobId
      by_contra hsome
      exact hjobs.fresh jobId (h.apart jobId hjobId) hsome hjobId
  | record hrecords htables hfilled =>
      rw [hfilled, htables]
      exact h.apart
  | review jobId status taken hcompleted hproposals hstatus hsnapshots htaken hjobs hschemas
      hfilled =>
      rw [hfilled, hjobs]
      exact h.apart
  | fill jobId taken hnew hjob htables htaken hfilled =>
      intro other hother
      rw [hfilled, List.mem_cons] at hother
      rw [htables]
      rcases hother with rfl | hother
      · exact hjob
      · exact h.apart other hother
  | nothing heq =>
      rw [heq]
      exact h.apart

/-- **Step lemma.** -/
theorem ReviewInv.effect (h : ReviewInv s) (heffect : ReviewEffect s s') : ReviewInv s' where
  unique := h.unique_effect heffect
  version := h.version_effect heffect
  settled := h.settled_effect heffect
  snapshots := h.snapshots_effect heffect
  apart := h.apart_effect heffect

/-- **Run lemma.** -/
theorem ReviewState.Reachable.inv (h : s.Reachable cx backend) : ReviewInv s := by
  obtain ⟨start, ops, hstart, rfl⟩ := h
  have hmeet : StepsMeet (ReviewState.step cx backend) (fun _ _ => True) start ops :=
    StepsMeet.of_forall (fun _ _ => trivial) start ops
  refine run_invariant ReviewInv (fun s op hs _ => ?_) hstart.inv hmeet
  unfold ReviewState.step
  split
  · rename_i s' hs'
    exact hs.effect (apply_effect hs')
  · exact hs

end Invariant

end Yorishiro.Entity
