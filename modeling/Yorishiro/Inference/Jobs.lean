import Yorishiro.Base.Error
import Yorishiro.Queue.Lifecycle

/-!
# Inference jobs

The durable state of asynchronous infer-fill jobs. A job row carries an attempt
counter of its own, next to the one of its queue lifecycle; `reconcileAttempt`
moves the row to running under the attempt number its worker was admitted with.
The partial unique index of the table allows one running job for each workspace,
and a claim that would break it is reported as `workspaceBusy`.
-/

set_option autoImplicit false

namespace Yorishiro.Inference

open Yorishiro.Lib

/-- Where an infer-fill job stands. -/
inductive InferenceJobStatus where
  | queued
  | running
  | completed
  | failed
deriving DecidableEq, Repr

/-- A row of `inference_jobs` (its primary key is the table's key). -/
structure InferenceJob where
  workspaceId : Uuid
  schemaName : String
  status : InferenceJobStatus
  applied : Int
  proposed : Int
  skipped : Int
  error : Option String
  attempt : Int
deriving DecidableEq, Repr

/-- `inference_jobs_one_running_per_workspace_idx`. -/
def InferenceJob.clash (a b : InferenceJob) : Bool :=
  decide (a.workspaceId = b.workspaceId) && decide (a.status = .running) &&
    decide (b.status = .running)

/-- The table `inference_jobs`. -/
abbrev InferenceJobs := Table Uuid InferenceJob InferenceJob.clash

/-- `WORKSPACE_BUSY`. -/
def workspaceBusy : YorishiroError := .conflict "the workspace already has a running infer-fill job"

/-- `busy_or_internal`. -/
def busyOrInternal : DbErr → YorishiroError
  | .uniqueViolation => workspaceBusy
  | e => .internal e

/-- `create`. -/
def create (jobs : InferenceJobs) (id workspaceId : Uuid) (schemaName : String) :
    Except DbErr InferenceJobs :=
  jobs.insert id
    { workspaceId := workspaceId
      schemaName := schemaName
      status := .queued
      applied := 0
      proposed := 0
      skipped := 0
      error := none
      attempt := 0 }

/-- Reports whether an update changed exactly one row. -/
def changedOne (r : InferenceJobs × Nat) : InferenceJobs × Bool := (r.1, decide (r.2 = 1))

/-- An update that moves a job to running; a unique violation is a busy workspace. -/
def moveToRunning (jobs : InferenceJobs) (id : Uuid) (p : InferenceJob → Bool)
    (f : InferenceJob → InferenceJob) : Except YorishiroError (InferenceJobs × Bool) :=
  ((jobs.updateRow id p f).mapError busyOrInternal).map changedOne

/-- `claim_attempt`. -/
def claimAttempt (jobs : InferenceJobs) (id : Uuid) (expectedAttempt : Option Int) :
    Except YorishiroError (InferenceJobs × Bool) :=
  moveToRunning jobs id
    (fun row => decide (row.status = .queued) &&
      expectedAttempt.all fun attempt => decide (row.attempt = attempt))
    fun row => { row with status := .running, attempt := row.attempt + 1 }

/-- `reconcile_attempt`: repairs the job row after the lifecycle was admitted under
`target`. The row is locked from the read on, so the updates see the row read. -/
def reconcileAttempt (jobs : InferenceJobs) (id : Uuid) (target : Int) :
    Except YorishiroError (InferenceJobs × Bool) :=
  match jobs.get? id with
  | none => .error (.notFound "infer-fill job not found")
  | some row =>
      -- another delivery holds this attempt already
      if row.status = .running ∧ row.attempt = target then .ok (jobs, false)
      -- the attempt was marked failed, but its lifecycle was admitted again under the same number
      else if row.status = .failed ∧ row.attempt = target then
        moveToRunning jobs id
          (fun row => decide (row.status = .failed) && decide (row.attempt = target))
          fun row => { row with status := .running, error := none }
      -- any other distance between the two counters is refused without an error
      else if row.attempt ≠ target - 1 ∨ row.status = .completed then .ok (jobs, false)
      else
        moveToRunning jobs id
          (fun row => decide (row.attempt = target - 1) &&
            (decide (row.status = .queued) || decide (row.status = .running) ||
              decide (row.status = .failed)))
          fun row => { row with status := .running, attempt := target }

/-- The filter of the calls a worker ends its attempt with. -/
def ownedBy (attempt : Int) (row : InferenceJob) : Bool :=
  decide (row.status = .running) && decide (row.attempt = attempt)

/-- `complete_proposals_attempt`. -/
def completeProposalsAttempt (jobs : InferenceJobs) (id : Uuid) (attempt proposed skipped : Int) :
    Except DbErr (InferenceJobs × Bool) :=
  (jobs.updateRow id (ownedBy attempt) fun row =>
    { row with status := .completed, applied := 0, proposed := proposed, skipped := skipped }).map
      changedOne

/-- `fail_attempt`. -/
def failAttempt (jobs : InferenceJobs) (id : Uuid) (attempt : Int) (message : String) :
    Except DbErr (InferenceJobs × Bool) :=
  (jobs.updateRow id (ownedBy attempt) fun row =>
    { row with status := .failed, error := some message }).map changedOne

/-- `retry`: returns the running job to the claimable queue state. -/
def retry (jobs : InferenceJobs) (id : Uuid) (message : String) (attempt : Int) :
    Except DbErr (InferenceJobs × Bool) :=
  (jobs.updateRow id (ownedBy attempt) fun row =>
    { row with status := .queued, error := some message }).map changedOne

/-! ## What each statement does to the rows -/

section Effects

variable {jobs jobs' : InferenceJobs} {id : Uuid}

/-- The job row can be claimed under `target`: it failed in that attempt, or it is one
attempt behind and not completed. -/
def Reconcilable (target : Int) (row : InferenceJob) : Prop :=
  (row.status = .failed ∧ row.attempt = target) ∨
    (row.attempt = target - 1 ∧ row.status ≠ .completed)

instance (target : Int) (row : InferenceJob) : Decidable (Reconcilable target row) :=
  inferInstanceAs (Decidable (_ ∨ _))

theorem changedOne_eq_ok {p : InferenceJob → Bool} {f : InferenceJob → InferenceJob} {b : Bool}
    (h : (jobs.updateRow id p f).map changedOne = .ok (jobs', b)) :
    (b = true ∧ ∃ row, jobs.get? id = some row ∧ p row = true ∧
      Table.Replaces jobs jobs' id (f row)) ∨ (b = false ∧ jobs' = jobs) := by
  obtain ⟨⟨t, n⟩, hu, hr⟩ := Except.map_eq_ok h
  cases hr
  rcases Table.updateRow_eq_ok hu with ⟨row, hrow, hp, hn, hrep⟩ | ⟨-, hn, ht⟩
  · exact Or.inl ⟨by simp [hn], row, hrow, hp, hrep⟩
  · exact Or.inr ⟨by simp [hn], ht⟩

theorem moveToRunning_eq_ok {p : InferenceJob → Bool} {f : InferenceJob → InferenceJob} {b : Bool}
    (h : moveToRunning jobs id p f = .ok (jobs', b)) :
    (b = true ∧ ∃ row, jobs.get? id = some row ∧ p row = true ∧
      Table.Replaces jobs jobs' id (f row)) ∨ (b = false ∧ jobs' = jobs) := by
  obtain ⟨r, hr, hb⟩ := Except.map_eq_ok h
  apply changedOne_eq_ok
  rw [Except.mapError_eq_ok hr, ← hb]
  rfl

/-- A refused claim of a row that the filter matches is a busy workspace: another job
of the workspace is running. -/
theorem moveToRunning_of_match (p : InferenceJob → Bool) (f : InferenceJob → InferenceJob)
    {row : InferenceJob} (hrow : jobs.get? id = some row) (hp : p row = true)
    (hf : (f row).workspaceId = row.workspaceId) :
    (∃ jobs', moveToRunning jobs id p f = .ok (jobs', true) ∧
      Table.Replaces jobs jobs' id (f row)) ∨
    (moveToRunning jobs id p f = .error workspaceBusy ∧ ∃ other r, other ≠ id ∧
      jobs.get? other = some r ∧ r.workspaceId = row.workspaceId ∧ r.status = .running) := by
  cases hu : jobs.updateRow id p f with
  | error e =>
      -- the only constraint is one running job per workspace, and the row keeps its workspace
      obtain ⟨rfl, row', other, r, hrow', -, hne, hr, hclash⟩ := Table.updateRow_eq_error hu
      obtain rfl : row = row' := Option.some.inj (hrow.symm.trans hrow')
      refine Or.inr ⟨by rw [moveToRunning, hu]; rfl, other, r, hne, hr, ?_⟩
      simp only [InferenceJob.clash, Bool.and_eq_true, decide_eq_true_eq, hf] at hclash
      rcases hclash with hclash | hclash
      · exact ⟨hclash.1.1.symm, hclash.2⟩
      · exact ⟨hclash.1.1, hclash.1.2⟩
  | ok r =>
      obtain ⟨jobs', n⟩ := r
      rcases Table.updateRow_eq_ok hu with ⟨row', hrow', -, hn, hrep⟩ | ⟨hnone, -, -⟩
      · obtain rfl : row = row' := Option.some.inj (hrow.symm.trans hrow')
        subst hn
        exact Or.inl ⟨jobs', by rw [moveToRunning, hu]; rfl, hrep⟩
      · simp [hrow, hp] at hnone

/-- **Reconciliation.** A claim found the row claimable under `target` and leaves it
running under `target`; any other outcome leaves the table as it is. -/
theorem reconcileAttempt_eq_ok {target : Int} {b : Bool}
    (h : reconcileAttempt jobs id target = .ok (jobs', b)) :
    (b = true ∧ ∃ row row', jobs.get? id = some row ∧ Reconcilable target row ∧
      row'.status = .running ∧ row'.attempt = target ∧ Table.Replaces jobs jobs' id row') ∨
    (b = false ∧ jobs' = jobs) := by
  unfold reconcileAttempt at h
  cases hrow : jobs.get? id with
  | none => simp [hrow] at h
  | some row =>
      simp only [hrow] at h
      split_ifs at h with h₁ h₂ h₃
      · cases h
        exact Or.inr ⟨rfl, rfl⟩
      · rcases moveToRunning_eq_ok h with ⟨hb, row', hrow', -, hrep⟩ | hnone
        · obtain rfl : row = row' := Option.some.inj (hrow.symm.trans hrow')
          exact Or.inl ⟨hb, row, { row with status := .running, error := none }, rfl, Or.inl h₂,
            rfl, h₂.2, hrep⟩
        · exact Or.inr hnone
      · cases h
        exact Or.inr ⟨rfl, rfl⟩
      · rcases moveToRunning_eq_ok h with ⟨hb, row', hrow', -, hrep⟩ | hnone
        · obtain rfl : row = row' := Option.some.inj (hrow.symm.trans hrow')
          have hrec : row.attempt = target - 1 ∧ row.status ≠ .completed := by
            push Not at h₃
            exact h₃
          exact Or.inl ⟨hb, row, _, rfl, Or.inr hrec, rfl, rfl, hrep⟩
        · exact Or.inr hnone

/-- A job one attempt behind its lifecycle, and not completed, is claimed unless
another job of its workspace is running. -/
theorem reconcileAttempt_of_behind {row : InferenceJob} (hrow : jobs.get? id = some row)
    (hcompleted : row.status ≠ .completed) :
    (∃ jobs' row', reconcileAttempt jobs id (row.attempt + 1) = .ok (jobs', true) ∧
      jobs'.get? id = some row' ∧ row'.status = .running ∧ row'.attempt = row.attempt + 1) ∨
    (reconcileAttempt jobs id (row.attempt + 1) = .error workspaceBusy ∧ ∃ other r, other ≠ id ∧
      jobs.get? other = some r ∧ r.workspaceId = row.workspaceId ∧ r.status = .running) := by
  have hne : ¬ (row.attempt = row.attempt + 1) := by omega
  have hpred : row.attempt + 1 - 1 = row.attempt := by omega
  unfold reconcileAttempt
  simp only [hrow, hne, and_false, if_false, hpred, ne_eq, not_true_eq_false, false_or, hcompleted]
  -- every status but `completed` passes the filter of the last update
  have hmatch : (decide (row.attempt = row.attempt) &&
      (decide (row.status = .queued) || decide (row.status = .running) ||
        decide (row.status = .failed))) = true := by
    cases hst : row.status with
    | completed => exact absurd hst hcompleted
    | _ => simp
  rcases moveToRunning_of_match
    (fun r => decide (r.attempt = row.attempt) && (decide (r.status = .queued) ||
      decide (r.status = .running) || decide (r.status = .failed)))
    (fun r => { r with status := .running, attempt := row.attempt + 1 })
    hrow hmatch rfl with ⟨jobs', hok, hrep⟩ | hbusy
  · exact Or.inl ⟨jobs', _, hok, hrep.get?_self, rfl, rfl⟩
  · exact Or.inr hbusy

end Effects

end Yorishiro.Inference
