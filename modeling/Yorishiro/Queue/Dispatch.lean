import Yorishiro.Queue.Outbox

/-!
# Recording jobs in a transaction

`dispatch_job` as what it adds to its caller's transaction: a job, or the record of one
that was refused. A search adds a dispatch without a lifecycle. `recordAll` commits what a
transaction has recorded, in order, or nothing when a row is refused.

`Extends` says what a commit does to the two tables: no row is changed, and each new row
belongs to the workspace the transaction recorded it for.
-/

set_option autoImplicit false

namespace Yorishiro.Queue

open Yorishiro.Lib

/-! ## One job -/

/-- `as_db_str`. -/
def WorkerClass.asDbStr : WorkerClass → String
  | .tenantPrivate => "tenant_private"
  | .official => "official"
  | .shared => "shared"

/-- `JobSpec`. The arguments of every worker are a struct, so the payload is an object: its
members. -/
structure JobSpec where
  jobName : String
  workspaceId : Uuid
  workerClass : WorkerClass
  dispatchPayload : List (String × Json)
  workerName : String
  useQueueConcurrency : Bool
deriving DecidableEq

/-- What the dispatcher uses of a `WorkerTarget`: the tag for the worker at hand and the
concurrency key. -/
structure JobTarget where
  tag : String
  concurrencyKey : String
deriving DecidableEq

/-- `ConcurrencyPolicy`. -/
structure ConcurrencyPolicy where
  plan : String
  limit : Option Int
deriving DecidableEq

/-- What a transaction adds to the queue. -/
inductive Recording where
  | job (e : Enqueue) (job : Job)
  | refused (e : Enqueue) (diagnostic : String)
  | query (id : Uuid) (deadlineAt : Instant) (job : Job)
deriving DecidableEq

/-- The record of a job refused before it reached the queue. -/
def refuse (spec : JobSpec) (lifecycleId : Uuid) (diagnostic : String) : Recording :=
  .refused
    { id := lifecycleId
      jobName := spec.jobName
      workerClass := spec.workerClass
      workspaceId := some spec.workspaceId
      plan := none
      concurrencyKey := some spec.workerClass.asDbStr
      concurrencyLimit := some 0 }
    diagnostic

/-- The payload of a new job: its arguments with the lifecycle and the workspace. -/
def JobSpec.payload (spec : JobSpec) (lifecycleId : Uuid) : Json :=
  Json.insert "workspace_id" (.string spec.workspaceId.toString)
    (withLifecycleId (.object spec.dispatchPayload) lifecycleId)

/-- `dispatch_job` within a caller's transaction, by what its lookups return. -/
def dispatchJob (spec : JobSpec) (lifecycleId : Uuid) (target : Except String JobTarget)
    (policy : Except String ConcurrencyPolicy) : Recording :=
  match target with
  | .error error => refuse spec lifecycleId ("worker target lookup failed: " ++ error)
  | .ok target =>
      let job : Job :=
        { payload := spec.payload lifecycleId
          workerName := spec.workerName
          queueName := some target.tag
          tags := some [target.tag] }
      let enqueue : Enqueue :=
        { id := lifecycleId
          jobName := spec.jobName
          workerClass := spec.workerClass
          workspaceId := some spec.workspaceId
          plan := none
          concurrencyKey := none
          concurrencyLimit := none }
      if spec.useQueueConcurrency then
        match policy with
        | .error error => refuse spec lifecycleId error
        | .ok policy =>
            .job { enqueue with
              plan := some policy.plan
              concurrencyKey := some target.concurrencyKey
              concurrencyLimit := policy.limit } job
      else .job enqueue job

/-- The dispatch `Scope::open` records for a search. -/
def openQuery (workspaceId dispatchId requestId : Uuid) (deadlineAt : Instant) (tag : String) :
    Recording :=
  .query dispatchId deadlineAt
    { payload := Json.insert "workspace_id" (.string workspaceId.toString)
        (.object [("request_id", .string requestId.toString)])
      workerName := "QueryEmbeddingWorker"
      queueName := some tag
      tags := some [tag] }

/-! ## Transactions -/

/-- The statements of one recording. -/
def Recording.record (db : QueueDb) (now : Instant) : Recording → Except DbErr QueueDb
  | .job e j => recordInTransaction db e j now
  | .refused e diagnostic => do
      let lifecycles ← recordEnqueue db.lifecycles e now
      let lifecycles ← finish lifecycles e.id none .unavailable (some diagnostic) now
      .ok { db with lifecycles := lifecycles }
  | .query id deadlineAt j => recordQueryInTransaction db id deadlineAt j

/-- The commit of what a transaction has recorded. -/
def recordAll (db : QueueDb) : List (Instant × Recording) → Except DbErr QueueDb
  | [] => .ok db
  | (now, r) :: rows => do
      let db ← r.record db now
      recordAll db rows

/-- The recording leaves work to be done; a refused job does not. -/
def Recording.live : Recording → Bool
  | .job .. | .query .. => true
  | .refused .. => false

/-- The recording belongs to a workspace. -/
def Recording.Of (workspace : Uuid) : Recording → Prop
  | .job e j => e.workspaceId = some workspace ∧
      payloadWorkspaceId (withLifecycleId j.payload e.id) = some workspace
  | .refused e _ => e.workspaceId = some workspace
  | .query _ _ j => payloadWorkspaceId j.payload = some workspace

/-! ## Payloads -/

theorem payloadWorkspaceId_withLifecycleId (payload : Json) (id : Uuid) :
    payloadWorkspaceId (withLifecycleId payload id) = payloadWorkspaceId payload := by
  cases payload with
  | object members =>
      have hne : ("workspace_id" : String) ≠ "lifecycle_id" := by decide
      simp [payloadWorkspaceId, withLifecycleId, Json.insert, Json.get?, hne]
  | _ => rfl

theorem payloadWorkspaceId_insert (members : List (String × Json)) (workspace : Uuid) :
    payloadWorkspaceId (Json.insert "workspace_id" (.string workspace.toString)
      (.object members)) = some workspace := by
  simp [payloadWorkspaceId, Json.insert, Json.get?, Json.asStr, Uuid.parseStr_toString]

theorem JobSpec.payloadWorkspaceId_payload (spec : JobSpec) (id : Uuid) :
    payloadWorkspaceId (spec.payload id) = some spec.workspaceId :=
  payloadWorkspaceId_insert _ _

theorem refuse_of (spec : JobSpec) (id : Uuid) (diagnostic : String) :
    (refuse spec id diagnostic).Of spec.workspaceId :=
  rfl

/-- What `dispatch_job` records belongs to the workspace of the job. -/
theorem dispatchJob_of (spec : JobSpec) (id : Uuid) (target : Except String JobTarget)
    (policy : Except String ConcurrencyPolicy) :
    (dispatchJob spec id target policy).Of spec.workspaceId := by
  have hpayload : payloadWorkspaceId (withLifecycleId (spec.payload id) id) =
      some spec.workspaceId := by
    rw [payloadWorkspaceId_withLifecycleId, spec.payloadWorkspaceId_payload]
  unfold dispatchJob
  cases target with
  | error error => exact refuse_of ..
  | ok target =>
      cases spec.useQueueConcurrency with
      | false => exact ⟨rfl, hpayload⟩
      | true =>
          cases policy with
          | error error => exact refuse_of ..
          | ok policy => exact ⟨rfl, hpayload⟩

/-- **What `dispatch_job` records**: the refusal of the job, or the job under the given id. -/
theorem dispatchJob_cases (spec : JobSpec) (id : Uuid) (target : Except String JobTarget)
    (policy : Except String ConcurrencyPolicy) :
    (∃ diagnostic, dispatchJob spec id target policy = refuse spec id diagnostic) ∨
      ∃ e job, dispatchJob spec id target policy = .job e job ∧ e.id = id ∧
        e.jobName = spec.jobName ∧ e.workspaceId = some spec.workspaceId ∧
        job.payload = spec.payload id ∧ job.workerName = spec.workerName := by
  unfold dispatchJob
  cases target with
  | error error => exact Or.inl ⟨_, rfl⟩
  | ok target =>
      cases spec.useQueueConcurrency with
      | false => exact Or.inr ⟨_, _, rfl, rfl, rfl, rfl, rfl, rfl⟩
      | true =>
          cases policy with
          | error error => exact Or.inl ⟨_, rfl⟩
          | ok policy => exact Or.inr ⟨_, _, rfl, rfl, rfl, rfl, rfl, rfl⟩

theorem openQuery_of (workspace dispatchId requestId : Uuid) (deadlineAt : Instant)
    (tag : String) : (openQuery workspace dispatchId requestId deadlineAt tag).Of workspace :=
  payloadWorkspaceId_insert _ _

/-! ## What a commit adds -/

/-- The dispatch belongs to the workspace of its lifecycle, by its column and by its
payload, and that lifecycle is there. -/
def Dispatch.Joined (t : Lifecycles) (d : Dispatch) : Prop :=
  ∀ l, d.lifecycleId = some l → ∃ row, t.get? l = some row ∧
    d.workspaceId = row.workspaceId ∧ payloadWorkspaceId d.payload = row.workspaceId

/-- `db'` has the rows of `db` and new ones of `workspace`: refused jobs, and when the flag
is set others as well. -/
structure Extends (workspace : Uuid) (live : Bool) (db db' : QueueDb) : Prop where
  kept : ∀ id row, db.lifecycles.get? id = some row → db'.lifecycles.get? id = some row
  lifecycle : ∀ id row, db'.lifecycles.get? id = some row → db.lifecycles.get? id = some row ∨
    row.workspaceId = some workspace ∧ (live = true ∨ row.status = .unavailable)
  dispatch : ∀ id d, db'.outbox.get? id = some d → db.outbox.get? id = some d ∨
    live = true ∧ d.workspaceId = some workspace ∧ d.Joined db'.lifecycles

namespace Extends

variable {workspace : Uuid} {db db' db'' : QueueDb}

theorem refl (db : QueueDb) : Extends workspace false db db where
  kept := fun _ _ h => h
  lifecycle := fun _ _ h => Or.inl h
  dispatch := fun _ _ h => Or.inl h

theorem trans {a b : Bool} (h : Extends workspace a db db') (h' : Extends workspace b db' db'') :
    Extends workspace (a || b) db db'' where
  kept := fun id row hrow => h'.kept id row (h.kept id row hrow)
  lifecycle := by
    intro id row hrow
    rcases h'.lifecycle id row hrow with hmid | ⟨hws, hlive⟩
    · rcases h.lifecycle id row hmid with hold | ⟨hws, hlive⟩
      · exact Or.inl hold
      · exact Or.inr ⟨hws, hlive.imp_left fun ha => by rw [ha, Bool.true_or]⟩
    · exact Or.inr ⟨hws, hlive.imp_left fun hb => by rw [hb, Bool.or_true]⟩
  dispatch := by
    intro id d hd
    rcases h'.dispatch id d hd with hmid | ⟨hb, hws, hjoined⟩
    · rcases h.dispatch id d hmid with hold | ⟨ha, hws, hjoined⟩
      · exact Or.inl hold
      -- the second part leaves the lifecycle the dispatch was recorded with
      · refine Or.inr ⟨by rw [ha, Bool.true_or], hws, fun l hl => ?_⟩
        obtain ⟨row, hrow, hsame⟩ := hjoined l hl
        exact ⟨row, h'.kept l row hrow, hsame⟩
    · exact Or.inr ⟨by rw [hb, Bool.or_true], hws, hjoined⟩

end Extends

/-- A table with one more row. -/
theorem get?_of_replaces {κ α : Type} [LinearOrder κ] {clash : α → α → Bool}
    {t t' : Table κ α clash} {k : κ} {x : α} (hfresh : t.get? k = none)
    (hrep : Table.Replaces t t' k x) :
    (∀ l y, t.get? l = some y → t'.get? l = some y) ∧
      ∀ l y, t'.get? l = some y → t.get? l = some y ∨ l = k ∧ y = x := by
  constructor
  · intro l y hy
    rw [hrep.get?_ne (by rintro rfl; rw [hfresh] at hy; cases hy)]
    exact hy
  · intro l y hy
    by_cases hl : l = k
    · subst hl
      rw [hrep.get?_self] at hy
      exact Or.inr ⟨rfl, (Option.some.inj hy).symm⟩
    · rw [hrep.get?_ne hl] at hy
      exact Or.inl hy

/-- **One recording.** -/
theorem Recording.extends {r : Recording} {workspace : Uuid} {db db' : QueueDb} {now : Instant}
    (hof : r.Of workspace) (h : r.record db now = .ok db') : Extends workspace r.live db db' := by
  cases r with
  | job e job =>
      obtain ⟨hws, hpayload⟩ := hof
      obtain ⟨hfresh, hfresh', hrep, hrep'⟩ := recordInTransaction_eq_ok h
      obtain ⟨hkept, hnew⟩ := get?_of_replaces hfresh hrep
      obtain ⟨-, hnew'⟩ := get?_of_replaces hfresh' hrep'
      refine ⟨hkept, fun id row hrow => ?_, fun id d hd => ?_⟩
      · refine (hnew id row hrow).imp_right ?_
        rintro ⟨rfl, rfl⟩
        exact ⟨hws, Or.inl rfl⟩
      · refine (hnew' id d hd).imp_right ?_
        rintro ⟨rfl, rfl⟩
        refine ⟨rfl, hpayload, fun l hl => ⟨e.row now, ?_, ?_, ?_⟩⟩
        · rw [← Option.some.inj hl]
          exact hrep.get?_self
        · exact hpayload.trans hws.symm
        · exact hpayload.trans hws.symm
  | refused e diagnostic =>
      obtain ⟨t₁, ht₁, h⟩ := Except.bind_eq_ok.mp h
      obtain ⟨t₂, ht₂, h⟩ := Except.bind_eq_ok.mp h
      cases h
      obtain ⟨hfresh, -⟩ := Table.insert_eq_ok ht₁
      obtain ⟨hkept, hnew⟩ := get?_of_replaces hfresh (Table.get?_insert ht₁)
      obtain ⟨row₁, hrow₁, -, hrep⟩ := finish_eq_ok ht₂
      -- the row that is closed is the one just inserted
      obtain rfl : row₁ = e.row now := by
        rw [Table.get?_insert ht₁, if_pos rfl] at hrow₁
        exact (Option.some.inj hrow₁).symm
      refine ⟨fun id row hrow => ?_, fun id row hrow => ?_, fun id d hd => Or.inl hd⟩
      · rw [hrep.get?_ne (by rintro rfl; rw [hfresh] at hrow; cases hrow)]
        exact hkept id row hrow
      · by_cases hid : id = e.id
        · subst hid
          rw [hrep.get?_self] at hrow
          cases hrow
          exact Or.inr ⟨hof, Or.inr rfl⟩
        · rw [hrep.get?_ne hid] at hrow
          rcases hnew id row hrow with hold | ⟨rfl, -⟩
          · exact Or.inl hold
          · exact absurd rfl hid
  | query id deadlineAt job =>
      obtain ⟨hfresh, hlife, hrep⟩ := recordQueryInTransaction_eq_ok h
      obtain ⟨-, hnew⟩ := get?_of_replaces hfresh hrep
      refine ⟨fun l row hrow => ?_, fun l row hrow => ?_, fun l d hd => ?_⟩
      · rw [hlife]
        exact hrow
      · rw [hlife] at hrow
        exact Or.inl hrow
      · refine (hnew l d hd).imp_right ?_
        rintro ⟨-, rfl⟩
        refine ⟨rfl, hof, ?_⟩
        rintro l' ⟨⟩

/-- **A commit.** It changes no row and adds rows of its workspace; when nothing it has
recorded is live, these are refused jobs. -/
theorem recordAll_extends {rows : List (Instant × Recording)} {workspace : Uuid}
    {db db' : QueueDb} (hof : ∀ r ∈ rows, r.2.Of workspace) (h : recordAll db rows = .ok db') :
    Extends workspace (rows.any fun r => r.2.live) db db' := by
  induction rows generalizing db with
  | nil =>
      cases h
      exact .refl _
  | cons r rows ih =>
      obtain ⟨db₁, h₁, h⟩ := Except.bind_eq_ok.mp h
      have hfirst := Recording.extends (hof r List.mem_cons_self) h₁
      exact hfirst.trans (ih (fun r' hr' => hof r' (List.mem_cons_of_mem _ hr')) h)

end Yorishiro.Queue
