import Yorishiro.Inference.Jobs
import Yorishiro.Queue.System

/-!
# The infer-fill worker

`InferFillWorker::perform_job` as a machine that takes one database transaction
at a time. A delivery is a copy of the job's arguments in the hands of a worker,
and its `Phase` says which transaction of `perform_job` comes next; `transact`
performs it. Any number of deliveries of one job may be under way, each may stop
at any phase, and a delivery that works keeps renewing its lease.

The state also holds the other parties: `enqueueInferFill` issues jobs, and
relays and other workers call the queue on lifecycles of their own. `step` is one
transaction of one party.
-/

set_option autoImplicit false

namespace Yorishiro.Inference

open Yorishiro.Lib Yorishiro.Queue

/-- The arguments of a queued infer-fill job. Every job that `enqueueInferFill` issues
carries its lifecycle. -/
structure InferFillArgs where
  actor : Json
  lifecycleId : Uuid
  jobId : Uuid
  workspaceId : Uuid
  schemaName : String
deriving DecidableEq

/-- The serialized arguments. -/
def InferFillArgs.payload (args : InferFillArgs) : Json :=
  .object
    [ ("actor", args.actor),
      ("job_id", .string args.jobId.toString),
      ("lifecycle_id", .string args.lifecycleId.toString),
      ("schema_name", .string args.schemaName),
      ("workspace_id", .string args.workspaceId.toString) ]

/-- What an infer-fill job publishes, routed by the tag of its target. -/
def InferFillArgs.job (args : InferFillArgs) (tag : String) : Job where
  payload := args.payload
  workerName := "InferFillWorker"
  queueName := some tag
  tags := some [tag]

/-- The tables an infer-fill job is recorded in. -/
structure InferDb where
  queue : QueueDb
  jobs : InferenceJobs
deriving DecidableEq

/-! ## Transactions -/

/-- The queue policy of a workspace: plan, concurrency key and limit. -/
structure Policy where
  plan : Option String
  concurrencyKey : Option String
  concurrencyLimit : Option Int
deriving DecidableEq

/-- `enqueue_infer_fill`: the job row, its lifecycle and its dispatch in one transaction. -/
def enqueueInferFill (db : InferDb) (args : InferFillArgs) (policy : Policy) (tag : String)
    (now : Instant) : Except DbErr InferDb := do
  let jobs ← create db.jobs args.jobId args.workspaceId args.schemaName
  let queue ← recordInTransaction db.queue
    { id := args.lifecycleId
      jobName := "infer_fill"
      workerClass := .shared
      workspaceId := some args.workspaceId
      plan := policy.plan
      concurrencyKey := policy.concurrencyKey
      concurrencyLimit := policy.concurrencyLimit }
    (args.job tag) now
  .ok ⟨queue, jobs⟩

/-- The job table of `defer_and_enqueue`: the running job is returned to the queue
when the attempt is known and a retry is asked for. -/
def retryJobs (db : InferDb) (args : InferFillArgs) (attempt : Option Int) (error : String)
    (retryInferenceJob : Bool) : Except DbErr InferenceJobs :=
  match attempt, retryInferenceJob with
  | some k, true => (retry db.jobs args.jobId error k).map Prod.fst
  | _, _ => .ok db.jobs

/-- `defer_and_enqueue`: gives the lifecycle back and publishes the job again, in one
transaction. -/
def deferAndEnqueue (db : InferDb) (args : InferFillArgs) (attempt : Option Int) (error : String)
    (retryInferenceJob : Bool) (tag : String) (now : Instant) : Except DbErr InferDb := do
  -- the job keeps its attempt while the requeue resets the lifecycle's to zero
  let jobs ← retryJobs db args attempt error retryInferenceJob
  let lifecycles ← Queue.defer db.queue.lifecycles args.lifecycleId attempt error now
  let queue ← recordLifecyclePayload { db.queue with lifecycles := lifecycles } args.lifecycleId
    (args.job tag)
  .ok ⟨queue, jobs⟩

/-! ## One delivery -/

/-- Where a delivery stands in `perform_job`. The attempts in `received` to `claimed`
are those of the lifecycle, the later ones are read back from the job row. -/
inductive Phase where
  | received
  | duplicate (attempt : Int)
  | saturated (attempt : Option Int)
  | admitted (attempt : Int)
  | busy (attempt : Int)
  | claimed (attempt : Int)
  | working (attempt : Int)
  | succeeded (attempt proposed skipped : Int)
  | completed (attempt : Int)
  | rejected (attempt : Int) (message : String)
  | failed (attempt : Int)
  | retrying (attempt : Int) (message : String)
  | done
deriving DecidableEq

/-- How the work outside the database ends: `perform_infer_fill` succeeds, or fails
with an actor that has lost its rights, or fails otherwise. -/
inductive Work where
  | ok (proposed skipped : Int)
  | unauthorized (message : String)
  | error (message : String)
deriving DecidableEq

/-- What a transaction of a delivery depends on besides the database. -/
structure Input where
  now : Instant
  tag : String
  work : Work
deriving DecidableEq

/-- A committed deferral or nothing; the delivery ends either way. -/
def deferThenDone (db : InferDb) (args : InferFillArgs) (attempt : Option Int) (error : String)
    (retryInferenceJob : Bool) (i : Input) : InferDb × Phase :=
  match deferAndEnqueue db args attempt error retryInferenceJob i.tag i.now with
  | .ok db' => (db', .done)
  | .error _ => (db, .done)

/-- The lifecycle call a delivery ends with; its result is not looked at. -/
def finishThenDone (db : InferDb) (args : InferFillArgs) (attempt : Int) (status : LifecycleStatus)
    (i : Input) : InferDb × Phase :=
  match Queue.finish db.queue.lifecycles args.lifecycleId (some attempt) status none i.now with
  | .ok t => ({ db with queue := { db.queue with lifecycles := t } }, .done)
  | .error _ => (db, .done)

/-- The next transaction of a delivery. -/
def transact (db : InferDb) (args : InferFillArgs) (phase : Phase) (i : Input) : InferDb × Phase :=
  match phase with
  | .received =>
      match Queue.startAt db.queue.lifecycles args.lifecycleId i.now with
      | .ok (.started k, t) | .ok (.recovered k, t) =>
          ({ db with queue := { db.queue with lifecycles := t } }, .admitted k)
      | .ok (.duplicate k, _) => (db, .duplicate k)
      | .ok (.saturated k, _) => (db, .saturated k)
      | .ok (.terminal, _) => (db, .done)
      | .error _ => (db, .done)
  | .duplicate k =>
      -- a duplicate delivery may still find the job unclaimed and take it over
      match reconcileAttempt db.jobs args.jobId k with
      | .ok (jobs, true) => ({ db with jobs := jobs }, .claimed k)
      | _ => (db, .done)
  | .saturated k => deferThenDone db args k "worker capacity saturated" false i
  | .admitted k =>
      match reconcileAttempt db.jobs args.jobId k with
      | .ok (jobs, true) => ({ db with jobs := jobs }, .claimed k)
      | .ok (_, false) => (db, .done)
      -- the one running job allowed per workspace is a unique index, reported as an error
      | .error e => if e = workspaceBusy then (db, .busy k) else (db, .done)
  | .busy k => deferThenDone db args (some k) "workspace has a running infer-fill job" false i
  | .claimed k =>
      -- from here on the worker goes by the attempt of the job row
      (db, .working (((db.jobs.get? args.jobId).map InferenceJob.attempt).getD k))
  | .working k =>
      match i.work with
      | .ok proposed skipped => (db, .succeeded k proposed skipped)
      | .unauthorized message => (db, .rejected k message)
      | .error message => (db, .retrying k message)
  | .succeeded k proposed skipped =>
      match completeProposalsAttempt db.jobs args.jobId k proposed skipped with
      | .ok (jobs, true) => ({ db with jobs := jobs }, .completed k)
      | _ => (db, .done)
  | .completed k => finishThenDone db args k .completed i
  | .rejected k message =>
      match failAttempt db.jobs args.jobId k message with
      | .ok (jobs, _) => ({ db with jobs := jobs }, .failed k)
      | .error _ => (db, .done)
  | .failed k => finishThenDone db args k .failed i
  | .retrying k message => deferThenDone db args (some k) message true i
  | .done => (db, .done)

/-! ## All parties -/

/-- A delivery of a job in the hands of a worker. -/
structure Delivery where
  args : InferFillArgs
  phase : Phase
deriving DecidableEq

/-- The database, the jobs issued so far by lifecycle, and the deliveries under way. -/
structure State where
  db : InferDb
  issued : OrderedMap Uuid InferFillArgs
  deliveries : OrderedMap Nat Delivery

/-- Nothing has been issued. -/
def State.empty : State := ⟨⟨QueueDb.empty, Table.empty⟩, OrderedMap.empty, OrderedMap.empty⟩

/-- One transaction of one party. -/
inductive Label where
  | enqueue (args : InferFillArgs) (policy : Policy) (tag : String) (now : Instant)
  | deliver (p : Nat) (lifecycleId : Uuid)
  | advance (p : Nat) (i : Input)
  | heartbeat (p : Nat) (now : Instant)
  | crash (p : Nat)
  | queue (c : Call)
deriving DecidableEq

/-- A queue call that is not directed at a lifecycle of an issued job. -/
def foreign (s : State) (c : Call) : Bool :=
  c.op.lifecycle.all fun l => (s.issued.get? l).isNone

/-- The state after a label; one that is not enabled changes nothing. -/
def step (s : State) : Label → State
  | .enqueue args policy tag now =>
      match enqueueInferFill s.db args policy tag now with
      | .ok db => { s with db := db, issued := s.issued.insert args.lifecycleId args }
      | .error _ => s
  | .deliver p lifecycleId =>
      match s.deliveries.get? p, s.issued.get? lifecycleId with
      | none, some args => { s with deliveries := s.deliveries.insert p ⟨args, .received⟩ }
      | _, _ => s
  | .advance p i =>
      match s.deliveries.get? p with
      | none => s
      | some d =>
          let r := transact s.db d.args d.phase i
          { s with db := r.1, deliveries := s.deliveries.insert p ⟨d.args, r.2⟩ }
  | .heartbeat p now =>
      match s.deliveries.get? p with
      | some ⟨args, .working k⟩ =>
          match Queue.renewAt s.db.queue.lifecycles args.lifecycleId k now with
          | .ok (t, _) => { s with db := { s.db with queue := { s.db.queue with lifecycles := t } } }
          | .error _ => s
      | _ => s
  -- a worker that dies leaves the database as its last transaction left it
  | .crash p => { s with deliveries := s.deliveries.erase p }
  | .queue c =>
      if foreign s c then { s with db := { s.db with queue := Queue.after s.db.queue c } } else s

theorem step_advance {s : State} {p : Nat} {d : Delivery} (h : s.deliveries.get? p = some d)
    (i : Input) :
    step s (.advance p i) =
      { s with
        db := (transact s.db d.args d.phase i).1
        deliveries := s.deliveries.insert p ⟨d.args, (transact s.db d.args d.phase i).2⟩ } := by
  simp only [step, h]

end Yorishiro.Inference
