import Yorishiro.Queue.Delivery
import Yorishiro.Queue.Dispatch
import Yorishiro.Queue.Terminal

/-!
# Retirement of a tenant

`disable_as` and `disable_by_operator` end in one transaction. Under the tenant's membership
lock it disables the tenant, revokes its keys and runs `cancel_work`, whose two bulk
statements cancel the lifecycles and delete the dispatches of the tenant's workspaces. A bulk
statement takes the rows that match when it begins and comes to them one at a time: it writes
a row as that stands by then, if the filter still holds of it, and locks it until the commit.

Relays and workers run beside it; a call that would write a locked row waits. Other
transactions record jobs. Those of the import worker and of the reindex scheduler take the
membership lock and check that the tenant is active before they record. A request takes no
lock: it was authenticated, and its transaction commits what it has recorded at any time.
-/

set_option autoImplicit false

namespace Yorishiro.Queue

open Yorishiro.Lib Yorishiro.Lib.Transition

/-! ## State -/

/-- Who may record jobs: a request that was authenticated, or an open transaction with what
it has recorded so far. A fenced transaction took the membership lock of its tenant. -/
inductive Party where
  | request (workspaceId : Uuid)
  | recording (fenced : Bool) (workspaceId : Uuid) (rows : List (Instant × Recording))
  | ended
deriving DecidableEq

/-- Where the transaction of a retirement stands. `todo` are the rows a bulk statement has
yet to come to. -/
inductive RetirementPhase where
  | idle
  | locked
  | cancelling (now : Instant) (todo cancelled : List Uuid)
  | deleting (now : Instant) (cancelled todo deleted : List Uuid)
deriving DecidableEq

/-- The committed tables, the parties that record jobs, the messages handed to the provider,
whether the tenant is disabled, and its retirement. -/
structure TenantQueue where
  db : QueueDb
  parties : List Party
  messages : List Delivery
  disabled : Bool
  retirement : RetirementPhase
deriving DecidableEq

/-- A tenant that is active, and no job. -/
def TenantQueue.start : TenantQueue := ⟨QueueDb.empty, [], [], false, .idle⟩

/-- The lifecycles the retirement has written. -/
def RetirementPhase.cancelled : RetirementPhase → List Uuid
  | .cancelling _ _ cancelled | .deleting _ cancelled _ _ => cancelled
  | .idle | .locked => []

/-- The dispatches the retirement has deleted. -/
def RetirementPhase.deleted : RetirementPhase → List Uuid
  | .deleting _ _ _ deleted => deleted
  | .idle | .locked | .cancelling _ _ _ => []

/-- The bulk statements of the retirement have begun. -/
def RetirementPhase.underway : RetirementPhase → Bool
  | .cancelling _ _ _ | .deleting _ _ _ _ => true
  | .idle | .locked => false

/-- The transaction is open. -/
def Party.isOpen : Party → Bool
  | .recording _ _ _ => true
  | .request _ | .ended => false

/-- No transaction is open. -/
def TenantQueue.noneOpen (s : TenantQueue) : Bool :=
  decide (s.retirement = .idle) && s.parties.all fun p => !p.isOpen

/-! ## `cancel_work` -/

section CancelWork

variable (owned : Uuid → Bool)

/-- `workspace_id IN (...)`, for the workspaces of the tenant. -/
def inTenant (workspaceId : Option Uuid) : Bool := workspaceId.any owned

/-- The filter of the update: the lifecycle is the tenant's and has not ended. -/
def cancellable (row : Lifecycle) : Bool :=
  inTenant owned row.workspaceId && !decide (row.status = .completed) &&
    !decide (row.status = .cancelled)

/-- The row the update writes. -/
def cancelRow (now : Instant) (row : Lifecycle) : Lifecycle :=
  { row with
    status := .cancelled
    cancelledAt := some now
    leaseUntil := none
    error := some "tenant disabled" }

/-- The commit of the two bulk statements. -/
def cancelWork (db : QueueDb) (now : Instant) (cancelled deleted : List Uuid) :
    Except DbErr QueueDb := do
  let (lifecycles, _) ← db.lifecycles.updateWhere (fun id _ => decide (id ∈ cancelled))
    (cancelRow now)
  .ok ⟨lifecycles, db.outbox.deleteWhere fun id _ => decide (id ∈ deleted)⟩

end CancelWork

/-! ## Steps -/

/-- The calls of relays and workers, requeues apart. -/
def Op.serving : Op → Bool
  | .record .. | .recordQuery .. | .closeUnavailable .. | .requeue .. => false
  | _ => true

/-- A statement or a call of one party. -/
inductive RetirementLabel where
  | authenticate (workspaceId : Uuid)
  | begin (i : Nat)
  | beginFenced (workspaceId : Uuid)
  | dispatch (i : Nat) (now : Instant) (spec : JobSpec) (lifecycleId : Uuid)
      (target : Except String JobTarget) (policy : Except String ConcurrencyPolicy)
  | search (i : Nat) (now : Instant) (dispatchId requestId : Uuid) (deadlineAt : Instant)
      (tag : String)
  | commit (i : Nat)
  | rollback (i : Nat)
  | scan (now : CurrentTimestamp)
  | call (c : Call)
  | requeue (m : Nat) (tag : String) (now : Instant)
  | disable
  | cancelAll (now : Instant)
  | cancel (id : Uuid)
  | deleteAll
  | delete (id : Uuid)
  | commitDisable
  | rollbackDisable
deriving DecidableEq

/-- A call on the committed tables; one that would write a row the retirement has written
waits for it. -/
def TenantQueue.serve (s : TenantQueue) (c : Call) : TenantQueue :=
  if (s.retirement.cancelled.any fun id =>
        decide ((after s.db c).lifecycles.get? id ≠ s.db.lifecycles.get? id)) ||
      s.retirement.deleted.any fun id =>
        decide ((after s.db c).outbox.get? id ≠ s.db.outbox.get? id) then s
  else { s with db := after s.db c }

/-- One more recording of an open transaction, for its own workspace. -/
def TenantQueue.record (s : TenantQueue) (i : Nat) (now : Instant)
    (r : Uuid → Option Recording) : TenantQueue :=
  match s.parties[i]? with
  | some (.recording fenced workspace rows) =>
      match r workspace with
      | some r =>
          { s with parties := s.parties.set i (.recording fenced workspace (rows ++ [(now, r)])) }
      | none => s
  | _ => s

/-- The party after its transaction: a request may go on. -/
def closed (fenced : Bool) (workspace : Uuid) : Party :=
  if fenced then .ended else .request workspace

section Steps

variable (owned : Uuid → Bool)

/-- The party holds the membership lock of the tenant. -/
def Party.holdsLock : Party → Bool
  | .recording true workspace _ => owned workspace
  | _ => false

/-- Nobody holds the membership lock of the tenant. -/
def TenantQueue.lockFree (s : TenantQueue) : Bool :=
  decide (s.retirement = .idle) && s.parties.all fun p => !p.holdsLock owned

/-- The state after a label; one that is not enabled changes nothing. -/
def retirementStep (s : TenantQueue) : RetirementLabel → TenantQueue
  | .authenticate workspace =>
      -- `require_active` reads the committed tenant
      if owned workspace && s.disabled then s
      else { s with parties := s.parties ++ [.request workspace] }
  | .begin i =>
      match s.parties[i]? with
      | some (.request workspace) =>
          { s with parties := s.parties.set i (.recording false workspace []) }
      | _ => s
  | .beginFenced workspace =>
      if owned workspace && (s.disabled || !s.lockFree owned) then s
      else { s with parties := s.parties ++ [.recording true workspace []] }
  | .dispatch i now spec lifecycleId target policy =>
      s.record i now fun workspace =>
        if spec.workspaceId = workspace then some (dispatchJob spec lifecycleId target policy)
        else none
  | .search i now dispatchId requestId deadlineAt tag =>
      s.record i now fun workspace =>
        some (openQuery workspace dispatchId requestId deadlineAt tag)
  | .commit i =>
      match s.parties[i]? with
      | some (.recording fenced workspace rows) =>
          match recordAll s.db rows with
          | .ok db => { s with db := db, parties := s.parties.set i (closed fenced workspace) }
          | .error _ => { s with parties := s.parties.set i (closed fenced workspace) }
      | _ => s
  | .rollback i =>
      match s.parties[i]? with
      | some (.recording fenced workspace _) =>
          { s with parties := s.parties.set i (closed fenced workspace) }
      | _ => s
  | .scan now =>
      match due s.db now with
      | some rows => { s with messages := s.messages ++ rows.filterMap deliveryOf }
      | none => s
  | .call c => if c.op.serving then s.serve c else s
  | .requeue m tag now =>
      match s.messages[m]? with
      | some d =>
          match requeueJob d tag with
          | some job => s.serve ⟨now, .requeue d.lifecycleId job⟩
          | none => s
      | none => s
  | .disable => if s.lockFree owned then { s with retirement := .locked } else s
  | .cancelAll now =>
      match s.retirement with
      | .locked =>
          { s with retirement := .cancelling now (s.db.lifecycles.keysWhere (cancellable owned)) [] }
      | _ => s
  | .cancel id =>
      match s.retirement with
      | .cancelling now todo cancelled =>
          if (s.db.lifecycles.get? id).any (cancellable owned) && decide (id ∈ todo) then
            { s with retirement := .cancelling now (todo.filter (· ≠ id)) (id :: cancelled) }
          else { s with retirement := .cancelling now (todo.filter (· ≠ id)) cancelled }
      | _ => s
  | .deleteAll =>
      match s.retirement with
      | .cancelling now [] cancelled =>
          { s with retirement :=
              .deleting now cancelled (s.db.outbox.keysWhere fun d => inTenant owned d.workspaceId) [] }
      | _ => s
  | .delete id =>
      match s.retirement with
      | .deleting now cancelled todo deleted =>
          if (s.db.outbox.get? id).any (fun d => inTenant owned d.workspaceId) &&
              decide (id ∈ todo) then
            { s with retirement := .deleting now cancelled (todo.filter (· ≠ id)) (id :: deleted) }
          else { s with retirement := .deleting now cancelled (todo.filter (· ≠ id)) deleted }
      | _ => s
  | .commitDisable =>
      match s.retirement with
      | .deleting now cancelled [] deleted =>
          match cancelWork s.db now cancelled deleted with
          | .ok db => { s with db := db, disabled := true, retirement := .idle }
          | .error _ => { s with retirement := .idle }
      | _ => s
  | .rollbackDisable => { s with retirement := .idle }

end Steps

end Yorishiro.Queue
