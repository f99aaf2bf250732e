import Yorishiro.Lib.Transition
import Yorishiro.Queue.Outbox

/-!
# Calls on the queue

Everything workers, relays and writers do to the queue's two tables, as one
inductive type of calls. `exec` performs a call at its time and returns the
committed database with the caller's reply; a failed call commits nothing.

`Trace` keeps the log of calls and replies beside the database, and `observe` is
one call on it. A run is any list of calls: the calls of any number of workers
and relays in the order in which their transactions commit.

`rowChange` and `dispatchChange` say what a call writes to one row of each table.
The proofs of the other modules that ask what a call does to a row start from them.
-/

set_option autoImplicit false

namespace Yorishiro.Queue

open Yorishiro.Lib Yorishiro.Lib.Transition

/-- The operations of the queue's models, with the arguments their callers choose.
`finish` is called with the attempt of the worker that ends; the one caller that
has no attempt is `close_unavailable`. -/
inductive Op where
  | record (e : Enqueue) (job : Job)
  | recordQuery (id : Uuid) (deadlineAt : Instant) (job : Job)
  | start (id : Uuid)
  | renew (id : Uuid) (attempt : Int)
  | defer (id : Uuid) (attempt : Option Int) (error : String)
  | deferAt (id : Uuid) (attempt : Int) (error : String)
  | finish (id : Uuid) (attempt : Int) (status : LifecycleStatus) (error : Option String)
  | closeUnavailable (id : Uuid) (diagnostic : String)
  | requeue (id : Uuid) (job : Job)
  | claim (id token : Uuid) (leaseSeconds : Int) (relayNow : Instant)
  | acknowledge (id token : Uuid) (providerJobId : String)
  | expire (id : Uuid)
deriving DecidableEq

/-- An operation and the time it is performed at. -/
structure Call where
  time : Instant
  op : Op
deriving DecidableEq

/-- What a successful call returns. -/
inductive Reply where
  | done
  | flag (b : Bool)
  | admission (a : Admission)
deriving DecidableEq, Repr

/-- Performs a call: the committed database and the reply. -/
def exec (db : QueueDb) (c : Call) : Except DbErr (QueueDb × Reply) :=
  match c.op with
  | .record e job => (recordInTransaction db e job c.time).map fun db' => (db', .done)
  | .recordQuery id deadlineAt job =>
      (recordQueryInTransaction db id deadlineAt job).map fun db' => (db', .done)
  | .start id =>
      (startAt db.lifecycles id c.time).map fun r =>
        ({ db with lifecycles := r.2 }, .admission r.1)
  | .renew id attempt =>
      (renewAt db.lifecycles id attempt c.time).map fun r =>
        ({ db with lifecycles := r.1 }, .flag r.2)
  | .defer id attempt error =>
      (Queue.defer db.lifecycles id attempt error c.time).map fun t =>
        ({ db with lifecycles := t }, .done)
  | .deferAt id attempt error =>
      (Queue.deferAt db.lifecycles id attempt error c.time).map fun t =>
        ({ db with lifecycles := t }, .done)
  | .finish id attempt status error =>
      (Queue.finish db.lifecycles id (some attempt) status error c.time).map fun t =>
        ({ db with lifecycles := t }, .done)
  | .closeUnavailable id diagnostic =>
      (Queue.finish db.lifecycles id none .unavailable (some diagnostic) c.time).map fun t =>
        ({ db with lifecycles := t }, .done)
  | .requeue id job => (recordLifecyclePayload db id job).map fun db' => (db', .done)
  | .claim id token leaseSeconds relayNow =>
      (claimDispatch db id token leaseSeconds relayNow c.time).map fun r => (r.1, .flag r.2)
  | .acknowledge id token providerJobId =>
      (acknowledgeDispatch db id token providerJobId c.time).map fun r => (r.1, .flag r.2)
  | .expire id => .ok (Queue.expire db id, .done)

/-- The database after a call. -/
def after (db : QueueDb) (c : Call) : QueueDb :=
  match exec db c with
  | .ok (db', _) => db'
  | .error _ => db

/-- A database with the log of the calls made on it, newest first. -/
structure Trace where
  db : QueueDb
  log : List (Call × Except DbErr Reply)

/-- A database before any call of the log. -/
def Trace.start (db : QueueDb) : Trace := ⟨db, []⟩

/-- One call, its reply recorded. -/
def observe (s : Trace) (c : Call) : Trace where
  db := after s.db c
  log := (c, (exec s.db c).map Prod.snd) :: s.log

/-- The times of a list of calls never decrease. -/
def Nondecreasing (calls : List Call) : Prop :=
  calls.Pairwise fun c d => c.time ≤ d.time

instance (calls : List Call) : Decidable (Nondecreasing calls) :=
  inferInstanceAs (Decidable (List.Pairwise _ _))

/-! ## Admissions of a log -/

/-- The attempt number a logged call was granted on lifecycle `id`. -/
def grantedTo (id : Uuid) : Call × Except DbErr Reply → Option Int
  | (⟨_, .start l⟩, .ok (.admission a)) => if l = id then a.granted else none
  | _ => none

/-- The attempt numbers granted on lifecycle `id`, newest first. -/
def admissions (id : Uuid) (log : List (Call × Except DbErr Reply)) : List Int :=
  log.filterMap (grantedTo id)

/-- The call carries attempt number `k` of lifecycle `id`: it is made on behalf of
the worker that was granted `k`. -/
def Op.Carries (id : Uuid) (k : Int) : Op → Prop
  | .renew l a => l = id ∧ a = k
  | .defer l a _ => l = id ∧ a = some k
  | .deferAt l a _ => l = id ∧ a = k
  | .finish l a _ _ => l = id ∧ a = k
  | _ => False

/-- The lifecycle row a call is directed at. -/
def Op.lifecycle : Op → Option Uuid
  | .record e _ => some e.id
  | .start id | .renew id _ | .defer id _ _ | .deferAt id _ _ | .finish id _ _ _ => some id
  | .closeUnavailable id _ | .requeue id _ => some id
  | .recordQuery _ _ _ | .claim _ _ _ _ | .acknowledge _ _ _ | .expire _ => none

theorem Op.Carries.lifecycle_eq {id : Uuid} {k : Int} {op : Op} (h : op.Carries id k) :
    op.lifecycle = some id := by
  cases op with
  | renew l a => exact congrArg some h.1
  | defer l a error => exact congrArg some h.1
  | deferAt l a error => exact congrArg some h.1
  | finish l a status error => exact congrArg some h.1
  | _ => exact h.elim

theorem Op.Carries.unique {id : Uuid} {j k : Int} {op : Op} (hj : op.Carries id j)
    (hk : op.Carries id k) : j = k := by
  cases op with
  | renew l a => exact hj.2.symm.trans hk.2
  | defer l a error => exact Option.some.inj (hj.2.symm.trans hk.2)
  | deferAt l a error => exact hj.2.symm.trans hk.2
  | finish l a status error => exact hj.2.symm.trans hk.2
  | _ => exact hj.elim

/-! ## Effect of a call on one lifecycle row -/

/-- What a call can do to the lifecycle row `id`: the row before, the row after and
the attempt number granted. -/
inductive RowEffect (db : QueueDb) (c : Call) (id : Uuid) :
    Option Lifecycle → Option Lifecycle → Option Int → Prop where
  | same (r : Option Lifecycle) : RowEffect db c id r r none
  | insert (e : Enqueue) (job : Job) (op : c.op = .record e job) :
      RowEffect db c id none (some (e.row c.time)) none
  | admission (row : Lifecycle) (op : c.op = .start id) (admissible : Admissible row c.time) :
      RowEffect db c id (some row) (some (claimRow c.time row)) (some (row.attempt + 1))
  | fenced (row row' : Lifecycle) (carries : c.op.Carries id row.attempt)
      (running : row.status = .running) (attempt : row'.attempt = row.attempt) :
      RowEffect db c id (some row) (some row') none
  | unfenced (row row' : Lifecycle) (target : c.op.lifecycle = some id)
      (carries : ∀ k, ¬ c.op.Carries id k) (idle : row'.status ≠ .running)
      (attempt : row'.attempt = row.attempt) : RowEffect db c id (some row) (some row') none
  | dispatched (row : Lifecycle) (provider : String) (carries : ∀ k, ¬ c.op.Carries id k) :
      RowEffect db c id (some row) (some { row with providerJobId := some provider }) none
  | requeue (row : Lifecycle) (job : Job) (op : c.op = .requeue id job)
      (waiting : requeueable row = true) (dispatched : 0 < dispatches db id) :
      RowEffect db c id (some row) (some { row with status := .queued, attempt := 0 }) none

theorem after_of_ok {db db' : QueueDb} {c : Call} {r : Reply} (h : exec db c = .ok (db', r)) :
    after db c = db' := by
  rw [after, h]

theorem after_of_error {db : QueueDb} {c : Call} {e : DbErr} (h : exec db c = .error e) :
    after db c = db := by
  rw [after, h]

theorem grantedTo_eq_none {id : Uuid} {c : Call} {r : Except DbErr Reply}
    (h : ∀ a, c.op = .start id → r ≠ .ok (.admission a)) : grantedTo id (c, r) = none := by
  obtain ⟨time, op⟩ := c
  cases op with
  | start l =>
      cases r with
      | error e => rfl
      | ok reply =>
          cases reply with
          | admission a =>
              by_cases hl : l = id
              · subst hl
                exact absurd rfl (h a rfl)
              · simp [grantedTo, hl]
          | done => rfl
          | flag b => rfl
  | _ => rfl

/-- The row a call writes over the lifecycle row `id` it finds. -/
inductive RowUpdate (db : QueueDb) (c : Call) (id : Uuid) (row : Lifecycle) : Lifecycle → Prop where
  | start (op : c.op = .start id) (admissible : Admissible row c.time)
      (unsaturated : saturated db.lifecycles id row c.time = false) :
      RowUpdate db c id row (claimRow c.time row)
  | renew (op : c.op = .renew id row.attempt) (running : row.status = .running) :
      RowUpdate db c id row { row with leaseUntil := some (c.time + leaseDuration) }
  | defer (attempt : Option Int) (error : String) (op : c.op = .defer id attempt error)
      (filter : deferFilter attempt row = true) :
      RowUpdate db c id row { row with
        status := .retrying, retryAt := some c.time, providerJobId := none, leaseUntil := none,
        error := some error }
  | deferAt (error : String) (op : c.op = .deferAt id row.attempt error)
      (running : row.status = .running) :
      RowUpdate db c id row { row with
        status := .retrying, retryAt := some c.time, leaseUntil := none, error := some error }
  | finish (status : LifecycleStatus) (error : Option String)
      (op : c.op = .finish id row.attempt status error) (running : row.status = .running) :
      RowUpdate db c id row (finishRow status error c.time row)
  | close (diagnostic : String) (op : c.op = .closeUnavailable id diagnostic) :
      RowUpdate db c id row (finishRow .unavailable (some diagnostic) c.time row)
  | requeue (job : Job) (op : c.op = .requeue id job) (waiting : requeueable row = true)
      (dispatched : 0 < dispatches db id) :
      RowUpdate db c id row { row with status := .queued, attempt := 0 }
  | acknowledge (l token : Uuid) (provider : String) (op : c.op = .acknowledge l token provider) :
      RowUpdate db c id row { row with providerJobId := some provider }

/-- What becomes of the lifecycle row `id` in a call, and the attempt number granted on it. -/
inductive RowChange (db : QueueDb) (c : Call) (id : Uuid) :
    Option Lifecycle → Option Lifecycle → Option Int → Prop where
  | same (r : Option Lifecycle) : RowChange db c id r r none
  | insert (e : Enqueue) (job : Job) (op : c.op = .record e job) :
      RowChange db c id none (some (e.row c.time)) none
  | update (row row' : Lifecycle) (update : RowUpdate db c id row row') :
      RowChange db c id (some row) (some row')
        (if c.op = .start id then some (row.attempt + 1) else none)

/-- A row that a statement replaced, seen from lifecycle `id`. -/
theorem RowChange.of_replaces {db : QueueDb} {c : Call} {id l : Uuid} {t' : Lifecycles}
    {row row' : Lifecycle} (hrow : db.lifecycles.get? l = some row)
    (hrep : Table.Replaces db.lifecycles t' l row') (hop : ∀ k, c.op ≠ .start k)
    (hupdate : RowUpdate db c l row row') :
    RowChange db c id (db.lifecycles.get? id) (t'.get? id) none := by
  by_cases hl : l = id
  · subst hl
    rw [hrow, hrep.get?_self]
    have hchange := RowChange.update row row' hupdate
    rwa [if_neg (hop l)] at hchange
  · rw [hrep.get?_ne (Ne.symm hl)]
    exact .same _

section RowChange

variable {db db' : QueueDb} {time : Instant} {reply : Reply} (id : Uuid)

theorem rowChange_record {e : Enqueue} {job : Job}
    (h : exec db ⟨time, .record e job⟩ = .ok (db', reply)) :
    RowChange db ⟨time, .record e job⟩ id (db.lifecycles.get? id) (db'.lifecycles.get? id) none := by
  obtain ⟨d, hd, hr⟩ := Except.map_eq_ok h
  cases hr
  obtain ⟨hfresh, -, hrep, -⟩ := recordInTransaction_eq_ok hd
  by_cases hl : e.id = id
  · subst hl
    rw [hfresh, hrep.get?_self]
    exact .insert e job rfl
  · rw [hrep.get?_ne (Ne.symm hl)]
    exact .same _

/-- An admission writes the row it grants an attempt on. -/
theorem rowChange_start {l : Uuid} (h : exec db ⟨time, .start l⟩ = .ok (db', reply)) :
    RowChange db ⟨time, .start l⟩ id (db.lifecycles.get? id) (db'.lifecycles.get? id)
      (grantedTo id (⟨time, .start l⟩, .ok reply)) := by
  obtain ⟨⟨a, t⟩, hd, hr⟩ := Except.map_eq_ok h
  cases hr
  rcases startAt_eq_ok hd with ⟨row, hrow, hg, hadm, hsat, hrep⟩ | ⟨hg, ht⟩
  · by_cases hl : l = id
    · subst hl
      simp only [grantedTo, if_pos, hg]
      rw [hrow, hrep.get?_self]
      have hupdate : RowUpdate db ⟨time, .start l⟩ l row (claimRow time row) :=
        .start rfl hadm hsat
      have hchange := RowChange.update row _ hupdate
      rwa [if_pos rfl] at hchange
    · simp only [grantedTo, hl, if_false]
      rw [hrep.get?_ne (Ne.symm hl)]
      exact .same _
  · simp only [grantedTo, hg, ite_self]
    subst ht
    exact .same _

theorem rowChange_renew {l : Uuid} {k : Int}
    (h : exec db ⟨time, .renew l k⟩ = .ok (db', reply)) :
    RowChange db ⟨time, .renew l k⟩ id (db.lifecycles.get? id) (db'.lifecycles.get? id) none := by
  obtain ⟨⟨t, b⟩, hd, hr⟩ := Except.map_eq_ok h
  cases hr
  rcases renewAt_eq_ok hd with ⟨-, row, hrow, hk, hrun, hrep⟩ | ⟨-, ht⟩
  · subst hk
    exact .of_replaces hrow hrep (by simp) (.renew rfl hrun)
  · subst ht
    exact .same _

theorem rowChange_finish {l : Uuid} {k : Int} {status : LifecycleStatus} {error : Option String}
    (h : exec db ⟨time, .finish l k status error⟩ = .ok (db', reply)) :
    RowChange db ⟨time, .finish l k status error⟩ id (db.lifecycles.get? id)
      (db'.lifecycles.get? id) none := by
  obtain ⟨t, hd, hr⟩ := Except.map_eq_ok h
  cases hr
  obtain ⟨row, hrow, hp, hrep⟩ := finish_eq_ok hd
  obtain ⟨rfl, hrun⟩ : row.attempt = k ∧ row.status = .running := by
    simpa [finishFilter] using hp
  exact .of_replaces hrow hrep (by simp) (.finish status error rfl hrun)

/-- An acknowledgement marks some lifecycle dispatched, not necessarily `id`. -/
theorem rowChange_acknowledge {l token : Uuid} {provider : String}
    (h : exec db ⟨time, .acknowledge l token provider⟩ = .ok (db', reply)) :
    RowChange db ⟨time, .acknowledge l token provider⟩ id (db.lifecycles.get? id)
      (db'.lifecycles.get? id) none := by
  obtain ⟨⟨d, b⟩, hd, hr⟩ := Except.map_eq_ok h
  cases hr
  rcases acknowledgeDispatch_eq_ok hd with
    ⟨-, -, -, -, -, hlife | ⟨m, row, hrow, hrep⟩⟩ | ⟨-, hdb⟩
  · rw [hlife]
    exact .same _
  · exact .of_replaces hrow hrep (by simp) (.acknowledge l token provider rfl)
  · subst hdb
    exact .same _

end RowChange

/-- **The lifecycle rows a call writes.** -/
theorem rowChange (db : QueueDb) (c : Call) (id : Uuid) :
    RowChange db c id (db.lifecycles.get? id) ((after db c).lifecycles.get? id)
      (grantedTo id (c, (exec db c).map Prod.snd)) := by
  -- a call that fails rolls its transaction back, so only successful calls are left to split
  cases hexec : exec db c with
  | error e =>
      rw [after_of_error hexec, grantedTo_eq_none (fun a _ => by simp [Except.map])]
      exact .same _
  | ok r =>
      obtain ⟨db', reply⟩ := r
      rw [after_of_ok hexec]
      show RowChange db c id _ _ (grantedTo id (c, .ok reply))
      -- admission is the only call whose reply can carry an attempt number
      have hnone : (∀ l, c.op ≠ .start l) → grantedTo id (c, .ok reply) = none :=
        fun h => grantedTo_eq_none fun a hop => absurd hop (h id)
      obtain ⟨time, op⟩ := c
      cases op with
      | record e job =>
          rw [hnone (by simp)]
          exact rowChange_record id hexec
      | recordQuery l deadlineAt job =>
          rw [hnone (by simp)]
          obtain ⟨d, hd, hr⟩ := Except.map_eq_ok hexec
          cases hr
          rw [(recordQueryInTransaction_eq_ok hd).2.1]
          exact .same _
      | start l => exact rowChange_start id hexec
      | renew l k =>
          rw [hnone (by simp)]
          exact rowChange_renew id hexec
      | defer l attempt error =>
          rw [hnone (by simp)]
          obtain ⟨t, hd, hr⟩ := Except.map_eq_ok hexec
          cases hr
          obtain ⟨row, hrow, hp, hrep⟩ := defer_eq_ok hd
          exact .of_replaces hrow hrep (by simp) (.defer attempt error rfl hp)
      | deferAt l k error =>
          rw [hnone (by simp)]
          obtain ⟨t, hd, hr⟩ := Except.map_eq_ok hexec
          cases hr
          obtain ⟨row, hrow, hk, hrun, -, hrep⟩ := deferAt_eq_ok hd
          subst hk
          exact .of_replaces hrow hrep (by simp) (.deferAt error rfl hrun)
      | finish l k status error =>
          rw [hnone (by simp)]
          exact rowChange_finish id hexec
      | closeUnavailable l diagnostic =>
          rw [hnone (by simp)]
          obtain ⟨t, hd, hr⟩ := Except.map_eq_ok hexec
          cases hr
          -- this `finish` passes no attempt number, so its filter is empty
          obtain ⟨row, hrow, -, hrep⟩ := finish_eq_ok hd
          exact .of_replaces hrow hrep (by simp) (.close diagnostic rfl)
      | requeue l job =>
          rw [hnone (by simp)]
          obtain ⟨d, hd, hr⟩ := Except.map_eq_ok hexec
          cases hr
          obtain ⟨row, hrow, hq, hdisp, hrep, -⟩ := recordLifecyclePayload_eq_ok hd
          exact .of_replaces hrow hrep (by simp) (.requeue job rfl hq hdisp)
      | claim l token lease relayNow =>
          rw [hnone (by simp)]
          obtain ⟨⟨d, b⟩, hd, hr⟩ := Except.map_eq_ok hexec
          cases hr
          rw [(claimDispatch_eq_ok hd).1]
          exact .same _
      | acknowledge l token provider =>
          rw [hnone (by simp)]
          exact rowChange_acknowledge id hexec
      | expire l =>
          rw [hnone (by simp)]
          cases hexec
          exact .same _

/-- **What a call can do to one lifecycle row.** -/
theorem rowEffect (db : QueueDb) (c : Call) (id : Uuid) :
    RowEffect db c id (db.lifecycles.get? id) ((after db c).lifecycles.get? id)
      (grantedTo id (c, (exec db c).map Prod.snd)) := by
  have hchange := rowChange db c id
  generalize db.lifecycles.get? id = before at hchange ⊢
  generalize (after db c).lifecycles.get? id = now at hchange ⊢
  generalize grantedTo id (c, (exec db c).map Prod.snd) = grant at hchange ⊢
  cases hchange with
  | same => exact .same _
  | insert e job hop => exact .insert e job hop
  | update row row' hupdate =>
      cases hupdate with
      | start hop hadm =>
          rw [if_pos hop]
          exact .admission row hop hadm
      | renew hop hrun =>
          rw [hop, if_neg (by simp)]
          exact .fenced row _ (by rw [hop]; exact ⟨rfl, rfl⟩) hrun rfl
      | defer attempt error hop hp =>
          rw [hop, if_neg (by simp)]
          cases attempt with
          -- a deferral without an attempt number is the one `defer` that no fence protects
          | none =>
              exact .unfenced row _ (by rw [hop]; rfl) (by simp [hop, Op.Carries]) (by simp) rfl
          | some k =>
              obtain ⟨hk, hrun⟩ : row.attempt = k ∧ row.status = .running := by
                simpa [deferFilter] using hp
              exact .fenced row _ (by rw [hop]; exact ⟨rfl, by rw [hk]⟩) hrun rfl
      | deferAt error hop hrun =>
          rw [hop, if_neg (by simp)]
          exact .fenced row _ (by rw [hop]; exact ⟨rfl, rfl⟩) hrun rfl
      | finish status error hop hrun =>
          rw [hop, if_neg (by simp)]
          exact .fenced row _ (by rw [hop]; exact ⟨rfl, rfl⟩) hrun (finishRow_attempt _ _ _ _)
      | close diagnostic hop =>
          rw [hop, if_neg (by simp)]
          exact .unfenced row _ (by rw [hop]; rfl) (by simp [hop, Op.Carries])
            (by simp [finishRow]) (finishRow_attempt _ _ _ _)
      | requeue job hop hq hdisp =>
          rw [hop, if_neg (by simp)]
          exact .requeue row job hop hq hdisp
      | acknowledge l token provider hop =>
          rw [hop, if_neg (by simp)]
          exact .dispatched row provider (by simp [hop, Op.Carries])

/-- A call directed elsewhere leaves a lifecycle row, but for the provider's job. -/
theorem after_of_lifecycle_ne {db : QueueDb} {c : Call} {id : Uuid} {row : Lifecycle}
    (hrow : db.lifecycles.get? id = some row) (h : c.op.lifecycle ≠ some id) :
    ∃ providerJobId, (after db c).lifecycles.get? id =
      some { row with providerJobId := providerJobId } := by
  have heff := rowEffect db c id
  rw [hrow] at heff
  generalize (after db c).lifecycles.get? id = now at heff ⊢
  generalize grantedTo id (c, (exec db c).map Prod.snd) = grant at heff
  cases heff with
  | same => exact ⟨row.providerJobId, rfl⟩
  | dispatched _ provider => exact ⟨some provider, rfl⟩
  -- the remaining effects come from calls directed at `id` itself
  | admission _ hop => exact absurd (by rw [hop]; rfl) h
  | fenced _ row' hc => exact absurd hc.lifecycle_eq h
  | unfenced _ row' htarget => exact absurd htarget h
  | requeue _ job hop => exact absurd (by rw [hop]; rfl) h

/-- In particular it leaves the status and the attempt. -/
theorem after_keeps_of_lifecycle_ne {db : QueueDb} {c : Call} {id : Uuid} {row : Lifecycle}
    (hrow : db.lifecycles.get? id = some row) (h : c.op.lifecycle ≠ some id) :
    ∃ row', (after db c).lifecycles.get? id = some row' ∧ row'.status = row.status ∧
      row'.attempt = row.attempt := by
  obtain ⟨providerJobId, hrow'⟩ := after_of_lifecycle_ne hrow h
  exact ⟨_, hrow', rfl, rfl⟩

/-! ## Effect of a call on one outbox row -/

/-- What becomes of the outbox row `id` in a call. -/
inductive DispatchChange (c : Call) (id : Uuid) : Option Dispatch → Option Dispatch → Prop where
  | same (r : Option Dispatch) : DispatchChange c id r r
  | record (e : Enqueue) (job : Job) (op : c.op = .record e job) (key : e.id = id) :
      DispatchChange c id none (some (Job.newDispatch
        { job with payload := withLifecycleId job.payload e.id } (some e.id) none none))
  | recordQuery (deadlineAt : Instant) (job : Job) (op : c.op = .recordQuery id deadlineAt job) :
      DispatchChange c id none
        (some (job.newDispatch none (some deadlineAt) (some queryEmbeddingPriority)))
  | claim (d : Dispatch) (token : Uuid) (leaseSeconds : Int) (relayNow : Instant)
      (op : c.op = .claim id token leaseSeconds relayNow)
      (claimable : dispatchClaimable c.time d = true) :
      DispatchChange c id (some d) (some { d with
        lastAttemptAt := some c.time
        claimToken := some token.toString
        claimUntil := some (relayNow + leaseSeconds * 1000000) })
  | publish (d : Dispatch) (token : Uuid) (providerJobId : String)
      (op : c.op = .acknowledge id token providerJobId)
      (held : acknowledgeable token c.time d = true) :
      DispatchChange c id (some d) (some (publishedRow c.time d))
  | requeue (d : Dispatch) (l : Uuid) (job : Job) (op : c.op = .requeue l job)
      (lifecycle : d.lifecycleId = some l) :
      DispatchChange c id (some d) (some (requeueDispatch
        { job with payload := withLifecycleId job.payload l } d))
  | expire (d : Dispatch) (op : c.op = .expire id) : DispatchChange c id (some d) none

theorem DispatchChange.of_replaces {db : QueueDb} {c : Call} {id l : Uuid} {outbox : Outbox}
    {before : Option Dispatch} {d : Dispatch} (hbefore : db.outbox.get? l = before)
    (hrep : Table.Replaces db.outbox outbox l d)
    (hchange : l = id → DispatchChange c id before (some d)) :
    DispatchChange c id (db.outbox.get? id) (outbox.get? id) := by
  by_cases hl : l = id
  · subst hl
    rw [hbefore, hrep.get?_self]
    exact hchange rfl
  · rw [hrep.get?_ne (Ne.symm hl)]
    exact .same _

/-- The lease calls of workers write lifecycle rows only. -/
theorem dispatchChange_of_outbox_eq {db db' : QueueDb} {c : Call} {id : Uuid}
    (h : db'.outbox = db.outbox) :
    DispatchChange c id (db.outbox.get? id) (db'.outbox.get? id) := by
  rw [h]
  exact .same _

/-- **The outbox rows a call writes.** -/
theorem dispatchChange (db : QueueDb) (c : Call) (id : Uuid) :
    DispatchChange c id (db.outbox.get? id) ((after db c).outbox.get? id) := by
  cases hexec : exec db c with
  | error e =>
      rw [after_of_error hexec]
      exact .same _
  | ok r =>
      obtain ⟨db', reply⟩ := r
      rw [after_of_ok hexec]
      obtain ⟨time, op⟩ := c
      cases op with
      | record e job =>
          obtain ⟨d, hd, hr⟩ := Except.map_eq_ok hexec
          cases hr
          obtain ⟨-, hfresh, -, hrep⟩ := recordInTransaction_eq_ok hd
          exact .of_replaces hfresh hrep fun hl => .record e job rfl hl
      | recordQuery l deadlineAt job =>
          obtain ⟨d, hd, hr⟩ := Except.map_eq_ok hexec
          cases hr
          obtain ⟨hfresh, -, hrep⟩ := recordQueryInTransaction_eq_ok hd
          exact .of_replaces hfresh hrep fun hl => .recordQuery deadlineAt job (by rw [hl])
      | requeue l job =>
          obtain ⟨d, hd, hr⟩ := Except.map_eq_ok hexec
          cases hr
          obtain ⟨-, -, -, -, -, hrows⟩ := recordLifecyclePayload_eq_ok hd
          -- a requeue rewrites every outbox row of its lifecycle, whichever row `id` is
          rw [hrows id]
          cases hrow : db.outbox.get? id with
          | none => exact .same _
          | some row =>
              by_cases hl : row.lifecycleId = some l
              · simp only [Option.map_some, hl, if_true]
                exact .requeue row l job rfl hl
              · simp only [Option.map_some, hl, if_false]
                exact .same _
      | claim l token lease relayNow =>
          obtain ⟨⟨d, b⟩, hd, hr⟩ := Except.map_eq_ok hexec
          cases hr
          rcases (claimDispatch_eq_ok hd).2 with ⟨-, row, hrow, hp, hrep⟩ | ⟨-, hsame⟩
          · exact .of_replaces hrow hrep fun hl => .claim row token lease relayNow (by rw [hl]) hp
          · exact dispatchChange_of_outbox_eq hsame
      | acknowledge l token provider =>
          obtain ⟨⟨d, b⟩, hd, hr⟩ := Except.map_eq_ok hexec
          cases hr
          rcases acknowledgeDispatch_eq_ok hd with ⟨-, row, hrow, hp, hrep, -⟩ | ⟨-, hdb⟩
          · exact .of_replaces hrow hrep fun hl => .publish row token provider (by rw [hl]) hp
          · exact dispatchChange_of_outbox_eq (by rw [hdb])
      | expire l =>
          cases hexec
          show DispatchChange _ id _ ((db.outbox.delete l).get? id)
          rw [Table.get?_delete]
          by_cases hl : id = l
          · subst hl
            cases hrow : db.outbox.get? id with
            | none => simp only [if_true]; exact .same _
            | some row => simp only [if_true]; exact .expire row rfl
          · simp only [hl, if_false]
            exact .same _
      -- from here on the calls write lifecycle rows only
      | start l =>
          obtain ⟨d, hd, hr⟩ := Except.map_eq_ok hexec
          exact dispatchChange_of_outbox_eq (by cases hr; rfl)
      | renew l k =>
          obtain ⟨d, hd, hr⟩ := Except.map_eq_ok hexec
          exact dispatchChange_of_outbox_eq (by cases hr; rfl)
      | defer l k error =>
          obtain ⟨d, hd, hr⟩ := Except.map_eq_ok hexec
          exact dispatchChange_of_outbox_eq (by cases hr; rfl)
      | deferAt l k error =>
          obtain ⟨d, hd, hr⟩ := Except.map_eq_ok hexec
          exact dispatchChange_of_outbox_eq (by cases hr; rfl)
      | finish l k status error =>
          obtain ⟨d, hd, hr⟩ := Except.map_eq_ok hexec
          exact dispatchChange_of_outbox_eq (by cases hr; rfl)
      | closeUnavailable l diagnostic =>
          obtain ⟨d, hd, hr⟩ := Except.map_eq_ok hexec
          exact dispatchChange_of_outbox_eq (by cases hr; rfl)

end Yorishiro.Queue
