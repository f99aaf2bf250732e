import Yorishiro.Queue.ClaimProtocol
import Yorishiro.Queue.Fencing

/-!
# The recovery loop of a relay

A relay reads the rows that are `due`, and for each of them claims the row under a
token of its own, hands what it has read to the queue provider and acknowledges.
What it hands over is the row as the scan returned it; the claim compares only the
publication and the lease of the row.

Each row of a scan is one `RelayTask`, since the relay works on them concurrently.
`relayStep` is one database statement of one task, or a call of any other party.
`acknowledged_current` says when what was handed over is what the row holds at the
acknowledgement, and `staleScan` is a run in which it is not.
-/

set_option autoImplicit false

namespace Yorishiro.Queue

open Yorishiro.Lib Yorishiro.Lib.Transition

/-! ## The scan -/

/-- `RETRY_COOLDOWN_SECONDS` as a duration. -/
def retryCooldown : Int := 60 * 1000000

/-- A day as a duration. -/
def dayLength : Int := 24 * 60 * 60 * 1000000

/-- `RECOVERY_BATCH_SIZE`. -/
def recoveryBatchSize : Nat := 100

/-- A row a relay has read. -/
structure PendingDispatch where
  id : Uuid
  lifecycleId : Option Uuid
  jobName : String
  workerClass : WorkerClass
  payload : Json
  workerName : String
  queueName : Option String
  tags : Option (List String)
  deadlineAt : Option Instant
  workspaceId : Option Uuid
  priority : Option Int
deriving DecidableEq

/-- The lifecycle row the scan joins to a dispatch. -/
def joinedLifecycle (db : QueueDb) (d : Dispatch) : Option Lifecycle :=
  d.lifecycleId.bind db.lifecycles.get?

/-- `retry_at` has come. SQLite takes `datetime` of both, which is in UTC and has no fraction. -/
def retryPassed : CurrentTimestamp → Instant → Bool
  | .instant now, retryAt => decide (retryAt ≤ now)
  | .text seconds _, retryAt => decide (retryAt / 1000000 ≤ seconds)

/-- `last_attempt_at` is a cooldown ago. SQLite compares it with a `datetime`, a text that has a
blank where `CURRENT_TIMESTAMP` has its `T`: the day of the attempt must be an earlier one. -/
def cooledDown : CurrentTimestamp → Instant → Bool
  | .instant now, attempt => decide (attempt ≤ now - retryCooldown)
  | .text seconds _, attempt =>
      decide (attempt / dayLength < (seconds * 1000000 - retryCooldown) / dayLength)

/-- The lifecycle waits for the queue and its retry time has come. -/
def lifecycleDue (now : CurrentTimestamp) (row : Lifecycle) : Bool :=
  decide (row.status = .queued) ||
    (decide (row.status = .retrying) && row.retryAt.all (retryPassed now))

/-- A search-embedding dispatch before its deadline; it has no lifecycle. -/
def queryDue (now : CurrentTimestamp) (d : Dispatch) : Bool :=
  d.workspaceId.isSome && decide (d.workerName = "QueryEmbeddingWorker") &&
    d.deadlineAt.any now.before

/-- The filter of `due`. -/
def dueFilter (db : QueueDb) (now : CurrentTimestamp) (d : Dispatch) : Bool :=
  d.publishedAt.isNone &&
    (match joinedLifecycle db d with
      | some row => lifecycleDue now row
      | none => queryDue now d) &&
    d.lastAttemptAt.all (cooledDown now)

/-- A JSON array of strings as a list of tags. -/
def tagsFromJson : Json → Option (List String)
  | .array xs => xs.mapM Json.asStr
  | _ => none

/-- The stored tags, when there are any and they can be decoded. -/
def decodeTags : Option Json → Option (Option (List String))
  | none => some none
  | some j => (tagsFromJson j).map some

/-- What `due` makes of a row. -/
def pendingDispatch (db : QueueDb) (id : Uuid) (d : Dispatch) : Option PendingDispatch :=
  (decodeTags d.tags).map fun tags =>
    { id := id
      lifecycleId := d.lifecycleId
      jobName := ((joinedLifecycle db d).map Lifecycle.jobName).getD "query_embedding"
      workerClass := ((joinedLifecycle db d).map Lifecycle.workerClass).getD .shared
      payload := d.payload
      workerName := d.workerName
      queueName := d.queueName
      tags := tags
      deadlineAt := d.deadlineAt
      workspaceId := d.workspaceId
      priority := d.priority }

/-- `due`: at most a batch of rows in the order of their ids; a row that cannot be
decoded fails the scan. -/
def due (db : QueueDb) (now : CurrentTimestamp) : Option (List PendingDispatch) :=
  ((db.outbox.rows.entries.filter fun e => dueFilter db now e.2).take recoveryBatchSize).mapM
    fun e => pendingDispatch db e.1 e.2

/-! ## What is handed over -/

/-- `priority`. -/
def priority : WorkerClass → Int
  | .tenantPrivate => 300
  | .official => 200
  | .shared => 100

/-- What the queue provider is given. -/
structure Message where
  workerName : String
  queueName : Option String
  payload : Json
  tags : Option (List String)
  priority : Option Int
deriving DecidableEq

/-- The arguments of the provider's `enqueue` in `enqueue_pending`. -/
def enqueuePending (row : PendingDispatch) : Message where
  workerName := row.workerName
  queueName := row.queueName
  payload := row.payload
  tags := row.tags
  priority := row.priority.or (some (priority row.workerClass))

/-- Payload, worker name, queue and tags of a message, in the form they are stored in. -/
def Message.content (m : Message) : Json × String × Option String × Option Json :=
  (m.payload, m.workerName, m.queueName, tagsJson m.tags)

/-- Payload, worker name, queue and tags of an outbox row. -/
def Dispatch.content (d : Dispatch) : Json × String × Option String × Option Json :=
  (d.payload, d.workerName, d.queueName, d.tags)

/-! ## Relays at work -/

/-- Where a relay stands with one row. -/
inductive RelayPhase where
  | scanned
  | claimed (token : Uuid)
  | handed (token : Uuid) (providerJobId : String)
  | done
deriving DecidableEq

/-- One row in the hands of a relay. -/
structure RelayTask where
  row : PendingDispatch
  phase : RelayPhase
deriving DecidableEq

/-- The database, the claim tokens drawn so far and the tasks of all relays. -/
structure RelayState where
  db : QueueDb
  issued : List Uuid
  tasks : List RelayTask
deriving DecidableEq

/-- No relay has read anything. -/
def RelayState.start (db : QueueDb) : RelayState := ⟨db, [], []⟩

/-- A statement of a relay, or a call of another party. -/
inductive RelayLabel where
  | scan (now : CurrentTimestamp)
  | claim (i : Nat) (token : Uuid) (leaseSeconds : Int) (relayNow now : Instant)
  | publish (i : Nat) (relayNow : Instant) (providerJobId : Option String)
  | acknowledge (i : Nat) (now : Instant)
  | stop (i : Nat)
  | call (c : Call)
deriving DecidableEq

/-- Moves a task to another phase. -/
def RelayState.setPhase (s : RelayState) (i : Nat) (task : RelayTask) (phase : RelayPhase) :
    RelayState :=
  { s with tasks := s.tasks.set i { task with phase := phase } }

/-- Only relays claim and acknowledge. -/
def Op.ofRelay : Op → Bool
  | .claim .. | .acknowledge .. => true
  | _ => false

/-- The token was drawn before. -/
def RelayState.drawn (s : RelayState) (token : Uuid) : Bool := s.issued.contains token

theorem drawn_iff {s : RelayState} {token : Uuid} : s.drawn token = true ↔ token ∈ s.issued := by
  simp [RelayState.drawn]

/-- The claim of one task, under a token that was never drawn before. -/
def claimTask (s : RelayState) (i : Nat) (task : RelayTask) (token : Uuid) (leaseSeconds : Int)
    (relayNow now : Instant) : RelayState :=
  if s.drawn token then s
  else
    let s := { s with issued := token :: s.issued }
    match claimDispatch s.db task.row.id token leaseSeconds relayNow now with
    | .ok (db, true) => { s with db := db }.setPhase i task (.claimed token)
    | _ => s.setPhase i task .done

/-- What a relay does with a row it has claimed: it leaves a row that is neither a
lifecycle's nor a search's, drops one past its deadline and hands over the rest. A
provider that refuses or does not answer in time ends the task. -/
def publishTask (s : RelayState) (i : Nat) (task : RelayTask) (token : Uuid) (relayNow : Instant)
    (providerJobId : Option String) : RelayState :=
  if task.row.lifecycleId.isNone && task.row.workerName ≠ "QueryEmbeddingWorker" then
    s.setPhase i task .done
  else if task.row.deadlineAt.any fun deadline => decide (deadline ≤ relayNow) then
    { s with db := expire s.db task.row.id }.setPhase i task .done
  else
    match providerJobId with
    | some provider => s.setPhase i task (.handed token provider)
    | none => s.setPhase i task .done

/-- The acknowledgement of one task; whatever it reports, the task is over. -/
def acknowledgeTask (s : RelayState) (i : Nat) (task : RelayTask) (token : Uuid)
    (providerJobId : String) (now : Instant) : RelayState :=
  match acknowledgeDispatch s.db task.row.id token providerJobId now with
  | .ok (db, _) => { s with db := db }.setPhase i task .done
  | .error _ => s.setPhase i task .done

/-- The state after a label; one that is not enabled changes nothing. -/
def relayStep (s : RelayState) : RelayLabel → RelayState
  | .scan now =>
      match due s.db now with
      | some rows => { s with tasks := s.tasks ++ rows.map fun row => ⟨row, .scanned⟩ }
      | none => s
  | .claim i token leaseSeconds relayNow now =>
      match s.tasks[i]? with
      | some ⟨row, .scanned⟩ => claimTask s i ⟨row, .scanned⟩ token leaseSeconds relayNow now
      | _ => s
  | .publish i relayNow providerJobId =>
      match s.tasks[i]? with
      | some ⟨row, .claimed token⟩ =>
          publishTask s i ⟨row, .claimed token⟩ token relayNow providerJobId
      | _ => s
  | .acknowledge i now =>
      match s.tasks[i]? with
      | some ⟨row, .handed token provider⟩ =>
          acknowledgeTask s i ⟨row, .handed token provider⟩ token provider now
      | _ => s
  | .stop i =>
      match s.tasks[i]? with
      | some task => s.setPhase i task .done
      | none => s
  | .call c => if c.op.ofRelay then s else { s with db := after s.db c }

/-! ## Steps of relays -/

/-- The token a task claims under. -/
def RelayPhase.token? : RelayPhase → Option Uuid
  | .claimed token | .handed token _ => some token
  | _ => none

/-- The queue call a label makes on the database. -/
def RelayState.callOf (s : RelayState) : RelayLabel → Option Call
  | .claim i token leaseSeconds relayNow now =>
      match s.tasks[i]? with
      | some ⟨row, .scanned⟩ =>
          if s.drawn token then none
          else some ⟨now, .claim row.id token leaseSeconds relayNow⟩
      | _ => none
  | .publish i relayNow _ =>
      match s.tasks[i]? with
      | some ⟨row, .claimed _⟩ =>
          if row.lifecycleId.isNone && row.workerName ≠ "QueryEmbeddingWorker" then none
          else if row.deadlineAt.any fun deadline => decide (deadline ≤ relayNow) then
            some ⟨relayNow, .expire row.id⟩
          else none
      | _ => none
  | .acknowledge i now =>
      match s.tasks[i]? with
      | some ⟨row, .handed token provider⟩ => some ⟨now, .acknowledge row.id token provider⟩
      | _ => none
  | .call c => if c.op.ofRelay then none else some c
  | _ => none

@[simp] theorem setPhase_db (s : RelayState) (i : Nat) (task : RelayTask) (phase : RelayPhase) :
    (s.setPhase i task phase).db = s.db := rfl

theorem claimTask_db (s : RelayState) (i : Nat) (task : RelayTask) (token : Uuid)
    (leaseSeconds : Int) (relayNow now : Instant) (hfresh : ¬ s.drawn token = true) :
    (claimTask s i task token leaseSeconds relayNow now).db =
      after s.db ⟨now, .claim task.row.id token leaseSeconds relayNow⟩ := by
  unfold claimTask
  rw [if_neg hfresh]
  cases hclaim : claimDispatch s.db task.row.id token leaseSeconds relayNow now with
  | error e => simp [after, exec, hclaim, Except.map]
  | ok r =>
      obtain ⟨db, b⟩ := r
      cases b with
      | true => simp [after, exec, hclaim, Except.map]
      -- a claim that took no row left the outbox as it was
      | false =>
          have hsame : db = s.db := by
            obtain ⟨hlife, ⟨hb, -⟩ | ⟨-, hout⟩⟩ := claimDispatch_eq_ok hclaim
            · cases hb
            · cases db
              cases hlife
              cases hout
              rfl
          simp [after, exec, hclaim, Except.map, hsame]

theorem acknowledgeTask_db (s : RelayState) (i : Nat) (task : RelayTask) (token : Uuid)
    (provider : String) (now : Instant) :
    (acknowledgeTask s i task token provider now).db =
      after s.db ⟨now, .acknowledge task.row.id token provider⟩ := by
  unfold acknowledgeTask
  cases hack : acknowledgeDispatch s.db task.row.id token provider now with
  | error e => simp [after, exec, hack, Except.map]
  | ok r => simp [after, exec, hack, Except.map]

/-- A label changes the database by one queue call or not at all. -/
theorem relayStep_db (s : RelayState) (l : RelayLabel) :
    (relayStep s l).db = ((s.callOf l).map (after s.db)).getD s.db := by
  cases l with
  | scan now =>
      simp only [relayStep, RelayState.callOf]
      cases due s.db now <;> rfl
  | claim i token leaseSeconds relayNow now =>
      simp only [relayStep, RelayState.callOf]
      split
      · next row _ =>
        by_cases hfresh : s.drawn token = true
        · simp [claimTask, hfresh]
        · rw [claimTask_db _ _ _ _ _ _ _ hfresh, if_neg hfresh]
          rfl
      · rfl
  | publish i relayNow provider =>
      simp only [relayStep, RelayState.callOf]
      split
      · next row token _ =>
        unfold publishTask
        split_ifs
        · rfl
        · rfl
        · cases provider <;> rfl
      · rfl
  | acknowledge i now =>
      simp only [relayStep, RelayState.callOf]
      split
      · exact acknowledgeTask_db _ _ _ _ _ _
      · rfl
  | stop i =>
      simp only [relayStep, RelayState.callOf]
      split <;> rfl
  | call c =>
      simp only [relayStep, RelayState.callOf]
      split_ifs <;> rfl

/-- The row a label hands over to the provider. -/
def handedOver (s : RelayState) : RelayLabel → Option PendingDispatch
  | .publish i relayNow (some _) =>
      match s.tasks[i]? with
      | some ⟨row, .claimed _⟩ =>
          if row.lifecycleId.isNone && row.workerName ≠ "QueryEmbeddingWorker" then none
          else if row.deadlineAt.any fun deadline => decide (deadline ≤ relayNow) then none
          else some row
      | _ => none
  | _ => none

/-- Where a task after a step comes from. -/
inductive TaskOrigin (s : RelayState) (l : RelayLabel) (task : RelayTask) : Prop where
  | kept (mem : task ∈ s.tasks)
  | scanned (now : CurrentTimestamp) (rows : List PendingDispatch) (label : l = .scan now)
      (due : due s.db now = some rows) (mem : task.row ∈ rows) (phase : task.phase = .scanned)
  | stopped (old : RelayTask) (mem : old ∈ s.tasks) (row : task.row = old.row)
      (phase : task.phase = .done)
  | claimed (i : Nat) (token : Uuid) (leaseSeconds : Int) (relayNow now : Instant) (db : QueueDb)
      (label : l = .claim i token leaseSeconds relayNow now)
      (found : s.tasks[i]? = some ⟨task.row, .scanned⟩) (fresh : ¬ s.drawn token = true)
      (claim : claimDispatch s.db task.row.id token leaseSeconds relayNow now = .ok (db, true))
      (phase : task.phase = .claimed token)
  | handed (i : Nat) (relayNow : Instant) (token : Uuid) (provider : String)
      (label : l = .publish i relayNow (some provider))
      (found : s.tasks[i]? = some ⟨task.row, .claimed token⟩)
      (sent : handedOver s l = some task.row) (phase : task.phase = .handed token provider)

theorem TaskOrigin.of_setPhase {s t : RelayState} {l : RelayLabel} {i : Nat} {task task' : RelayTask}
    {phase : RelayPhase} (hmem : task' ∈ (t.setPhase i task phase).tasks)
    (htasks : t.tasks = s.tasks) (hnew : TaskOrigin s l { task with phase := phase }) :
    TaskOrigin s l task' := by
  rcases List.mem_or_eq_of_mem_set hmem with hold | rfl
  · exact .kept (htasks ▸ hold)
  · exact hnew

/-- **Where the tasks after a step come from.** -/
theorem taskOrigin {s : RelayState} {l : RelayLabel} {task : RelayTask}
    (hmem : task ∈ (relayStep s l).tasks) : TaskOrigin s l task := by
  cases l with
  | scan now =>
      simp only [relayStep] at hmem
      split at hmem
      · next rows hdue =>
        rcases List.mem_append.mp hmem with hold | hnew
        · exact .kept hold
        · obtain ⟨row, hrow, rfl⟩ := List.mem_map.mp hnew
          exact .scanned now rows rfl hdue hrow rfl
      · exact .kept hmem
  | claim i token leaseSeconds relayNow now =>
      simp only [relayStep] at hmem
      split at hmem
      · next row hfound =>
        unfold claimTask at hmem
        split_ifs at hmem with hfresh
        · exact .kept hmem
        · dsimp only at hmem
          split at hmem
          · next db hclaim =>
            exact .of_setPhase hmem rfl
              (.claimed i token leaseSeconds relayNow now db rfl hfound hfresh hclaim rfl)
          · exact .of_setPhase hmem rfl (.stopped _ (List.mem_of_getElem? hfound) rfl rfl)
      · exact .kept hmem
  | publish i relayNow provider =>
      simp only [relayStep] at hmem
      split at hmem
      · next row token hfound =>
        unfold publishTask at hmem
        split_ifs at hmem with hother hlate
        · exact .of_setPhase hmem rfl (.stopped _ (List.mem_of_getElem? hfound) rfl rfl)
        · exact .of_setPhase hmem rfl (.stopped _ (List.mem_of_getElem? hfound) rfl rfl)
        · cases provider with
          | none =>
              exact .of_setPhase hmem rfl (.stopped _ (List.mem_of_getElem? hfound) rfl rfl)
          | some provider =>
              have hover : handedOver s (.publish i relayNow (some provider)) = some row := by
                simp only [handedOver, hfound]
                rw [if_neg hother, if_neg hlate]
              exact .of_setPhase hmem rfl (.handed i relayNow token provider rfl hfound hover rfl)
      · exact .kept hmem
  | acknowledge i now =>
      simp only [relayStep] at hmem
      split at hmem
      · next row token provider hfound =>
        unfold acknowledgeTask at hmem
        split at hmem
        · exact .of_setPhase hmem rfl (.stopped _ (List.mem_of_getElem? hfound) rfl rfl)
        · exact .of_setPhase hmem rfl (.stopped _ (List.mem_of_getElem? hfound) rfl rfl)
      · exact .kept hmem
  | stop i =>
      simp only [relayStep] at hmem
      split at hmem
      · next old hfound =>
        exact .of_setPhase hmem rfl (.stopped old (List.mem_of_getElem? hfound) rfl rfl)
      · exact .kept hmem
  | call c =>
      simp only [relayStep] at hmem
      split_ifs at hmem
      · exact .kept hmem
      · exact .kept hmem

/-! ## Tokens -/

/-- Every token in the hands of a relay was drawn. -/
def TokensDrawn (s : RelayState) : Prop :=
  ∀ task ∈ s.tasks, ∀ token, task.phase.token? = some token → token ∈ s.issued

theorem issued_subset (s : RelayState) (l : RelayLabel) : s.issued ⊆ (relayStep s l).issued := by
  intro t ht
  cases l with
  | scan now => simp only [relayStep]; split <;> exact ht
  | claim i token leaseSeconds relayNow now =>
      simp only [relayStep]
      split
      · unfold claimTask
        split_ifs
        · exact ht
        · dsimp only
          split <;> exact List.mem_cons_of_mem _ ht
      · exact ht
  | publish i relayNow provider =>
      simp only [relayStep]
      split
      · unfold publishTask
        split_ifs
        · exact ht
        · exact ht
        · cases provider <;> exact ht
      · exact ht
  | acknowledge i now =>
      simp only [relayStep]
      split
      · unfold acknowledgeTask
        split <;> exact ht
      · exact ht
  | stop i => simp only [relayStep]; split <;> exact ht
  | call c => simp only [relayStep]; split_ifs <;> exact ht

/-- A claim records its token as drawn. -/
theorem mem_issued_claim {s : RelayState} {i : Nat} {row : PendingDispatch} {token : Uuid}
    {leaseSeconds : Int} {relayNow now : Instant} (hfound : s.tasks[i]? = some ⟨row, .scanned⟩) :
    token ∈ (relayStep s (.claim i token leaseSeconds relayNow now)).issued := by
  simp only [relayStep, hfound]
  unfold claimTask
  split_ifs with hfresh
  · exact drawn_iff.mp hfresh
  · dsimp only
    split <;> exact List.mem_cons_self

theorem tokensDrawn_step {s : RelayState} (h : TokensDrawn s) (l : RelayLabel) :
    TokensDrawn (relayStep s l) := by
  intro task hmem token htoken
  cases taskOrigin hmem with
  | kept hold => exact issued_subset s l (h task hold token htoken)
  | scanned _ _ _ _ _ hphase => rw [hphase] at htoken; cases htoken
  | stopped _ _ _ hphase => rw [hphase] at htoken; cases htoken
  | claimed i t leaseSeconds relayNow now db hlabel hfound _ _ hphase =>
      rw [hphase] at htoken
      cases htoken
      rw [hlabel]
      exact mem_issued_claim hfound
  | handed i relayNow t provider _ hfound _ hphase =>
      rw [hphase] at htoken
      cases htoken
      exact issued_subset s l (h _ (List.mem_of_getElem? hfound) token rfl)

/-! ## What a claim protects -/

/-- The row of a claimed task holds what the scan read, as long as it is under the
task's claim. -/
def ClaimsCurrent (s : RelayState) : Prop :=
  ∀ task ∈ s.tasks, ∀ token, task.phase.token? = some token →
    ∀ d, s.db.outbox.get? task.row.id = some d → d.claimToken = some token.toString →
      (enqueuePending task.row).content = d.content

/-- A claim that takes its row finds in it what the scan returned. -/
def claimFindsScanned (s : RelayState) : RelayLabel → Bool
  | .claim i _ _ _ now =>
      match s.tasks[i]? with
      | some ⟨row, .scanned⟩ =>
          (s.db.outbox.get? row.id).all fun d =>
            !dispatchClaimable now d || decide ((enqueuePending row).content = d.content)
      | _ => true
  | _ => true

/-- Under a token drawn before the step, the step leaves the row as it was. -/
theorem outbox_get?_of_drawn {s : RelayState} {l : RelayLabel} {id token : Uuid} {d : Dispatch}
    (hdrawn : token ∈ s.issued) (hd : (relayStep s l).db.outbox.get? id = some d)
    (htoken : d.claimToken = some token.toString) : s.db.outbox.get? id = some d := by
  rw [relayStep_db] at hd
  cases hcall : s.callOf l with
  | none => simpa [hcall] using hd
  | some c =>
      simp only [hcall, Option.map_some, Option.getD_some] at hd
      have heff := dispatchEffect s.db c id
      rw [hd] at heff
      generalize hbefore : s.db.outbox.get? id = before at heff ⊢
      cases heff with
      | same => rfl
      | insert _ hclaim => rw [hclaim] at htoken; cases htoken
      -- the only call that writes a token is a claim, and claims draw new ones
      | claim d₀ t leaseSeconds relayNow hop =>
          have ht : t = token := Uuid.toString_inj.mp (Option.some.inj htoken)
          subst ht
          cases l with
          | claim i t' lease relayNow' now =>
              simp only [RelayState.callOf] at hcall
              split at hcall
              · split_ifs at hcall with hfresh
                cases hcall
                cases hop
                exact absurd (drawn_iff.mpr hdrawn) hfresh
              · cases hcall
          | call c' =>
              simp only [RelayState.callOf] at hcall
              split_ifs at hcall with hrelay
              cases hcall
              rw [hop] at hrelay
              exact absurd rfl hrelay
          | scan now => cases hcall
          | stop i => cases hcall
          | publish i relayNow' provider =>
              simp only [RelayState.callOf] at hcall
              split at hcall
              · split_ifs at hcall
                cases hcall
                cases hop
              · cases hcall
          | acknowledge i now =>
              simp only [RelayState.callOf] at hcall
              split at hcall
              · cases hcall
                cases hop
              · cases hcall
      | publish => cases htoken
      | requeue => cases htoken

/-- **One step.** -/
theorem claimsCurrent_step {s : RelayState} {l : RelayLabel} (hdrawn : TokensDrawn s)
    (h : ClaimsCurrent s) (hscan : claimFindsScanned s l = true) : ClaimsCurrent (relayStep s l) := by
  intro task hmem token htoken d hd hclaim
  cases taskOrigin hmem with
  | kept hold =>
      have hbefore := outbox_get?_of_drawn (hdrawn task hold token htoken) hd hclaim
      exact h task hold token htoken d hbefore hclaim
  | scanned _ _ _ _ _ hphase => rw [hphase] at htoken; cases htoken
  | stopped _ _ _ hphase => rw [hphase] at htoken; cases htoken
  -- a new claim: the condition compares the row with the scan, and the claim keeps it
  | claimed i t leaseSeconds relayNow now db hlabel hfound hfresh hok hphase =>
      subst hlabel
      have hdb : (relayStep s (.claim i t leaseSeconds relayNow now)).db = db := by
        rw [relayStep_db]
        simp [RelayState.callOf, hfound, hfresh, after, exec, hok, Except.map]
      obtain ⟨-, ⟨-, d₀, hd₀, hclaimable, hrep⟩ | ⟨hb, -⟩⟩ := claimDispatch_eq_ok hok
      · have hfinds : (enqueuePending task.row).content = d₀.content := by
          simpa [claimFindsScanned, hfound, hd₀, hclaimable] using hscan
        rw [hdb, hrep.get?_self] at hd
        cases hd
        exact hfinds
      · cases hb
  -- handing over writes nothing, so the claimed task speaks for the handed one
  | handed i relayNow t provider hlabel hfound _ hphase =>
      have htask : (⟨task.row, .claimed t⟩ : RelayTask) ∈ s.tasks := List.mem_of_getElem? hfound
      rw [hphase] at htoken
      cases htoken
      have hbefore := outbox_get?_of_drawn (hdrawn _ htask token rfl) hd hclaim
      exact h _ htask token rfl d hbefore hclaim

/-- **Every run.** -/
theorem claimsCurrent_run {db : QueueDb} {labels : List RelayLabel}
    (hmeet : StepsMeet relayStep (fun s l => claimFindsScanned s l = true) (.start db) labels) :
    ClaimsCurrent (run relayStep (.start db) labels) := by
  have hinv : TokensDrawn (run relayStep (.start db) labels) ∧
      ClaimsCurrent (run relayStep (.start db) labels) := by
    refine run_invariant (fun s => TokensDrawn s ∧ ClaimsCurrent s) ?_ ⟨?_, ?_⟩ hmeet
    · intro s l h hscan
      exact ⟨tokensDrawn_step h.1 l, claimsCurrent_step h.1 h.2 hscan⟩
    · intro task hmem
      cases hmem
    · intro task hmem
      cases hmem
  exact hinv.2

/-- In state `s` the acknowledgement of task `i` succeeds; `m` is what the task handed
to the provider and `d` the row it acknowledges. -/
def Acknowledges (s : RelayState) (i : Nat) (now : Instant) (m : Message) (d : Dispatch) : Prop :=
  ∃ row token provider db, s.tasks[i]? = some ⟨row, .handed token provider⟩ ∧
    m = enqueuePending row ∧ s.db.outbox.get? row.id = some d ∧
    acknowledgeDispatch s.db row.id token provider now = .ok (db, true)

/-- No stale publication is acknowledged in state `s`. -/
def NoStaleAcknowledgement (s : RelayState) : Prop :=
  ∀ i now m d, Acknowledges s i now m d → m.content = d.content

/-- **No stale publication.** In every run in which each claim that takes its row finds
in it what the scan returned, in every state reached, what an acknowledged task handed
to the provider is what the row holds. -/
theorem acknowledged_current (db : QueueDb) (labels : List RelayLabel)
    (hmeet : StepsMeet relayStep (fun s l => claimFindsScanned s l = true) (.start db) labels) :
    NoStaleAcknowledgement (run relayStep (.start db) labels) := by
  rintro i now m d ⟨row, token, provider, db', hfound, rfl, hd, hack⟩
  rcases acknowledgeDispatch_eq_ok hack with ⟨-, d', hd', hheld, -⟩ | ⟨hb, -⟩
  · obtain rfl : d = d' := Option.some.inj (hd.symm.trans hd')
    have htask := List.mem_of_getElem? hfound
    exact claimsCurrent_run hmeet _ htask token rfl d hd (acknowledgeable_iff.mp hheld).1
  · cases hb

/-! ## A scan that is overtaken by a requeue -/

/-- A job routed to the workers of `queue`. -/
def routedJob (queue : String) : Job where
  payload := .object []
  workerName := "ReindexWorker"
  queueName := some queue
  tags := some [queue]

/-- Job 1 runs in the one slot, and two relays read the row of job 0. The second relay
publishes it; its worker finds no capacity, defers and requeues the job under a new
target. The first relay then claims the row, hands over what it read before the requeue
and acknowledges. -/
def staleScan : List RelayLabel :=
  [ .call ⟨0, .record (oneSlot 1) (routedJob "worker-target:shared")⟩,
    .call ⟨0, .start 1⟩,
    .call ⟨0, .record (oneSlot 0) (routedJob "worker-target:shared")⟩,
    .scan (.instant 1),
    .scan (.instant 1),
    .claim 1 100 60 2 2,
    .publish 1 3 (some "job-1"),
    .acknowledge 1 4,
    .call ⟨5, .start 0⟩,
    .call ⟨5, .defer 0 none "worker capacity saturated"⟩,
    .call ⟨6, .requeue 0 (routedJob "worker-target:tenant")⟩,
    .claim 0 101 60 7 7,
    .publish 0 8 (some "job-2") ]

/-- The acknowledgement marks the requeued row published, and the provider holds the
job under its old target. -/
theorem not_current_staleScan :
    ¬ NoStaleAcknowledgement (run relayStep (.start QueueDb.empty) staleScan) := by
  intro h
  have hack : Acknowledges (run relayStep (.start QueueDb.empty) staleScan) 0 9
      ⟨"ReindexWorker", some "worker-target:shared",
        .object [("lifecycle_id", .string (Uuid.toString 0))], some ["worker-target:shared"],
        some 100⟩
      { lifecycleId := some 0
        payload := .object [("lifecycle_id", .string (Uuid.toString 0))]
        workerName := "ReindexWorker"
        queueName := some "worker-target:tenant"
        tags := some (.array [.string "worker-target:tenant"])
        lastAttemptAt := some 7
        deadlineAt := none
        publishedAt := none
        claimToken := some (Uuid.toString 101)
        claimUntil := some 60000007
        priority := none
        workspaceId := none } := by
    refine ⟨_, 101, "job-2", _, rfl, rfl, ?_, rfl⟩
    decide
  have hqueue : some "worker-target:shared" = some "worker-target:tenant" :=
    congrArg (fun content => content.2.2.1) (h 0 9 _ _ hack)
  exact absurd hqueue (by decide)

/-- Control: a relay that scans after the requeue hands over the new target. -/
theorem acknowledged_current_control :
    NoStaleAcknowledgement (run relayStep (.start QueueDb.empty)
      [ .call ⟨0, .record (oneSlot 0) (routedJob "worker-target:shared")⟩,
        .call ⟨5, .defer 0 none "worker capacity saturated"⟩,
        .call ⟨6, .requeue 0 (routedJob "worker-target:tenant")⟩,
        .scan (.instant 7),
        .claim 0 101 60 7 7,
        .publish 0 8 (some "job-2") ]) :=
  acknowledged_current _ _ (by decide)

end Yorishiro.Queue
