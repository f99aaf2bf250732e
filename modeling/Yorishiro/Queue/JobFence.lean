import Yorishiro.Queue.Redelivery
import Yorishiro.Tenancy.Runs
import Yorishiro.Tenancy.Standing

/-!
# Bulk jobs and the credentials they were queued with

A bulk job waits in the queue, and the credential it was queued with may be worth less by the
time it runs: the key is revoked or rotated, the user is demoted or removed, the tenant is
disabled, the workspace is deleted. A delivery checks the credential before it does the work,
and goes on under the membership lock of the tenant until it commits.

`work_fenced` says what this is good for. In every interleaving of deliveries with every
operation and every deletion, on both databases, the work of a job is committed into a database
in which the credential of the job is worth the scope that the job requires.
-/

set_option autoImplicit false

namespace Yorishiro.Queue.JobFence

open Yorishiro.Lib Yorishiro.Lib.Fence
open Yorishiro.Queue.Redelivery
open Yorishiro.Tenancy (ApiKeyScope AuthContext Externals Moves Tx authority membershipLock)

variable {V : Type} {home : Uuid → Uuid}

/-! ## Transactions -/

/-- What goes on besides jobs, operations and deletions. -/
inductive Besides (home : Uuid → Uuid) (V : Type) where
  | rest (f : V → V)
  | setup (s : Tenancy.Setup) (homed : s.Homed home)
  /-- An operation that is not a bulk job is recorded. -/
  | recorded (actor : AuditActor) (action : AuditAction) (detail : Json)

/-- The database after that. -/
def Besides.apply : Besides home V → BulkDb V → BulkDb V
  | .rest f, db => { db with rest := f db.rest }
  | .setup s _, db => { db with tenancy := s.apply db.tenancy }
  | .recorded actor action detail, db => { db with audit := db.audit ++ [.of actor action detail] }

/-- The transactions that meet. -/
inductive Job (home : Uuid → Uuid) (V : Type) where
  | delivery (id : Uuid)
  | op (op : Tenancy.Op)
  | deletion (d : Tenancy.Deletion)
  | besides (b : Besides home V)

/-- How a transaction ends. -/
inductive Outcome where
  | delivered (detail : Option Json)
  | answered (result : Tenancy.Result)
  | done

/-- What the foreign keys of the audit log do after a deletion: a row goes with its workspace and
its tenant, and forgets its user. -/
def cascade (tenancy : Tenancy.Db) (rows : List AuditRow) : List AuditRow :=
  (rows.filter fun row => (tenancy.workspaces.get? row.workspaceId).isSome &&
    (tenancy.tenants.get? row.tenantId).isSome).map fun row =>
      { row with userId := row.userId.filter fun id => (tenancy.users.get? id).isSome }

/-- The transaction of a job. -/
def Job.code (h : Externals) (calls : BulkCalls V) (jobs : Uuid → BulkArgs) :
    Job home V → BulkTx V Outcome
  | .delivery id => do pure (.delivered (← Redelivery.delivery calls jobs id))
  | .op o => do pure (.answered (← onTenancy (o.code h)))
  | .deletion d => do
      onTenancy (d.locked h)
      .update fun db => .ok ((), { db with audit := cascade db.tenancy db.audit })
      pure .done
  | .besides b => do
      .update fun db => .ok ((), b.apply db)
      pure .done

/-! ## The guard -/

/-- The guard of the tables of tenancy, in the whole database. -/
def guard (home : Uuid → Uuid) (V : Type) : Guard String (BulkDb V) :=
  (authority home).on BulkDb.tenancy

/-- What leaves the tables of tenancy alone needs no lock. -/
theorem respects_of_tenancy {held : List String} {db db' : BulkDb V}
    (hdb : (guard home V).inv db) (heq : db'.tenancy = db.tenancy) :
    (guard home V).Respects held db db' := by
  have hrefl : (authority home).Respects held db.tenancy db'.tenancy := by
    rw [heq]
    exact .refl hdb
  exact ⟨hrefl.inv, hrefl.keeps⟩

theorem guarded_onTenancy {α : Type} {p : Tx α} {held : List String}
    (hp : p.Guarded (authority home) held) :
    (onTenancy p : BulkTx V α).Guarded (guard home V) held :=
  hp.zoom BulkDb.tenancy _ fun _ _ => rfl

theorem respects_besides {held : List String} (b : Besides home V) {db : BulkDb V}
    (hdb : (guard home V).inv db) : (guard home V).Respects held db (b.apply db) := by
  cases b with
  | rest f => exact respects_of_tenancy hdb rfl
  | setup s homed =>
      have hrespects : (authority home).Respects held db.tenancy (s.apply db.tenancy) :=
        Tenancy.respects_setup homed hdb
      exact ⟨hrespects.inv, hrespects.keeps⟩
  | recorded actor action detail => exact respects_of_tenancy hdb rfl

/-- Who is no delivery respects the locks it has. -/
theorem guarded_code (h : Externals) (calls : BulkCalls V) (jobs : Uuid → BulkArgs)
    {job : Job home V} (hjob : ∀ id, job ≠ .delivery id) :
    (job.code h calls jobs).Guarded (guard home V) [] := by
  cases job with
  | delivery id => exact absurd rfl (hjob id)
  | op op =>
      exact Script.Guarded.bind (guarded_onTenancy (Tenancy.guarded_op op)) fun _ =>
        Script.guarded_pure _
  | deletion d =>
      refine Script.Guarded.bind (guarded_onTenancy (Tenancy.guarded_deletion d)) fun _ =>
        Script.Guarded.bind (Script.guarded_update fun db _ db' hdb hok => ?_) fun _ =>
          Script.guarded_pure _
      cases hok
      exact respects_of_tenancy hdb rfl
  | besides b =>
      refine Script.Guarded.bind (Script.guarded_update fun db _ db' hdb hok => ?_) fun _ =>
        Script.guarded_pure _
      cases hok
      exact respects_besides b hdb

/-! ## The check of a delivery -/

/-- The credential that a job presents. -/
def presented (actor : AuditActor) (required : ApiKeyScope) : AuthContext where
  apiKeyId := actor.apiKeyId
  workspaceId := actor.workspaceId
  tenantId := actor.tenantId
  scope := required
  userId := actor.userId
  audit := false

/-- The credential of a job is worth the scope that the job requires. -/
def Stands (actor : AuditActor) (required : ApiKeyScope) (db : Tenancy.Db) (time : Instant) :
    Prop :=
  ∃ current, (db.atTime time).current (presented actor required) = some current ∧
    required ≤ current.scope

/-- What `requireJobActor` does under the lock. -/
def requireCurrent (actor : AuditActor) (required : ApiKeyScope) : Tx Unit := do
  let tenant ← Tenancy.getWorkspaceTenant actor.workspaceId
  Script.failIf (tenant ≠ actor.tenantId) .unauthenticated
  let current ← Tenancy.currentContext (presented actor required)
  Script.ofExcept (Tenancy.requireScope current required)

theorem requireJobActor_eq (actor : AuditActor) (required : ApiKeyScope) :
    requireJobActor actor required =
      .lock (membershipLock actor.tenantId) (requireCurrent actor required) := rfl

/-- The check finds that the credential stands, in the workspace's home tenant. -/
theorem checks_requireCurrent (actor : AuditActor) (required : ApiKeyScope)
    (seen : List Tenancy.Db) (db : Tenancy.Db) :
    (requireCurrent actor required).Checks (Moves home actor.tenantId) seen db fun _ seen' db' =>
      home actor.workspaceId = actor.tenantId ∧
        ∃ v ∈ seen', v.clock ≤ db'.clock ∧ Stands actor required db' v.clock := by
  unfold requireCurrent Tenancy.getWorkspaceTenant
  rw [Script.checks_bind, Script.checks_bind, Script.checks_read]
  intro db₁ h₁
  rw [Script.checks_orFail]
  intro tenant ht
  obtain ⟨ws, hws, rfl⟩ := Option.map_eq_some_iff.mp ht
  rw [Script.checks_bind, Script.checks_failIf]
  intro htenant
  have hhome : home actor.workspaceId = actor.tenantId :=
    (h₁.homed _ ws hws).symm.trans (not_not.mp htenant)
  let credential : AuthContext := presented actor required
  have hcurrent : (Tenancy.currentContext credential).Checks (Moves home credential.tenantId)
      (seen ++ [db₁]) db₁ fun c seen' db' => ∃ v ∈ seen', v.clock ≤ db'.clock ∧
        (db'.atTime v.clock).current credential = some c :=
    Tenancy.checks_currentContext hhome
  rw [show credential.tenantId = actor.tenantId from rfl] at hcurrent
  rw [Script.checks_bind]
  refine hcurrent.mono fun c seen' db' hc => ?_
  obtain ⟨v, hv, hclock, hworth⟩ := hc
  rw [Script.checks_ofExcept]
  intro _ hok
  exact ⟨hhome, v, hv, hclock, c, hworth, Tenancy.requireScope_eq_ok.mp hok⟩

/-- The credential stands as long as the lock is kept. -/
theorem Stands.later {actor : AuditActor} {required : ApiKeyScope} {db db' : Tenancy.Db}
    {time : Instant} (hstands : Stands actor required db time)
    (hup : Tenancy.Upholds home actor.tenantId db db') (hdb : db.Homed home)
    (hhome : home actor.workspaceId = actor.tenantId) : Stands actor required db' time := by
  obtain ⟨current, hcurrent, hscope⟩ := hstands
  exact ⟨current, hup.current hdb hhome hcurrent, hscope⟩

/-! ## A delivery commits under the lock -/

section Workers

variable (calls : BulkCalls V) (jobs : Uuid → BulkArgs)

/-- If it commits the work of a job, it does so into a database in which the credential of the job
stands, at a time the delivery has read. -/
def WorkStands (e : Entry (Job home V) (BulkDb V) Outcome) : Prop :=
  ∀ id detail, e.job = .delivery id → e.result = .delivered (some detail) →
    ∃ v ∈ e.seen, v.tenancy.clock ≤ e.before.tenancy.clock ∧
      Stands (jobs id).actor (jobs id).work.required e.before.tenancy v.tenancy.clock

/-- The discipline under which the transactions run. -/
abbrev discipline : Discipline (Job home V) String (BulkDb V) Outcome :=
  (guard home V).discipline (WorkStands jobs)

/-- What is done to the rest of the database leaves the tables of tenancy alone. -/
theorem within_onRest {α : Type} (p : Script String V YorishiroError α) :
    Script.Within (fun d d' : BulkDb V => d'.tenancy = d.tenancy) (onRest p) := by
  unfold onRest
  induction p with
  | done r => exact .done r
  | fail e => exact .fail e
  | lock name cont ih => exact .lock name ih
  | query cont ih => exact .query fun v => ih v.rest
  | exec act cont ih =>
      refine .exec (fun d d' hd => ?_) fun v => ih v.rest
      obtain ⟨rest, -, rfl⟩ := Except.map_eq_ok hd
      rfl

theorem within_work (actor : AuditActor) (action : AuditAction)
    (work : Script String V YorishiroError Json) :
    Script.Within (fun d d' : BulkDb V => d'.tenancy = d.tenancy)
      (onRest work >>= fun detail => record actor action detail >>= fun _ => pure detail) := by
  refine Script.Within.bind (within_onRest work) fun detail =>
    Script.Within.bind ?_ fun _ => Script.within_pure _
  refine Script.within_update fun d _ d' hok => ?_
  cases hok
  rfl

/-- Where a transaction that leaves the tables of tenancy alone stands. -/
theorem upheld_of_tenancy {pt : Point (Job home V) String (BulkDb V) YorishiroError Outcome}
    (hpending : ∀ d d', pt.pending d = .ok d' → d'.tenancy = d.tenancy) :
    (guard home V).Upheld (WorkStands jobs) pt := fun w hw d hd =>
  respects_of_tenancy hw.inv.1 (hpending w.db d hd)

/-- From where the credential stands, under the lock, the work is committed where it stands. -/
theorem wp_work {id : Uuid} {pt : Point (Job home V) String (BulkDb V) YorishiroError Outcome}
    (hlock : membershipLock (jobs id).actor.tenantId ∈ pt.held) (hpending : pt.pending = .ok)
    (hinv : (discipline jobs).inv pt.state)
    (hhome : home (jobs id).actor.workspaceId = (jobs id).actor.tenantId)
    (hstands : ∃ v ∈ pt.seen, v.tenancy.clock ≤ pt.state.db.tenancy.clock ∧
      Stands (jobs id).actor (jobs id).work.required pt.state.db.tenancy v.tenancy.clock)
    (action : AuditAction) (work : Script String V YorishiroError Json) :
    (onRest work >>= fun detail => record (jobs id).actor action detail >>= fun _ =>
      pure detail).wp (discipline jobs) (.delivery id)
        (fun detail => (discipline jobs).Commits (.delivery id) (.delivered (some detail))) pt := by
  refine Script.wp_within (R := fun d d' : BulkDb V => d'.tenancy = d.tenancy) (fun _ => rfl)
    (fun _ _ _ h₁ h₂ => h₂.trans h₁) (within_work (jobs id).actor action work) hinv ?_
  intro detail held seen pending w hheld hseen hw hwithin
  have hkept : ∀ d d', pending d = .ok d' → d'.tenancy = d.tenancy := by
    intro d d' hd
    obtain ⟨v, hv, heq⟩ := hwithin d d' hd
    rw [hpending] at hv
    cases hv
    exact heq
  refine (upheld_of_tenancy jobs hkept).commits fun w' a hw' _ => ?_
  intro id' detail' hjob _
  cases hjob
  obtain ⟨v, hv, hclock, hstands⟩ := hstands
  -- the lock is kept from the check to the commit
  have hup : Tenancy.Upholds home (jobs id).actor.tenantId pt.state.db.tenancy w'.db.tenancy :=
    (hw.keeps _ hlock _ rfl).trans (hw'.keeps _ (hheld hlock) _ rfl)
  exact ⟨v, hseen hv, hclock.trans hup.clock, hstands.later hup hinv.1 hhome⟩

theorem code_delivery (h : Externals) (id : Uuid) :
    (Job.delivery id : Job home V).code h calls jobs =
      (delivery calls jobs id >>= fun detail => pure (.delivered detail)) := rfl

/-- **A delivery keeps the discipline.** -/
theorem wp_delivery (h : Externals) (id : Uuid) (w : State (Job home V) (BulkDb V) Outcome) :
    ((Job.delivery id : Job home V).code h calls jobs).wp (discipline jobs) (.delivery id)
      ((discipline jobs).Commits (.delivery id)) ⟨[], [], .ok, w⟩ := by
  rw [code_delivery, delivery_eq_once, Script.wp_bind]
  unfold Marks.once
  rw [Script.wp_bind, Script.wp_acquire]
  intro w₁ h₁
  rw [Script.wp_bind, Script.wp_read]
  intro w₂ h₂ v hv _
  by_cases hdone : (!((completions jobs).found v id).isEmpty) = true
  · -- the job is recorded as completed
    rw [if_pos hdone]
    refine (upheld_of_tenancy jobs fun d d' hd => ?_).commits fun _ _ _ _ id' detail _ hnone => ?_
    · cases hd
      rfl
    · cases hnone
  rw [if_neg hdone, Script.wp_bind]
  unfold attemptOf attempt
  rw [Script.wp_bind, requireJobActor_eq]
  intro w₃ h₃
  have hchecks : (onTenancy (requireCurrent (jobs id).actor (jobs id).work.required) :
      BulkTx V Unit).Checks (fun d d' => (guard home V).inv d' ∧
        (guard home V).keeps (membershipLock (jobs id).actor.tenantId) d d') [v] w₃.db
      fun _ seen d => home (jobs id).actor.workspaceId = (jobs id).actor.tenantId ∧
        ∃ v ∈ seen.map BulkDb.tenancy, v.clock ≤ d.tenancy.clock ∧
          Stands (jobs id).actor (jobs id).work.required d.tenancy v.clock :=
    (checks_requireCurrent _ _ _ _).zoom _
  refine Guard.wp_checks List.mem_cons_self rfl h₃.inv hchecks ?_
  rintro - held seen w₄ hheld hw₄ ⟨hhome, u, hu, hclock, hstands⟩
  obtain ⟨d, hd, rfl⟩ := List.mem_map.mp hu
  exact wp_work jobs (hheld List.mem_cons_self) rfl hw₄.inv hhome ⟨d, hd, hclock, hstands⟩ _ _

theorem verified (h : Externals) :
    Verified (discipline jobs) fun job : Job home V => job.code h calls jobs := by
  intro job w hw
  by_cases hjob : ∃ id, job = .delivery id
  · obtain ⟨id, rfl⟩ := hjob
    exact wp_delivery calls jobs h id w
  · rw [not_exists] at hjob
    exact Guard.wp_of_guarded (guarded_code h calls jobs hjob)
      (fun _ _ _ _ id _ heq => absurd heq (hjob id)) hw

/-! ## In every interleaving -/

/-- Every work that was committed was committed where its credential stands. -/
def Fenced (w : State (Job home V) (BulkDb V) Outcome) : Prop := ∀ e ∈ w.log, WorkStands jobs e

/-- **The work of a job is committed where its credential stands**, however its deliveries, the
operations on members, keys and tenants and the deletions interleave, are lost or fail: on
PostgreSQL, where all of them commit meanwhile unless they wait for a lock, and on SQLite, where a
single transaction writes at a time. `home` says to which tenant the id of a workspace is ever
given out. -/
theorem work_fenced (h : Externals) (db₀ : BulkDb V) (hhomed : db₀.tenancy.Homed home)
    (postgres sqlite : List (Event (Job home V) Empty)) :
    Fenced jobs (Transition.run (Server.step (Job.code h calls jobs) Empty.elim)
        (Server.init db₀) postgres).state ∧
      Fenced jobs (Transition.run (SingleWriter.Server.step (Job.code h calls jobs) Empty.elim)
        (SingleWriter.Server.init db₀) sqlite).state := by
  have hverified : Verified (discipline jobs) (Job.code h calls jobs : Job home V → _) :=
    verified calls jobs h
  have hsqlite : (discipline jobs).inv (Transition.run
      (SingleWriter.Server.step (Job.code h calls jobs) Empty.elim)
        (SingleWriter.Server.init db₀) sqlite).state :=
    SingleWriter.Server.inv_run hverified (fun e => e.elim) (fun _ _ _ => trivial)
      ⟨hhomed, List.forall_mem_nil _⟩ sqlite
  exact ⟨Guard.log_run hverified (fun e => e.elim) hhomed postgres, hsqlite.2⟩

end Workers

/-! ## A key that is revoked meanwhile -/

theorem homed_serviceTenant : serviceTenant.Homed fun _ => 1 := by
  have hempty : (Tenancy.Db.empty 0).Homed fun _ => 1 := fun _ _ hws => by cases hws
  have htenant : (authority fun _ => 1).Respects [] (.empty 0)
      ((Tenancy.Setup.tenant 1 "acme").apply (.empty 0)) := Tenancy.respects_setup trivial hempty
  have hworkspace : (authority fun _ => 1).Respects []
      ((Tenancy.Setup.tenant 1 "acme").apply (.empty 0))
      ((Tenancy.Setup.workspace 20 ⟨1, "main"⟩).apply
        ((Tenancy.Setup.tenant 1 "acme").apply (.empty 0))) :=
    Tenancy.respects_setup rfl htenant.inv
  exact hworkspace.inv

/-- A delivery of the job 5, and the revocation of its key in between. -/
def revokedMeanwhile : List (Event (Job (fun _ => 1) (List Uuid)) Empty) :=
  [.start 0 (.delivery 5), .start 1 (.op (.revoke 30 ⟨"ys", "new"⟩))] ++ Event.steps 0 4 ++
    Event.steps 1 12 ++ Event.steps 0 12 ++ Event.steps 1 12

/-- The same, when the key is revoked before the delivery begins. -/
def revokedBefore : List (Event (Job (fun _ => 1) (List Uuid)) Empty) :=
  [.start 1 (.op (.revoke 30 ⟨"ys", "new"⟩))] ++ Event.steps 1 12 ++ [.start 0 (.delivery 5)] ++
    Event.steps 0 16

theorem fenced_revoked :
    Fenced undoSeven (Transition.run (Server.step (Job.code .plain listing undoSeven) Empty.elim)
        (Server.init ⟨[], serviceTenant, []⟩) revokedMeanwhile).state ∧
      Fenced undoSeven (Transition.run (SingleWriter.Server.step (Job.code .plain listing undoSeven)
          Empty.elim)
        (SingleWriter.Server.init ⟨[], serviceTenant, []⟩) revokedBefore).state :=
  work_fenced listing undoSeven .plain ⟨[], serviceTenant, []⟩ homed_serviceTenant
    revokedMeanwhile revokedBefore

set_option maxRecDepth 2048 in
/-- Who has done the work, in each order. -/
example :
    ((Transition.run (Server.step (Job.code .plain listing undoSeven) Empty.elim)
        (Server.init ⟨[], serviceTenant, []⟩) revokedMeanwhile).state.log.map fun e =>
          e.after.rest) = [[7], [7]] ∧
      ((Transition.run (Server.step (Job.code .plain listing undoSeven) Empty.elim)
        (Server.init ⟨[], serviceTenant, []⟩) revokedBefore).state.log.map fun e =>
          e.after.rest) = [[]] := by decide

end Yorishiro.Queue.JobFence
