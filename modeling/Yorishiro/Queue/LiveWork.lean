import Yorishiro.Queue.Retirement

/-!
# What a retirement leaves

A retirement covers what is left of the tenant: from the moment `cancel_work` begins, each
lifecycle that has not ended is one that the update has cancelled or will come to, and the
same of dispatches and the deletion (`RetirementPhase.Covers`). Calls of relays and workers
keep this, since they add no row and a lifecycle that has ended stays so (`Serves`). A commit
keeps it if it records no work for the tenant (`Extends`).

A fenced transaction of the tenant is over before the retirement begins. A request's is not:
`lateCommit` records a job, is overtaken by the whole retirement and commits the job after.
-/

set_option autoImplicit false

namespace Yorishiro.Queue

open Yorishiro.Lib Yorishiro.Lib.Transition

/-! ## Calls and workspaces -/

@[simp] theorem finishRow_workspaceId (status : LifecycleStatus) (error : Option String)
    (now : Instant) (row : Lifecycle) :
    (finishRow status error now row).workspaceId = row.workspaceId := by
  cases status <;> rfl

theorem RowUpdate.workspaceId_eq {db : QueueDb} {c : Call} {id : Uuid} {row row' : Lifecycle}
    (h : RowUpdate db c id row row') : row'.workspaceId = row.workspaceId := by
  cases h with
  | finish status error => exact finishRow_workspaceId ..
  | close diagnostic => exact finishRow_workspaceId ..
  | _ => rfl

/-- No call moves a lifecycle to another workspace, or removes one. -/
theorem workspaceId_after {db : QueueDb} (c : Call) {id : Uuid} {row : Lifecycle}
    (hrow : db.lifecycles.get? id = some row) :
    ∃ row', (after db c).lifecycles.get? id = some row' ∧ row'.workspaceId = row.workspaceId := by
  have hchange := rowChange db c id
  rw [hrow] at hchange
  generalize (after db c).lifecycles.get? id = now at hchange ⊢
  generalize grantedTo id (c, (exec db c).map Prod.snd) = grant at hchange
  cases hchange with
  | same => exact ⟨row, rfl, rfl⟩
  | update _ row' hupdate => exact ⟨row', rfl, hupdate.workspaceId_eq⟩

/-- A call that records nothing adds no lifecycle. -/
theorem lifecycle_of_after {db : QueueDb} {c : Call} {id : Uuid} {row' : Lifecycle}
    (hop : c.op.recorded = none) (h : (after db c).lifecycles.get? id = some row') :
    ∃ row, db.lifecycles.get? id = some row := by
  have hchange := rowChange db c id
  rw [h] at hchange
  generalize db.lifecycles.get? id = before at hchange ⊢
  generalize grantedTo id (c, (exec db c).map Prod.snd) = grant at hchange
  cases hchange with
  | same => exact ⟨row', rfl⟩
  | update row => exact ⟨row, rfl⟩
  | insert e job hrec =>
      rw [hrec] at hop
      cases hop

/-! ## Steps that record nothing -/

/-- `db'` has the lifecycles of `db`, each in its workspace and ended if it was, and some of its
dispatches, each in its workspace and with the lifecycle it had. -/
structure Serves (db db' : QueueDb) : Prop where
  kept : ∀ id row, db.lifecycles.get? id = some row →
    ∃ row', db'.lifecycles.get? id = some row' ∧ row'.workspaceId = row.workspaceId
  lifecycle : ∀ id row', db'.lifecycles.get? id = some row' →
    ∃ row, db.lifecycles.get? id = some row ∧ row'.workspaceId = row.workspaceId ∧
      (row.status.terminal = true → row'.status.terminal = true)
  dispatch : ∀ id d', db'.outbox.get? id = some d' →
    ∃ d, db.outbox.get? id = some d ∧ d'.lifecycleId = d.lifecycleId ∧
      d'.workspaceId = d.workspaceId ∧ payloadWorkspaceId d'.payload = payloadWorkspaceId d.payload

/-- The lifecycles after a call that records nothing and does not close a refused job. -/
theorem serves_lifecycle {db : QueueDb} {c : Call} (hop : c.op.recorded = none)
    (hfiltered : ∀ id, c.op.Filtered id) {id : Uuid} {row' : Lifecycle}
    (h : (after db c).lifecycles.get? id = some row') :
    ∃ row, db.lifecycles.get? id = some row ∧ row'.workspaceId = row.workspaceId ∧
      (row.status.terminal = true → row'.status.terminal = true) := by
  obtain ⟨row, hrow⟩ := lifecycle_of_after hop h
  obtain ⟨row₁, hrow₁, hws⟩ := workspaceId_after c hrow
  obtain rfl : row₁ = row' := Option.some.inj (hrow₁.symm.trans h)
  refine ⟨row, hrow, hws, fun hterm => ?_⟩
  have hstart : StandsAt id row.standing db := ⟨row, hrow, rfl⟩
  obtain ⟨row₂, hrow₂, hstands⟩ := standsAt_after hterm hstart (hfiltered id)
  obtain rfl : row₂ = row₁ := Option.some.inj (hrow₂.symm.trans h)
  have hstatus : row₂.status = row.status := congrArg Prod.fst hstands
  rw [hstatus]
  exact hterm

theorem recorded_of_serving {op : Op} (h : op.serving = true) : op.recorded = none := by
  cases op with
  | record e job => cases h
  | recordQuery id deadlineAt job => cases h
  | _ => rfl

theorem serves_call (db : QueueDb) {c : Call} (hc : c.op.serving = true) :
    Serves db (after db c) where
  kept := fun id row hrow => workspaceId_after c hrow
  lifecycle := by
    intro id row' h
    refine serves_lifecycle (recorded_of_serving hc) ?_ h
    intro id diagnostic hop
    rw [hop] at hc
    cases hc
  dispatch := by
    intro id d' hd'
    have hchange := dispatchChange db c id
    rw [hd'] at hchange
    generalize db.outbox.get? id = before at hchange ⊢
    cases hchange with
    | same => exact ⟨d', rfl, rfl, rfl, rfl⟩
    | claim d => exact ⟨d, rfl, rfl, rfl, rfl⟩
    | publish d => exact ⟨d, rfl, rfl, rfl, rfl⟩
    -- the calls that write a row of their own are not among these
    | record e job hop => rw [hop] at hc; cases hc
    | recordQuery deadlineAt job hop => rw [hop] at hc; cases hc
    | requeue d l job hop => rw [hop] at hc; cases hc

/-- The workspace a requeue puts into the payload is the one the message came with. -/
theorem payloadWorkspaceId_requeueJob {d : Delivery} {tag : String} {job : Job}
    (h : requeueJob d tag = some job) :
    payloadWorkspaceId (withLifecycleId job.payload d.lifecycleId) =
      payloadWorkspaceId d.message.payload := by
  obtain ⟨workspace, hws, rfl⟩ := Option.map_eq_some_iff.mp h
  rw [payloadWorkspaceId_withLifecycleId, hws]
  cases hpayload : d.message.payload with
  | object members => exact payloadWorkspaceId_insert _ _
  -- only an object names a workspace
  | _ =>
      rw [hpayload] at hws
      cases hws

/-- A requeue writes the workspace of the lifecycle into its dispatches, which they have. -/
theorem serves_requeue {db : QueueDb} {now : Instant} {d : Delivery} {tag : String} {job : Job}
    (hjoined : ∀ id e, db.outbox.get? id = some e → e.Joined db.lifecycles)
    (hmessage : ∃ row, db.lifecycles.get? d.lifecycleId = some row ∧
      payloadWorkspaceId d.message.payload = row.workspaceId)
    (hjob : requeueJob d tag = some job) :
    Serves db (after db ⟨now, .requeue d.lifecycleId job⟩) where
  kept := fun id row hrow => workspaceId_after _ hrow
  lifecycle := by
    intro id row' h
    refine serves_lifecycle rfl ?_ h
    intro id diagnostic hop
    cases hop
  dispatch := by
    intro id d' hd'
    have hchange := dispatchChange db ⟨now, .requeue d.lifecycleId job⟩ id
    rw [hd'] at hchange
    generalize hbefore : db.outbox.get? id = before at hchange
    cases hchange with
    | same => exact ⟨d', rfl, rfl, rfl, rfl⟩
    | requeue e l job' hop hl =>
        cases hop
        obtain ⟨row, hrow, hpayload⟩ := hmessage
        obtain ⟨row₁, hrow₁, hcolumn, hold⟩ := hjoined id e hbefore _ hl
        obtain rfl : row₁ = row := Option.some.inj (hrow₁.symm.trans hrow)
        have hnew := (payloadWorkspaceId_requeueJob hjob).trans hpayload
        exact ⟨e, rfl, rfl, hnew.trans hcolumn.symm, hnew.trans hold.symm⟩
    | record e job' hop => cases hop
    | recordQuery deadlineAt job' hop => cases hop
    | claim e token lease relayNow hop => cases hop
    | publish e token provider hop => cases hop

/-! ## The commit of a retirement -/

section CancelWork

variable {db db' : QueueDb} {now : Instant} {cancelled deleted : List Uuid}

theorem clash_cancelRow (a b : Lifecycle) (h : (cancelRow now a).clash b = true) :
    a.clash b = true := by
  simp only [Lifecycle.clash, cancelRow, LifecycleStatus.active, Bool.and_false,
    Bool.false_and, Bool.or_false] at h
  simp only [Lifecycle.clash, h, Bool.true_or]

/-- Cancelling rows violates no unique index, so the commit goes through. -/
theorem cancelWork_total (db : QueueDb) (now : Instant) (cancelled deleted : List Uuid) :
    ∃ db', cancelWork db now cancelled deleted = .ok db' := by
  obtain ⟨t, ht⟩ := Table.updateWhere_total Lifecycle.clash_symm (t := db.lifecycles)
    (p := fun id _ => decide (id ∈ cancelled)) (f := cancelRow now) clash_cancelRow
  exact ⟨⟨t, _⟩, by simp only [cancelWork, ht]; rfl⟩

theorem cancelWork_eq_ok (h : cancelWork db now cancelled deleted = .ok db') :
    (∀ id, db'.lifecycles.get? id = (db.lifecycles.get? id).map fun row =>
      if id ∈ cancelled then cancelRow now row else row) ∧
    ∀ id, db'.outbox.get? id = if id ∈ deleted then none else db.outbox.get? id := by
  obtain ⟨⟨t, n⟩, ht, h⟩ := Except.bind_eq_ok.mp h
  cases h
  constructor
  · intro id
    simpa using Table.get?_updateWhere ht id
  · intro id
    rw [Table.get?_deleteWhere]
    by_cases hid : id ∈ deleted
    · cases db.outbox.get? id <;> simp [hid]
    · cases db.outbox.get? id <;> simp [hid]

theorem serves_cancelWork (h : cancelWork db now cancelled deleted = .ok db') : Serves db db' := by
  obtain ⟨hlife, hout⟩ := cancelWork_eq_ok h
  refine ⟨fun id row hrow => ?_, fun id row' hrow' => ?_, fun id d' hd' => ?_⟩
  · rw [hlife id, hrow]
    refine ⟨_, rfl, ?_⟩
    split_ifs <;> rfl
  · rw [hlife id] at hrow'
    obtain ⟨row, hrow, rfl⟩ := Option.map_eq_some_iff.mp hrow'
    refine ⟨row, hrow, ?_, fun hterm => ?_⟩
    · split_ifs <;> rfl
    · split_ifs
      · rfl
      · exact hterm
  · rw [hout id] at hd'
    split_ifs at hd'
    exact ⟨d', hd', rfl, rfl, rfl⟩

end CancelWork


/-! ## What is left of the tenant -/

section Left

variable (owned : Uuid → Bool)

/-- Every lifecycle of the tenant has ended, those in `P` apart. -/
def EndedBut (db : QueueDb) (P : Uuid → Prop) : Prop :=
  ∀ id row, db.lifecycles.get? id = some row → inTenant owned row.workspaceId = true →
    row.status.terminal = true ∨ P id

/-- No dispatch of the tenant is left, those in `P` apart. -/
def ClearedBut (db : QueueDb) (P : Uuid → Prop) : Prop :=
  ∀ id d, db.outbox.get? id = some d → inTenant owned d.workspaceId = true → P id

/-- Nothing of the tenant is left to be done. -/
def Settled (db : QueueDb) : Prop :=
  EndedBut owned db (fun _ => False) ∧ ClearedBut owned db fun _ => False

/-- The bulk statements have taken or will come to all that is left of the tenant. -/
def RetirementPhase.Covers (db : QueueDb) : RetirementPhase → Prop
  | .idle | .locked => True
  | .cancelling _ todo cancelled => EndedBut owned db fun id => id ∈ todo ∨ id ∈ cancelled
  | .deleting _ cancelled todo deleted =>
      EndedBut owned db (fun id => id ∈ cancelled) ∧
        ClearedBut owned db fun id => id ∈ todo ∨ id ∈ deleted

variable {owned} {db db' : QueueDb} {P : Uuid → Prop}

theorem EndedBut.serves (h : EndedBut owned db P) (hs : Serves db db') : EndedBut owned db' P := by
  intro id row' hrow' hown
  obtain ⟨row, hrow, hws, hterm⟩ := hs.lifecycle id row' hrow'
  rw [hws] at hown
  exact (h id row hrow hown).imp_left hterm

theorem ClearedBut.serves (h : ClearedBut owned db P) (hs : Serves db db') :
    ClearedBut owned db' P := by
  intro id d' hd' hown
  obtain ⟨d, hd, -, hws, -⟩ := hs.dispatch id d' hd'
  rw [hws] at hown
  exact h id d hd hown

section Extends

variable {workspace : Uuid} {live : Bool} (he : Extends workspace live db db')
  (hlive : live = true → owned workspace = false)

include he hlive

/-- A commit that records no work for the tenant adds no lifecycle that has not ended. -/
theorem EndedBut.extends (h : EndedBut owned db P) : EndedBut owned db' P := by
  intro id row hrow hown
  rcases he.lifecycle id row hrow with hold | ⟨hws, hnew | hnew⟩
  · exact h id row hold hown
  · rw [hws] at hown
    exact absurd hown (by simp [inTenant, hlive hnew])
  · left
    rw [hnew]
    rfl

theorem ClearedBut.extends (h : ClearedBut owned db P) : ClearedBut owned db' P := by
  intro id d hd hown
  rcases he.dispatch id d hd with hold | ⟨hnew, hws, -⟩
  · exact h id d hold hown
  · rw [hws] at hown
    exact absurd hown (by simp [inTenant, hlive hnew])

end Extends

theorem Settled.serves (h : Settled owned db) (hs : Serves db db') : Settled owned db' :=
  ⟨h.1.serves hs, h.2.serves hs⟩

theorem RetirementPhase.Covers.serves {phase : RetirementPhase} (h : phase.Covers owned db)
    (hs : Serves db db') : phase.Covers owned db' := by
  cases phase with
  | idle => trivial
  | locked => trivial
  | cancelling now todo cancelled => exact EndedBut.serves h hs
  | deleting now cancelled todo deleted => exact ⟨h.1.serves hs, h.2.serves hs⟩

theorem RetirementPhase.Covers.extends {phase : RetirementPhase} {workspace : Uuid} {live : Bool}
    (h : phase.Covers owned db) (he : Extends workspace live db db')
    (hlive : phase.underway = true → live = true → owned workspace = false) :
    phase.Covers owned db' := by
  cases phase with
  | idle => trivial
  | locked => trivial
  | cancelling now todo cancelled => exact EndedBut.extends he (hlive rfl) h
  | deleting now cancelled todo deleted =>
      exact ⟨EndedBut.extends he (hlive rfl) h.1, ClearedBut.extends he (hlive rfl) h.2⟩

/-! ## The bulk statements -/

theorem cancellable_of_not_terminal {row : Lifecycle} (hown : inTenant owned row.workspaceId = true)
    (h : ¬ row.status.terminal = true) : cancellable owned row = true := by
  have hcompleted : row.status ≠ .completed := by
    intro hs
    rw [hs] at h
    exact h rfl
  have hcancelled : row.status ≠ .cancelled := by
    intro hs
    rw [hs] at h
    exact h rfl
  simp [cancellable, hown, hcompleted, hcancelled]

/-- The update begins with every lifecycle of the tenant that has not ended. -/
theorem endedBut_keysWhere (db : QueueDb) :
    EndedBut owned db fun id => id ∈ db.lifecycles.keysWhere (cancellable owned) ∨ id ∈ [] := by
  intro id row hrow hown
  by_cases hterm : row.status.terminal = true
  · exact Or.inl hterm
  · exact Or.inr (Or.inl (Table.mem_keysWhere hrow (cancellable_of_not_terminal hown hterm)))

/-- The update comes to one row. -/
theorem EndedBut.cancel {id : Uuid} {todo cancelled : List Uuid}
    (h : EndedBut owned db fun l => l ∈ todo ∨ l ∈ cancelled) :
    EndedBut owned db fun l => l ∈ todo.filter (· ≠ id) ∨
      l ∈ if (db.lifecycles.get? id).any (cancellable owned) && decide (id ∈ todo) then
        id :: cancelled else cancelled := by
  intro l row hrow hown
  by_cases hterm : row.status.terminal = true
  · exact Or.inl hterm
  · refine Or.inr ?_
    rcases (h l row hrow hown).resolve_left hterm with htodo | hdone
    · by_cases hl : l = id
      · subst hl
        -- the filter still holds of the row, as it has not ended
        rw [hrow, Option.any_some, cancellable_of_not_terminal hown hterm]
        simp [htodo]
      · exact Or.inl (List.mem_filter.mpr ⟨htodo, by simpa using hl⟩)
    · right
      split_ifs
      · exact List.mem_cons_of_mem _ hdone
      · exact hdone

theorem clearedBut_keysWhere (db : QueueDb) :
    ClearedBut owned db fun id =>
      id ∈ (db.outbox.keysWhere fun d => inTenant owned d.workspaceId) ∨ id ∈ [] := by
  intro id d hd hown
  exact Or.inl (Table.mem_keysWhere hd hown)

theorem ClearedBut.delete {id : Uuid} {todo deleted : List Uuid}
    (h : ClearedBut owned db fun l => l ∈ todo ∨ l ∈ deleted) :
    ClearedBut owned db fun l => l ∈ todo.filter (· ≠ id) ∨
      l ∈ if (db.outbox.get? id).any (fun d => inTenant owned d.workspaceId) &&
        decide (id ∈ todo) then id :: deleted else deleted := by
  intro l d hd hown
  rcases h l d hd hown with htodo | hdone
  · by_cases hl : l = id
    · subst hl
      rw [hd, Option.any_some, hown]
      simp [htodo]
    · exact Or.inl (List.mem_filter.mpr ⟨htodo, by simpa using hl⟩)
  · right
    split_ifs
    · exact List.mem_cons_of_mem _ hdone
    · exact hdone

/-- Once both statements are through, their commit settles the tenant. -/
theorem settled_cancelWork {now : Instant} {cancelled deleted : List Uuid}
    (hended : EndedBut owned db fun id => id ∈ cancelled)
    (hcleared : ClearedBut owned db fun id => id ∈ [] ∨ id ∈ deleted)
    (h : cancelWork db now cancelled deleted = .ok db') : Settled owned db' := by
  obtain ⟨hlife, hout⟩ := cancelWork_eq_ok h
  refine ⟨fun id row' hrow' hown => Or.inl ?_, fun id d hd hown => ?_⟩
  · rw [hlife id] at hrow'
    obtain ⟨row, hrow, rfl⟩ := Option.map_eq_some_iff.mp hrow'
    split_ifs at hown ⊢ with hid
    · rfl
    · exact (hended id row hrow hown).resolve_right hid
  · rw [hout id] at hd
    split_ifs at hd with hid
    rcases hcleared id d hd hown with hnil | hdel
    · cases hnil
    · exact hid hdel

end Left

/-! ## Runs -/

/-- What holds in every state of a run in which the tenant's jobs are committed in time. -/
structure RetirementInv (owned : Uuid → Bool) (s : TenantQueue) : Prop where
  joined : ∀ id d, s.db.outbox.get? id = some d → d.Joined s.db.lifecycles
  delivered : ∀ m ∈ s.messages, ∃ row, s.db.lifecycles.get? m.lifecycleId = some row ∧
    payloadWorkspaceId m.message.payload = row.workspaceId
  recorded : ∀ fenced workspace rows, .recording fenced workspace rows ∈ s.parties →
    ∀ r ∈ rows, r.2.Of workspace
  fenced : ∀ p ∈ s.parties, p.holdsLock owned = true → s.retirement = .idle ∧ s.disabled = false
  covers : s.retirement.Covers owned s.db
  settled : s.disabled = true → Settled owned s.db

section Steps

variable {owned : Uuid → Bool} {s : TenantQueue}

theorem retirementInv_start : RetirementInv owned .start where
  joined := by
    intro id d hd
    cases hd
  delivered := by
    intro m hm
    cases hm
  recorded := by
    intro fenced workspace rows hp
    cases hp
  fenced := by
    intro p hp
    cases hp
  covers := trivial
  settled := by
    intro h
    cases h

/-- A step on the tables that records nothing. -/
theorem RetirementInv.serves (h : RetirementInv owned s) {db : QueueDb} (hs : Serves s.db db) :
    RetirementInv owned { s with db := db } where
  joined := by
    intro id d' hd' l hl
    obtain ⟨d, hd, hlife, hws, hpayload⟩ := hs.dispatch id d' hd'
    obtain ⟨row, hrow, hcolumn, hold⟩ := h.joined id d hd l (hlife.symm.trans hl)
    obtain ⟨row', hrow', hsame⟩ := hs.kept l row hrow
    exact ⟨row', hrow', by rw [hws, hcolumn, hsame], by rw [hpayload, hold, hsame]⟩
  delivered := by
    intro m hm
    obtain ⟨row, hrow, hws⟩ := h.delivered m hm
    obtain ⟨row', hrow', hsame⟩ := hs.kept _ row hrow
    exact ⟨row', hrow', hws.trans hsame.symm⟩
  recorded := h.recorded
  fenced := h.fenced
  covers := h.covers.serves hs
  settled := fun hdis => (h.settled hdis).serves hs

/-- A commit that records no work for the tenant once it is too late. -/
theorem RetirementInv.extends (h : RetirementInv owned s) {workspace : Uuid} {live : Bool}
    {db : QueueDb} (he : Extends workspace live s.db db)
    (hlive : (s.disabled || s.retirement.underway) = true → live = true → owned workspace = false) :
    RetirementInv owned { s with db := db } where
  joined := by
    intro id d hd
    rcases he.dispatch id d hd with hold | ⟨-, -, hjoined⟩
    · intro l hl
      obtain ⟨row, hrow, hsame⟩ := h.joined id d hold l hl
      exact ⟨row, he.kept l row hrow, hsame⟩
    · exact hjoined
  delivered := by
    intro m hm
    obtain ⟨row, hrow, hws⟩ := h.delivered m hm
    exact ⟨row, he.kept _ row hrow, hws⟩
  recorded := h.recorded
  fenced := h.fenced
  covers := h.covers.extends he fun hway => hlive (by rw [hway, Bool.or_true])
  settled := by
    intro hdis
    have hnot := hlive (by rw [show s.disabled = true from hdis, Bool.true_or])
    exact ⟨EndedBut.extends he hnot (h.settled hdis).1, ClearedBut.extends he hnot (h.settled hdis).2⟩

/-- A step of the parties: each was there, or records for its own workspace and holds the
lock only of a tenant that is neither disabled nor being retired. -/
theorem RetirementInv.withParties (h : RetirementInv owned s) {parties : List Party}
    (hparty : ∀ p ∈ parties, p ∈ s.parties ∨
      ((∀ fenced workspace rows, p = .recording fenced workspace rows →
        ∀ r ∈ rows, r.2.Of workspace) ∧
        (p.holdsLock owned = true → s.retirement = .idle ∧ s.disabled = false))) :
    RetirementInv owned { s with parties := parties } where
  joined := h.joined
  delivered := h.delivered
  recorded := by
    intro fenced workspace rows hp
    rcases hparty _ hp with hold | ⟨hof, -⟩
    · exact h.recorded fenced workspace rows hold
    · exact hof fenced workspace rows rfl
  fenced := by
    intro p hp
    rcases hparty p hp with hold | ⟨-, hlock⟩
    · exact h.fenced p hold
    · exact hlock
  covers := h.covers
  settled := h.settled

/-- One party changes. -/
theorem RetirementInv.set (h : RetirementInv owned s) (i : Nat) {p : Party}
    (hof : ∀ fenced workspace rows, p = .recording fenced workspace rows →
      ∀ r ∈ rows, r.2.Of workspace)
    (hlock : p.holdsLock owned = true → s.retirement = .idle ∧ s.disabled = false) :
    RetirementInv owned { s with parties := s.parties.set i p } := by
  refine h.withParties fun q hq => ?_
  rcases List.mem_or_eq_of_mem_set hq with hold | rfl
  · exact Or.inl hold
  · exact Or.inr ⟨hof, hlock⟩

theorem RetirementInv.add (h : RetirementInv owned s) {p : Party}
    (hof : ∀ fenced workspace rows, p = .recording fenced workspace rows →
      ∀ r ∈ rows, r.2.Of workspace)
    (hlock : p.holdsLock owned = true → s.retirement = .idle ∧ s.disabled = false) :
    RetirementInv owned { s with parties := s.parties ++ [p] } := by
  refine h.withParties fun q hq => ?_
  rcases List.mem_append.mp hq with hold | hnew
  · exact Or.inl hold
  · obtain rfl := List.mem_singleton.mp hnew
    exact Or.inr ⟨hof, hlock⟩

/-- A transaction ends. -/
theorem RetirementInv.close (h : RetirementInv owned s) (i : Nat) (fenced : Bool)
    (workspace : Uuid) :
    RetirementInv owned { s with parties := s.parties.set i (closed fenced workspace) } := by
  apply h.set i
  · intro fenced' workspace' rows hp
    cases fenced <;> cases hp
  · intro hlock
    cases fenced <;> cases hlock

/-- A step of the retirement, which holds the lock unless it ends. -/
theorem RetirementInv.withRetirement (h : RetirementInv owned s) {phase : RetirementPhase}
    (hcovers : phase.Covers owned s.db)
    (hfree : phase = .idle ∨ s.retirement ≠ .idle ∨ s.lockFree owned = true) :
    RetirementInv owned { s with retirement := phase } where
  joined := h.joined
  delivered := h.delivered
  recorded := h.recorded
  fenced := by
    intro p hp hlock
    obtain ⟨hidle, hactive⟩ := h.fenced p hp hlock
    refine ⟨?_, hactive⟩
    rcases hfree with hphase | hbusy | hfree
    · exact hphase
    · exact absurd hidle hbusy
    -- nobody holds the lock when the retirement takes it
    · have hnone := List.all_eq_true.mp (Bool.and_eq_true_iff.mp hfree).2 p hp
      rw [hlock] at hnone
      cases hnone
  covers := hcovers
  settled := h.settled

theorem RetirementInv.serve (h : RetirementInv owned s) {c : Call}
    (hs : Serves s.db (after s.db c)) : RetirementInv owned (s.serve c) := by
  unfold TenantQueue.serve
  split_ifs
  · exact h
  · exact h.serves hs

theorem RetirementInv.record (h : RetirementInv owned s) (i : Nat) (now : Instant)
    {r : Uuid → Option Recording} (hof : ∀ workspace x, r workspace = some x → x.Of workspace) :
    RetirementInv owned (s.record i now r) := by
  unfold TenantQueue.record
  cases hp : s.parties[i]? with
  | none => exact h
  | some p =>
      have hmem : p ∈ s.parties := List.mem_of_getElem? hp
      cases p with
      | request workspace => exact h
      | ended => exact h
      | recording fenced workspace rows =>
          cases hr : r workspace with
          | none => simpa only [hr] using h
          | some x =>
              simp only [hr]
              apply h.set i
              · rintro fenced' workspace' rows' ⟨⟩ y hy
                rcases List.mem_append.mp hy with hold | hnew
                · exact h.recorded fenced workspace rows hmem y hold
                · obtain rfl := List.mem_singleton.mp hnew
                  exact hof workspace x hr
              -- the transaction holds what it held before
              · intro hlock
                cases fenced with
                | true => exact h.fenced _ hmem hlock
                | false => cases hlock

/-- Every message is that of a lifecycle, in whose workspace it was recorded. -/
theorem RetirementInv.scan (h : RetirementInv owned s) {now : CurrentTimestamp}
    {rows : List PendingDispatch} (hdue : due s.db now = some rows) :
    RetirementInv owned { s with messages := s.messages ++ rows.filterMap deliveryOf } where
  joined := h.joined
  delivered := by
    intro m hm
    rcases List.mem_append.mp hm with hold | hnew
    · exact h.delivered m hold
    · obtain ⟨row, hrow, hm⟩ := List.mem_filterMap.mp hnew
      obtain ⟨l, hl, rfl⟩ := Option.map_eq_some_iff.mp hm
      obtain ⟨d, hd, hlife, hpayload⟩ := mem_due hdue hrow
      obtain ⟨row', hrow', -, hws⟩ := h.joined _ d hd l (hlife.trans hl)
      refine ⟨row', hrow', ?_⟩
      rw [← hws, hpayload]
      rfl
  recorded := h.recorded
  fenced := h.fenced
  covers := h.covers
  settled := h.settled

/-- The commit of a transaction that took no lock comes in time: it records no work for the
tenant once the update of a retirement has begun or the tenant is disabled. -/
def inTime (owned : Uuid → Bool) (s : TenantQueue) : RetirementLabel → Bool
  | .commit i =>
      match s.parties[i]? with
      | some (.recording false workspace rows) =>
          !(owned workspace && rows.any (fun r => r.2.live) &&
            (s.disabled || s.retirement.underway))
      | _ => true
  | _ => true

theorem RetirementInv.commit (h : RetirementInv owned s) {i : Nat} {fenced : Bool}
    {workspace : Uuid} {rows : List (Instant × Recording)} {db : QueueDb}
    (hp : s.parties[i]? = some (.recording fenced workspace rows))
    (hdb : recordAll s.db rows = .ok db) (htime : inTime owned s (.commit i) = true) :
    RetirementInv owned { s with db := db, parties := s.parties.set i (closed fenced workspace) } := by
  have hmem : Party.recording fenced workspace rows ∈ s.parties := List.mem_of_getElem? hp
  have he := recordAll_extends (h.recorded fenced workspace rows hmem) hdb
  refine (h.extends he fun hlate hlive => ?_).close i fenced workspace
  by_contra hown
  rw [Bool.not_eq_false] at hown
  cases fenced with
  -- the lock keeps a fenced transaction of the tenant before the retirement
  | true =>
      obtain ⟨hidle, hactive⟩ := h.fenced _ hmem hown
      rw [hidle, hactive] at hlate
      cases hlate
  | false =>
      simp only [inTime, hp] at htime
      rw [hown, hlive, hlate] at htime
      cases htime

/-! ### The retirement -/

/-- A step within the transaction of the retirement. -/
theorem RetirementInv.atWork (h : RetirementInv owned s) {phase next : RetirementPhase}
    (hphase : s.retirement = phase) (hbusy : phase ≠ .idle) (hcovers : next.Covers owned s.db) :
    RetirementInv owned { s with retirement := next } :=
  h.withRetirement hcovers (Or.inr (Or.inl (by rw [hphase]; exact hbusy)))

theorem RetirementInv.cancel (h : RetirementInv owned s) {now : Instant} {todo cancelled : List Uuid}
    (hphase : s.retirement = .cancelling now todo cancelled) (id : Uuid) :
    (RetirementPhase.cancelling now (todo.filter (· ≠ id))
      (if (s.db.lifecycles.get? id).any (cancellable owned) && decide (id ∈ todo) then
        id :: cancelled else cancelled)).Covers owned s.db := by
  have hcovers := h.covers
  rw [hphase] at hcovers
  exact EndedBut.cancel hcovers

/-- The deletion begins when the update is through, with every dispatch of the tenant. -/
theorem RetirementInv.deleteAll (h : RetirementInv owned s) {now : Instant} {cancelled : List Uuid}
    (hphase : s.retirement = .cancelling now [] cancelled) :
    (RetirementPhase.deleting now cancelled
      (s.db.outbox.keysWhere fun d => inTenant owned d.workspaceId) []).Covers owned s.db := by
  have hcovers := h.covers
  rw [hphase] at hcovers
  refine ⟨fun id row hrow hown => ?_, clearedBut_keysWhere s.db⟩
  exact (hcovers id row hrow hown).imp_right fun hin => hin.resolve_left List.not_mem_nil

theorem RetirementInv.delete (h : RetirementInv owned s) {now : Instant}
    {cancelled todo deleted : List Uuid}
    (hphase : s.retirement = .deleting now cancelled todo deleted) (id : Uuid) :
    (RetirementPhase.deleting now cancelled (todo.filter (· ≠ id))
      (if (s.db.outbox.get? id).any (fun d => inTenant owned d.workspaceId) &&
        decide (id ∈ todo) then id :: deleted else deleted)).Covers owned s.db := by
  have hcovers := h.covers
  rw [hphase] at hcovers
  exact ⟨hcovers.1, ClearedBut.delete hcovers.2⟩

/-- **The commit of the retirement** settles the tenant. -/
theorem RetirementInv.commitDisable (h : RetirementInv owned s) {now : Instant}
    {cancelled deleted : List Uuid} {db : QueueDb}
    (hphase : s.retirement = .deleting now cancelled [] deleted)
    (hdb : cancelWork s.db now cancelled deleted = .ok db) :
    RetirementInv owned { s with db := db, disabled := true, retirement := .idle } := by
  have hcovers := h.covers
  rw [hphase] at hcovers
  have hserves := h.serves (serves_cancelWork hdb)
  exact
    { joined := hserves.joined
      delivered := hserves.delivered
      recorded := hserves.recorded
      -- whoever held the lock would have kept the retirement from beginning
      fenced := by
        intro p hp hlock
        have hidle := (h.fenced p hp hlock).1
        rw [hphase] at hidle
        cases hidle
      covers := trivial
      settled := fun _ => settled_cancelWork hcovers.1 hcovers.2 hdb }

/-! ### Every step -/

theorem RetirementInv.authenticate (h : RetirementInv owned s) (workspace : Uuid) :
    RetirementInv owned (retirementStep owned s (.authenticate workspace)) := by
  unfold retirementStep
  dsimp only
  split_ifs
  · exact h
  · apply h.add
    · rintro fenced workspace rows ⟨⟩
    · rintro ⟨⟩

theorem RetirementInv.begin (h : RetirementInv owned s) (i : Nat) :
    RetirementInv owned (retirementStep owned s (.begin i)) := by
  unfold retirementStep
  dsimp only
  split
  · apply h.set i
    · rintro fenced workspace rows ⟨⟩ r ⟨⟩
    · rintro ⟨⟩
  · exact h

/-- Whoever begins under the tenant's lock has found it free and the tenant active. -/
theorem RetirementInv.beginFenced (h : RetirementInv owned s) (workspace : Uuid) :
    RetirementInv owned (retirementStep owned s (.beginFenced workspace)) := by
  unfold retirementStep
  dsimp only
  split_ifs with hrefused
  · exact h
  · apply h.add
    · rintro fenced workspace rows ⟨⟩ r ⟨⟩
    · intro hown
      have hown : owned workspace = true := hown
      rw [hown, Bool.true_and, Bool.or_eq_true, not_or] at hrefused
      obtain ⟨hactive, hfree⟩ := hrefused
      rw [Bool.not_eq_true, Bool.not_eq_false'] at hfree
      exact ⟨of_decide_eq_true (Bool.and_eq_true_iff.mp hfree).1, by simpa using hactive⟩

theorem RetirementInv.commitParty (h : RetirementInv owned s) {i : Nat}
    (htime : inTime owned s (.commit i) = true) :
    RetirementInv owned (retirementStep owned s (.commit i)) := by
  unfold retirementStep
  dsimp only
  cases hp : s.parties[i]? with
  | none => exact h
  | some p =>
      cases p with
      | request workspace => exact h
      | ended => exact h
      | recording fenced workspace rows =>
          cases hdb : recordAll s.db rows with
          | error e => simpa only [hdb] using h.close i fenced workspace
          | ok db => simpa only [hdb] using h.commit hp hdb htime

theorem RetirementInv.requeue (h : RetirementInv owned s) (m : Nat) (tag : String)
    (now : Instant) : RetirementInv owned (retirementStep owned s (.requeue m tag now)) := by
  unfold retirementStep
  dsimp only
  cases hm : s.messages[m]? with
  | none => exact h
  | some d =>
      cases hjob : requeueJob d tag with
      | none => simpa only [hjob] using h
      | some job =>
          simp only [hjob]
          exact h.serve
            (serves_requeue h.joined (h.delivered d (List.mem_of_getElem? hm)) hjob)

/-- One lifecycle is cancelled, if the statement still finds it. -/
theorem RetirementInv.cancelOne (h : RetirementInv owned s) (id : Uuid) :
    RetirementInv owned (retirementStep owned s (.cancel id)) := by
  unfold retirementStep
  dsimp only
  split
  · next now todo cancelled hphase =>
      split_ifs with hc
      · exact h.atWork hphase (by simp) (by simpa only [if_pos hc] using h.cancel hphase id)
      · exact h.atWork hphase (by simp) (by simpa only [if_neg hc] using h.cancel hphase id)
  · exact h

/-- One dispatch is deleted, if the statement still finds it. -/
theorem RetirementInv.deleteOne (h : RetirementInv owned s) (id : Uuid) :
    RetirementInv owned (retirementStep owned s (.delete id)) := by
  unfold retirementStep
  dsimp only
  split
  · next now cancelled todo deleted hphase =>
      split_ifs with hc
      · exact h.atWork hphase (by simp) (by simpa only [if_pos hc] using h.delete hphase id)
      · exact h.atWork hphase (by simp) (by simpa only [if_neg hc] using h.delete hphase id)
  · exact h

/-- **Step.** -/
theorem retirementInv_step (h : RetirementInv owned s) {l : RetirementLabel}
    (htime : inTime owned s l = true) : RetirementInv owned (retirementStep owned s l) := by
  cases l with
  | authenticate workspace => exact h.authenticate workspace
  | begin i => exact h.begin i
  | beginFenced workspace => exact h.beginFenced workspace
  | dispatch i now spec id target policy =>
      apply h.record i now
      intro workspace x hx
      split_ifs at hx with hws
      cases hx
      exact hws ▸ dispatchJob_of spec id target policy
  | search i now dispatchId requestId deadlineAt tag =>
      unfold retirementStep
      dsimp only
      apply h.record i now
      rintro workspace x ⟨⟩
      exact openQuery_of ..
  | commit i => exact h.commitParty htime
  | rollback i =>
      unfold retirementStep
      dsimp only
      split
      · exact h.close i _ _
      · exact h
  | scan now =>
      unfold retirementStep
      dsimp only
      cases hdue : due s.db now with
      | none => exact h
      | some rows => exact h.scan hdue
  | call c =>
      unfold retirementStep
      dsimp only
      split_ifs with hserving
      · exact h.serve (serves_call s.db hserving)
      · exact h
  | requeue m tag now => exact h.requeue m tag now
  | disable =>
      unfold retirementStep
      dsimp only
      split_ifs with hfree
      · exact h.withRetirement trivial (Or.inr (Or.inr hfree))
      · exact h
  | cancelAll now =>
      unfold retirementStep
      dsimp only
      split
      · next hphase => exact h.atWork hphase (by simp) (endedBut_keysWhere s.db)
      · exact h
  | cancel id => exact h.cancelOne id
  | deleteAll =>
      unfold retirementStep
      dsimp only
      split
      · next now cancelled hphase => exact h.atWork hphase (by simp) (h.deleteAll hphase)
      · exact h
  | delete id => exact h.deleteOne id
  | commitDisable =>
      unfold retirementStep
      dsimp only
      split
      · next now cancelled deleted hphase =>
          cases hdb : cancelWork s.db now cancelled deleted with
          | error e => exact h.withRetirement trivial (Or.inl rfl)
          | ok db => exact h.commitDisable hphase hdb
      · exact h
  | rollbackDisable => exact h.withRetirement trivial (Or.inl rfl)

theorem retirementInv_run {labels : List RetirementLabel}
    (hmeet : StepsMeet (retirementStep owned) (fun s l => inTime owned s l = true) .start labels) :
    RetirementInv owned (run (retirementStep owned) .start labels) :=
  run_invariant (RetirementInv owned) (fun _ _ h htime => retirementInv_step h htime)
    retirementInv_start hmeet

end Steps

/-! ## No live work -/

/-- No lifecycle of the tenant is queued, running or retrying, no dispatch is left of its
workspaces or of its lifecycles, and no delivery of one of them is admitted. -/
structure NoLiveWork (owned : Uuid → Bool) (db : QueueDb) : Prop where
  lifecycle : ∀ id row, db.lifecycles.get? id = some row → inTenant owned row.workspaceId = true →
    row.status ≠ .queued ∧ row.status ≠ .running ∧ row.status ≠ .retrying
  dispatch : ∀ id d, db.outbox.get? id = some d → inTenant owned d.workspaceId = false ∧
    ∀ l row, d.lifecycleId = some l → db.lifecycles.get? l = some row →
      inTenant owned row.workspaceId = false
  start : ∀ id row now a t, db.lifecycles.get? id = some row →
    inTenant owned row.workspaceId = true → startAt db.lifecycles id now = .ok (a, t) →
    ∀ k, a ≠ .started k ∧ a ≠ .recovered k

/-- In every state with no transaction open, a disabled tenant has no live work. -/
def LeavesNoLiveWork (owned : Uuid → Bool) (labels : List RetirementLabel) : Prop :=
  (run (retirementStep owned) .start labels).disabled = true →
    (run (retirementStep owned) .start labels).noneOpen = true →
    NoLiveWork owned (run (retirementStep owned) .start labels).db

theorem noLiveWork_of_settled {owned : Uuid → Bool} {db : QueueDb} (h : Settled owned db)
    (hjoined : ∀ id d, db.outbox.get? id = some d → d.Joined db.lifecycles) :
    NoLiveWork owned db where
  lifecycle := by
    intro id row hrow hown
    have hterm := (h.1 id row hrow hown).resolve_right False.elim
    refine ⟨?_, ?_, ?_⟩
    all_goals
      intro hs
      rw [hs] at hterm
      cases hterm
  dispatch := by
    intro id d hd
    have hcolumn : inTenant owned d.workspaceId = false := by
      by_contra hown
      exact h.2 id d hd (by simpa using hown)
    refine ⟨hcolumn, fun l row hl hrow => ?_⟩
    obtain ⟨row', hrow', hws, -⟩ := hjoined id d hd l hl
    obtain rfl : row' = row := Option.some.inj (hrow'.symm.trans hrow)
    rw [← hws]
    exact hcolumn
  start := by
    intro id row now a t hrow hown hstart k
    have hterm := (h.1 id row hrow hown).resolve_right False.elim
    obtain ⟨a', hstart', hgranted⟩ := startAt_of_terminal hrow hterm now
    obtain rfl : a' = a := congrArg Prod.fst (Except.ok.inj (hstart'.symm.trans hstart))
    refine ⟨?_, ?_⟩
    all_goals
      rintro rfl
      cases hgranted

/-- **Retirement leaves no live work**, in every run in which each transaction that records
work for the tenant without its lock commits before the update of `cancel_work` begins. -/
theorem retirement_leaves_no_live_work (owned : Uuid → Bool) (labels : List RetirementLabel)
    (hmeet : StepsMeet (retirementStep owned) (fun s l => inTime owned s l = true) .start labels) :
    LeavesNoLiveWork owned labels := by
  intro hdisabled _
  have hinv := retirementInv_run hmeet
  exact noLiveWork_of_settled (hinv.settled hdisabled) hinv.joined

/-! ## A late commit -/

/-- The embedding job of an entity in workspace 1. -/
def embeddingSpec : JobSpec where
  jobName := "embedding_sync"
  workspaceId := 1
  workerClass := .shared
  dispatchPayload := [("worker_class", .string "shared")]
  workerName := "EmbeddingSyncWorker"
  useQueueConcurrency := false

/-- A request of workspace 1 begins its transaction and records a job. -/
def recordsEmbedding (i : Nat) (lifecycleId : Uuid) : List RetirementLabel :=
  [.begin i, .dispatch i 0 embeddingSpec lifecycleId (.ok ⟨"worker-target:shared", "shared:shared"⟩)
    (.error "")]

/-- The statements of a retirement that finds the lifecycles and dispatches given. -/
def retires (ids : List Uuid) : List RetirementLabel :=
  [.disable, .cancelAll 1] ++ ids.map .cancel ++ [.deleteAll] ++ ids.map .delete ++ [.commitDisable]

/-- A job of workspace 1 is recorded, and the tenant is retired before the transaction commits. -/
def lateCommit : List RetirementLabel :=
  .authenticate 1 :: recordsEmbedding 0 7 ++ retires [] ++ [.commit 0]

/-- The job stays queued: the update has not seen its row. -/
theorem not_leavesNoLiveWork_lateCommit :
    ¬ LeavesNoLiveWork (fun workspace => decide (workspace = 1)) lateCommit := by
  intro h
  have hstate :
      let s := run (retirementStep fun workspace => decide (workspace = 1)) .start lateCommit
      (s.disabled = true ∧ s.noneOpen = true) ∧
      (s.db.lifecycles.get? 7).map (fun row => (row.workspaceId, row.status)) =
        some (some 1, .queued) := by
    decide
  obtain ⟨⟨hdisabled, hopen⟩, hrow⟩ := hstate
  obtain ⟨row, hget, hfields⟩ := Option.map_eq_some_iff.mp hrow
  obtain ⟨hws, hstatus⟩ := Prod.mk.inj hfields
  have hdone := h hdisabled hopen
  exact (hdone.lifecycle 7 row hget (by rw [hws]; rfl)).1 hstatus

/-- The job is committed before the retirement, which finds it running. -/
def timelyCommit : List RetirementLabel :=
  .authenticate 1 :: recordsEmbedding 0 7 ++
    [.commit 0, .scan (.instant 1), .call ⟨1, .start 7⟩] ++ retires [7] ++
    [.call ⟨2, .finish 7 1 .failed none⟩]

theorem retirement_leaves_no_live_work_timelyCommit :
    let owned : Uuid → Bool := fun workspace => decide (workspace = 1)
    (run (retirementStep owned) .start timelyCommit).disabled = true ∧
      NoLiveWork owned (run (retirementStep owned) .start timelyCommit).db := by
  intro owned
  have hended :
      (run (retirementStep owned) .start timelyCommit).disabled = true ∧
      (run (retirementStep owned) .start timelyCommit).noneOpen = true ∧
      StepsMeet (retirementStep owned) (fun s l => inTime owned s l = true) .start timelyCommit := by
    decide
  obtain ⟨hdisabled, hopen, hmeet⟩ := hended
  exact ⟨hdisabled, retirement_leaves_no_live_work owned timelyCommit hmeet hdisabled hopen⟩

end Yorishiro.Queue
