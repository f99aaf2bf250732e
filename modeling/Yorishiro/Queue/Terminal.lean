import Yorishiro.Queue.System

/-!
# Terminal lifecycles

A lifecycle row that is completed, cancelled or unavailable has left the queue.
Each operation on it is filtered differently: `start` refuses completed and
cancelled rows by name and lets an unavailable row fail at the claim, the lease
calls ask for a running row, a deferral without attempt number for a waiting one.
`after_of_terminal` collects them: a call directed at a terminal row commits
nothing at all. The exception is `closeUnavailable`, whose `finish` has no filter;
it is called only on the row its own caller has just recorded.
-/

set_option autoImplicit false

namespace Yorishiro.Queue

open Yorishiro.Lib Yorishiro.Lib.Transition

/-- The statuses a job does not leave. -/
def LifecycleStatus.terminal : LifecycleStatus → Bool
  | .completed | .cancelled | .unavailable => true
  | _ => false

/-- The columns of a row that say who may work on it. -/
def Lifecycle.standing (row : Lifecycle) : LifecycleStatus × Int × Option Instant :=
  (row.status, row.attempt, row.leaseUntil)

/-- The call is not the unfiltered `finish` of `close_unavailable` on lifecycle `id`. -/
def Op.Filtered (id : Uuid) (op : Op) : Prop :=
  ∀ diagnostic, op ≠ .closeUnavailable id diagnostic

section Row

variable {row : Lifecycle}

theorem status_ne_running (h : row.status.terminal = true) : row.status ≠ .running := by
  intro hs
  rw [hs] at h
  cases h

theorem not_requeueable (h : row.status.terminal = true) : requeueable row = false := by
  cases hs : row.status <;> simp_all [LifecycleStatus.terminal, requeueable]

theorem not_claimable (h : row.status.terminal = true) (recovered : Bool) :
    claimable recovered row = false := by
  cases hs : row.status <;> cases recovered <;>
    simp_all [LifecycleStatus.terminal, claimable]

theorem deferFilter_eq_false (h : row.status.terminal = true) (attempt : Option Int) :
    deferFilter attempt row = false := by
  cases hs : row.status <;> cases attempt <;>
    simp_all [LifecycleStatus.terminal, deferFilter]

end Row

/-! ## Calls on a terminal row -/

section Calls

variable {db : QueueDb} {id : Uuid} {row : Lifecycle}

/-- An update whose filter refuses the row changes nothing and reports so. -/
theorem updateRow_of_refused {t : Lifecycles} {p : Lifecycle → Bool} {f : Lifecycle → Lifecycle}
    (hrow : t.get? id = some row) (hp : p row = false) : t.updateRow id p f = .ok (t, 0) := by
  cases hu : t.updateRow id p f with
  | error e =>
      obtain ⟨-, row', -, -, hrow', hp', -⟩ := Table.updateRow_eq_error hu
      obtain rfl : row = row' := Option.some.inj (hrow.symm.trans hrow')
      rw [hp] at hp'
      cases hp'
  | ok r =>
      obtain ⟨t', n⟩ := r
      rcases Table.updateRow_eq_ok hu with ⟨row', hrow', hp', -⟩ | ⟨-, hn, ht⟩
      · obtain rfl : row = row' := Option.some.inj (hrow.symm.trans hrow')
        rw [hp] at hp'
        cases hp'
      · rw [hn, ht]

/-- No delivery of a terminal row is admitted, and the table stays as it is. -/
theorem startAt_of_terminal {t : Lifecycles} (hrow : t.get? id = some row)
    (hterm : row.status.terminal = true) (now : Instant) :
    ∃ a : Admission, startAt t id now = .ok (a, t) ∧ a.granted = none := by
  have hclaim : claim t id false now = .ok (t, 0) := by
    unfold claim
    rw [hrow, Option.any_some, not_claimable hterm false, Bool.false_and, if_neg (by simp)]
    exact updateRow_of_refused hrow (not_claimable hterm false)
  cases hs : row.status with
  | completed => exact ⟨.terminal, by simp [startAt, admitDelivery, hrow, hs]; rfl, rfl⟩
  | cancelled => exact ⟨.terminal, by simp [startAt, admitDelivery, hrow, hs]; rfl, rfl⟩
  -- an unavailable row reaches the claim, which then affects no row
  | unavailable =>
      by_cases hsat : saturated t id row now = true
      · exact ⟨.saturated none, by simp [startAt, admitDelivery, admitClaim, hrow, hs, hsat]; rfl, rfl⟩
      · refine ⟨.duplicate row.attempt, ?_, rfl⟩
        simp [startAt, admitDelivery, admitClaim, hrow, hs, hsat, hclaim]
        rfl
  | queued => rw [hs] at hterm; cases hterm
  | running => rw [hs] at hterm; cases hterm
  | retrying => rw [hs] at hterm; cases hterm
  | failed => rw [hs] at hterm; cases hterm

theorem recordLifecyclePayload_of_terminal (hrow : db.lifecycles.get? id = some row)
    (hterm : row.status.terminal = true) (job : Job) :
    recordLifecyclePayload db id job = .error (.recordNotFound "retryable queue lifecycle") := by
  unfold recordLifecyclePayload
  rw [updateRow_of_refused hrow (not_requeueable hterm)]
  rfl

/-- A call directed at a terminal row commits nothing. -/
theorem after_of_terminal {c : Call} (hrow : db.lifecycles.get? id = some row)
    (hterm : row.status.terminal = true) (htarget : c.op.lifecycle = some id)
    (hfiltered : c.op.Filtered id) : after db c = db := by
  cases hexec : exec db c with
  | error e => exact after_of_error hexec
  | ok r =>
      obtain ⟨db', reply⟩ := r
      rw [after_of_ok hexec]
      obtain ⟨time, op⟩ := c
      cases op with
      | record e job =>
          cases htarget
          obtain ⟨d, hd, -⟩ := Except.map_eq_ok hexec
          rw [(recordInTransaction_eq_ok hd).1] at hrow
          cases hrow
      | start l =>
          cases htarget
          obtain ⟨a, hstart, -⟩ := startAt_of_terminal hrow hterm time
          simp only [exec, hstart, Except.map, Except.ok.injEq] at hexec
          cases hexec
          rfl
      | renew l k =>
          cases htarget
          obtain ⟨⟨t, b⟩, hd, hr⟩ := Except.map_eq_ok hexec
          cases hr
          rcases renewAt_eq_ok hd with ⟨-, row', hrow', -, hrun, -⟩ | ⟨-, ht⟩
          · obtain rfl : row = row' := Option.some.inj (hrow.symm.trans hrow')
            exact absurd hrun (status_ne_running hterm)
          · rw [ht]
      -- the other lease calls report an update that found no row as an error
      | defer l attempt error =>
          cases htarget
          obtain ⟨t, hd, -⟩ := Except.map_eq_ok hexec
          obtain ⟨row', hrow', hp, -⟩ := defer_eq_ok hd
          obtain rfl : row = row' := Option.some.inj (hrow.symm.trans hrow')
          rw [deferFilter_eq_false hterm attempt] at hp
          cases hp
      | deferAt l k error =>
          cases htarget
          obtain ⟨t, hd, -⟩ := Except.map_eq_ok hexec
          obtain ⟨row', hrow', -, hrun, -⟩ := deferAt_eq_ok hd
          obtain rfl : row = row' := Option.some.inj (hrow.symm.trans hrow')
          exact absurd hrun (status_ne_running hterm)
      | finish l k status error =>
          cases htarget
          obtain ⟨t, hd, -⟩ := Except.map_eq_ok hexec
          obtain ⟨row', hrow', hp, -⟩ := finish_eq_ok hd
          obtain rfl : row = row' := Option.some.inj (hrow.symm.trans hrow')
          obtain ⟨-, hrun⟩ : row.attempt = k ∧ row.status = .running := by
            simpa [finishFilter] using hp
          exact absurd hrun (status_ne_running hterm)
      | closeUnavailable l diagnostic =>
          cases htarget
          exact absurd rfl (hfiltered diagnostic)
      | requeue l job =>
          cases htarget
          obtain ⟨d, hd, -⟩ := Except.map_eq_ok hexec
          rw [recordLifecyclePayload_of_terminal hrow hterm] at hd
          cases hd
      | recordQuery l deadlineAt job => cases htarget
      | claim l token lease relayNow => cases htarget
      | acknowledge l token provider => cases htarget
      | expire l => cases htarget

/-- Calls directed elsewhere leave status, attempt and lease of a row. -/
theorem after_standing_of_lifecycle_ne {c : Call} (hrow : db.lifecycles.get? id = some row)
    (h : c.op.lifecycle ≠ some id) :
    ∃ row', (after db c).lifecycles.get? id = some row' ∧ row'.standing = row.standing := by
  obtain ⟨providerJobId, hrow'⟩ := after_of_lifecycle_ne hrow h
  exact ⟨_, hrow', rfl⟩

end Calls

/-! ## Runs -/

/-- The row `id` is there, with the given standing. -/
def StandsAt (id : Uuid) (standing : LifecycleStatus × Int × Option Instant) (db : QueueDb) : Prop :=
  ∃ row, db.lifecycles.get? id = some row ∧ row.standing = standing

theorem standsAt_after {id : Uuid} {standing : LifecycleStatus × Int × Option Instant}
    (hterm : standing.1.terminal = true) {db : QueueDb} {c : Call} (h : StandsAt id standing db)
    (hfiltered : c.op.Filtered id) : StandsAt id standing (after db c) := by
  obtain ⟨row, hrow, hstands⟩ := h
  by_cases htarget : c.op.lifecycle = some id
  · have hrowterm : row.status.terminal = true := by
      rw [← hstands] at hterm
      exact hterm
    rw [after_of_terminal hrow hrowterm htarget hfiltered]
    exact ⟨row, hrow, hstands⟩
  · obtain ⟨row', hrow', hsame⟩ := after_standing_of_lifecycle_ne hrow htarget
    exact ⟨row', hrow', hsame.trans hstands⟩

theorem standsAt_run {id : Uuid} {standing : LifecycleStatus × Int × Option Instant}
    (hterm : standing.1.terminal = true) {db : QueueDb} (h : StandsAt id standing db)
    {calls : List Call} (hcalls : ∀ c ∈ calls, c.op.Filtered id) :
    StandsAt id standing (run after db calls) := by
  induction calls generalizing db with
  | nil => exact h
  | cons c calls ih =>
      apply ih (standsAt_after hterm h (hcalls c List.mem_cons_self))
      intro c' hc'
      exact hcalls c' (List.mem_cons_of_mem _ hc')

/-- **Terminal lifecycles absorb.** Once a row is completed, cancelled or unavailable,
every run of further calls leaves its status, attempt and lease; in every state
reached no delivery of it is admitted, and a requeue of it fails and leaves both
tables as they are. -/
theorem terminal_lifecycles_absorb (db : QueueDb) (id : Uuid) (row : Lifecycle)
    (hrow : db.lifecycles.get? id = some row) (hterm : row.status.terminal = true)
    (calls : List Call) (hcalls : ∀ c ∈ calls, c.op.Filtered id) :
    (∃ row', (run after db calls).lifecycles.get? id = some row' ∧ row'.status = row.status ∧
      row'.attempt = row.attempt ∧ row'.leaseUntil = row.leaseUntil) ∧
    (∀ now, ∃ a : Admission,
      exec (run after db calls) ⟨now, .start id⟩ = .ok (run after db calls, .admission a) ∧
      ∀ k, a ≠ .started k ∧ a ≠ .recovered k) ∧
    (∀ now job,
      exec (run after db calls) ⟨now, .requeue id job⟩ =
        .error (.recordNotFound "retryable queue lifecycle") ∧
      after (run after db calls) ⟨now, .requeue id job⟩ = run after db calls) := by
  have hstart : StandsAt id row.standing db := ⟨row, hrow, rfl⟩
  obtain ⟨row', hrow', hstands⟩ := standsAt_run hterm hstart hcalls
  simp only [Lifecycle.standing, Prod.mk.injEq] at hstands
  have hterm' : row'.status.terminal = true := by rw [hstands.1]; exact hterm
  refine ⟨⟨row', hrow', hstands⟩, ?_, ?_⟩
  · intro now
    obtain ⟨a, hstart, hgranted⟩ := startAt_of_terminal hrow' hterm' now
    refine ⟨a, by simp only [exec, hstart, Except.map], fun k => ⟨?_, ?_⟩⟩
    · rintro rfl
      cases hgranted
    · rintro rfl
      cases hgranted
  · intro now job
    have hexec : exec (run after db calls) ⟨now, .requeue id job⟩ =
        .error (.recordNotFound "retryable queue lifecycle") := by
      simp only [exec, recordLifecyclePayload_of_terminal hrow' hterm' job, Except.map]
    exact ⟨hexec, after_of_error hexec⟩

/-- A completed job whose stale worker, relay and requeue all come back to it. -/
theorem terminal_lifecycles_absorb_completed :
    let e : Enqueue := ⟨0, "reindex", .shared, none, none, none, none⟩
    let job : Job := ⟨.object [], "ReindexWorker", none, none⟩
    let db := run after QueueDb.empty
      [⟨0, .record e job⟩, ⟨1, .start 0⟩, ⟨2, .finish 0 1 .completed none⟩]
    let calls : List Call := [⟨3, .renew 0 1⟩, ⟨4, .requeue 0 job⟩, ⟨5, .start 0⟩]
    ∃ row', (run after db calls).lifecycles.get? 0 = some row' ∧ row'.status = .completed ∧
      row'.attempt = 1 ∧ row'.leaseUntil = none := by
  intro e job db calls
  have hrow : db.lifecycles.get? 0 = some { e.row 0 with
      status := .completed, claimAt := some 1, admittedAt := some 1, startAt := some 1,
      completedAt := some 2, attempt := 1 } := by decide
  refine (terminal_lifecycles_absorb db 0 _ hrow rfl calls ?_).1
  intro c hc diagnostic hop
  simp only [calls, List.mem_cons, List.not_mem_nil, or_false] at hc
  rcases hc with rfl | rfl | rfl
  all_goals cases hop

end Yorishiro.Queue
