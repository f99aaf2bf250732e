import Yorishiro.Queue.System

/-!
# Lease fencing

A worker is admitted to a lifecycle under an attempt number, and carries that
number in every later call. `LeaseFenced` says that the number fences: a call
carrying a number that has been superseded by a later admission leaves the row as
it is, and only the newest number can change it.

The number fences as long as it is never handed out twice. `startAt` always
grants the successor of the stored attempt, but a requeue sets the stored attempt
back to zero, after which the numbers start again. `leaseFenced_of_requeueFresh`
proves fencing for every run in which a requeue only finds lifecycles whose
attempt is still zero, and `not_leaseFenced_after_requeue` is a run where a
saturated redelivery is requeued and a stale worker renews the new holder's lease.
-/

set_option autoImplicit false

namespace Yorishiro.Queue

open Yorishiro.Lib Yorishiro.Lib.Transition

/-- No call carrying a superseded attempt number changes the row, and a call that
carries a number and changes the row carries the newest one. -/
def LeaseFenced (s : Trace) : Prop :=
  ∀ (id : Uuid) (k : Int) (c : Call), c.op.Carries id k →
    (k ∈ (admissions id s.log).tail →
      (after s.db c).lifecycles.get? id = s.db.lifecycles.get? id) ∧
    ((after s.db c).lifecycles.get? id ≠ s.db.lifecycles.get? id →
      (admissions id s.log).head? = some k)

/-- A requeue finds the lifecycle it would take back at attempt zero. -/
def RequeueFresh (s : Trace) (c : Call) : Prop :=
  match c.op with
  | .requeue id _ => ∀ row ∈ s.db.lifecycles.get? id,
      requeueable row = true → 0 < dispatches s.db id → row.attempt = 0
  | _ => True

instance (s : Trace) (c : Call) : Decidable (RequeueFresh s c) := by
  unfold RequeueFresh
  split <;> infer_instance

/-! ## The invariant -/

/-- The numbers `adm` granted on a lifecycle decrease towards the past, the newest is
the attempt stored in its row, and a running row has been admitted. -/
structure Granted (adm : List Int) (row : Option Lifecycle) : Prop where
  decreasing : adm.Pairwise (· > ·)
  newest : ∀ k ∈ adm.head?, ∃ r, row = some r ∧ r.attempt = k
  running : ∀ r, row = some r → r.status = .running → adm.head? = some r.attempt

namespace Granted

variable {adm : List Int} {row row' : Lifecycle}

theorem absent : Granted [] none where
  decreasing := List.Pairwise.nil
  newest := by simp
  running := by simp

theorem eq_nil_of_absent (h : Granted adm none) : adm = [] := by
  cases adm with
  | nil => rfl
  | cons k ks =>
      obtain ⟨r, hr, -⟩ := h.newest k rfl
      cases hr

/-- A write that keeps the attempt and does not start a row keeps the order. -/
theorem write (h : Granted adm (some row)) (hatt : row'.attempt = row.attempt)
    (hrun : row'.status = .running → row.status = .running) : Granted adm (some row') where
  decreasing := h.decreasing
  newest := by
    intro k hk
    obtain ⟨r, hr, hrk⟩ := h.newest k hk
    cases hr
    exact ⟨row', rfl, hatt.trans hrk⟩
  running := by
    rintro r ⟨⟩ hr
    rw [hatt]
    exact h.running row rfl (hrun hr)

/-- Every number granted so far is at most the stored attempt. -/
theorem le_attempt (h : Granted adm (some row)) {k : Int} (hk : k ∈ adm) : k ≤ row.attempt := by
  cases adm with
  | nil => cases hk
  | cons j js =>
      obtain ⟨r, hr, hrj⟩ := h.newest j rfl
      cases hr
      rcases List.mem_cons.mp hk with rfl | hk
      · exact le_of_eq hrj.symm
      · exact hrj ▸ le_of_lt ((List.pairwise_cons.mp h.decreasing).1 k hk)

theorem admission (h : Granted adm (some row)) (now : Instant) :
    Granted ((row.attempt + 1) :: adm) (some (claimRow now row)) where
  decreasing := by
    refine List.pairwise_cons.mpr ⟨fun k hk => ?_, h.decreasing⟩
    exact Int.lt_add_one_of_le (h.le_attempt hk)
  newest := by
    rintro k ⟨⟩
    exact ⟨claimRow now row, rfl, rfl⟩
  running := by
    rintro r ⟨⟩ _
    rfl

/-- One call keeps the granted numbers in order, provided a requeue finds attempt
zero: it then leaves the stored attempt as it is. -/
theorem effect {db : QueueDb} {c : Call} {id : Uuid} {before now : Option Lifecycle}
    {grant : Option Int} (h : Granted adm before) (heff : RowEffect db c id before now grant)
    (hfresh : ∀ r job, before = some r → c.op = .requeue id job → requeueable r = true →
      0 < dispatches db id → r.attempt = 0) :
    Granted (grant.toList ++ adm) now := by
  cases heff with
  | same => exact h
  | insert e job hop =>
      -- nothing was granted on a row that did not exist
      rw [h.eq_nil_of_absent]
      exact ⟨List.Pairwise.nil, by simp, by rintro r ⟨⟩ hr; cases hr⟩
  | admission row hop hadm => exact h.admission c.time
  | fenced row row' hc hrun hatt => exact h.write hatt fun _ => hrun
  | unfenced row row' htarget hc hidle hatt => exact h.write hatt fun hr => absurd hr hidle
  | dispatched row provider hc => exact h.write rfl fun hr => hr
  -- writing zero over zero: the stored attempt is still the newest granted number
  | requeue row job hop hq hd =>
      exact h.write (hfresh row job rfl hop hq hd).symm (by simp)

end Granted

theorem admissions_observe (id : Uuid) (s : Trace) (c : Call) :
    admissions id (observe s c).log =
      (grantedTo id (c, (exec s.db c).map Prod.snd)).toList ++ admissions id s.log := by
  unfold admissions observe
  rw [List.filterMap_cons]
  cases grantedTo id (c, (exec s.db c).map Prod.snd) <;> rfl

theorem granted_observe {id : Uuid} {s : Trace} {c : Call}
    (h : Granted (admissions id s.log) (s.db.lifecycles.get? id)) (hfresh : RequeueFresh s c) :
    Granted (admissions id (observe s c).log) ((observe s c).db.lifecycles.get? id) := by
  rw [admissions_observe]
  refine h.effect (rowEffect s.db c id) fun r job hr hop hq hd => ?_
  simp only [RequeueFresh, hop] at hfresh
  exact hfresh r hr hq hd

theorem granted_run {calls : List Call}
    (hmeet : StepsMeet observe RequeueFresh (Trace.start QueueDb.empty) calls) (id : Uuid) :
    Granted (admissions id (run observe (Trace.start QueueDb.empty) calls).log)
      ((run observe (Trace.start QueueDb.empty) calls).db.lifecycles.get? id) :=
  run_invariant (fun s : Trace => Granted (admissions id s.log) (s.db.lifecycles.get? id))
    (fun _ _ => granted_observe) Granted.absent hmeet

/-! ## Fencing -/

/-- Fencing follows from the order of the granted numbers: the stored attempt is the
newest of them, and every other number is smaller. -/
theorem leaseFenced_of_granted {s : Trace}
    (h : ∀ id, Granted (admissions id s.log) (s.db.lifecycles.get? id)) : LeaseFenced s := by
  intro id k c hc
  have hg := h id
  have heff := rowEffect s.db c id
  generalize s.db.lifecycles.get? id = before at hg heff ⊢
  generalize (after s.db c).lifecycles.get? id = now at heff ⊢
  generalize admissions id s.log = adm at hg ⊢
  generalize grantedTo id (c, (exec s.db c).map Prod.snd) = grant at heff
  cases heff with
  | same => exact ⟨fun _ => rfl, fun hne => absurd rfl hne⟩
  -- the filter matched `k` on a running row, so `k` is the newest number and not in the tail
  | fenced row row' hcarries hrun hatt =>
      have hk : row.attempt = k := Op.Carries.unique hcarries hc
      have hhead : adm.head? = some k := hk ▸ hg.running row rfl hrun
      refine ⟨fun htail => ?_, fun _ => hhead⟩
      cases adm with
      | nil => cases hhead
      | cons j js =>
          cases hhead
          exact absurd ((List.pairwise_cons.mp hg.decreasing).1 k htail) (lt_irrefl k)
  | unfenced row row' htarget hcarries => exact absurd hc (hcarries k)
  | dispatched row provider hcarries => exact absurd hc (hcarries k)
  -- the calls left carry no attempt number at all
  | insert e job hop => rw [hop] at hc; exact hc.elim
  | admission row hop => rw [hop] at hc; exact hc.elim
  | requeue row job hop => rw [hop] at hc; exact hc.elim

/-- **Lease fencing.** From an empty queue, in every run whose requeues find attempt
zero, superseded attempt numbers are powerless in every state reached. -/
theorem leaseFenced_of_requeueFresh (calls : List Call)
    (hmeet : StepsMeet observe RequeueFresh (Trace.start QueueDb.empty) calls) :
    LeaseFenced (run observe (Trace.start QueueDb.empty) calls) :=
  leaseFenced_of_granted (granted_run hmeet)

/-! ## A requeue that hands a number out twice -/

/-- A job of a queue with one slot, named by its lifecycle. -/
def oneSlot (id : Uuid) : Enqueue where
  id := id
  jobName := "reindex"
  workerClass := .shared
  workspaceId := none
  plan := none
  concurrencyKey := some "shared"
  concurrencyLimit := some 1

/-- What `oneSlot` publishes. -/
def oneSlotJob : Job where
  payload := .object []
  workerName := "ReindexWorker"
  queueName := none
  tags := none

/-- Two jobs share one slot. The first worker's lease lapses, the second job takes the
slot, and a redelivery of the first is deferred as saturated and requeued; when the
slot is free again, the first job is admitted under the number its first worker
still carries. -/
def repeatedAdmission : List Call :=
  [ ⟨0, .record (oneSlot 0) oneSlotJob⟩,
    ⟨0, .record (oneSlot 1) oneSlotJob⟩,
    ⟨0, .start 0⟩,
    ⟨301000000, .start 1⟩,
    ⟨301000000, .start 0⟩,
    ⟨301000000, .deferAt 0 1 "worker capacity saturated"⟩,
    ⟨301000000, .requeue 0 oneSlotJob⟩,
    ⟨302000000, .finish 1 1 .completed none⟩,
    ⟨302000000, .start 0⟩ ]

/-- After the requeue the superseded first worker renews the lease of the new holder. -/
theorem not_leaseFenced_after_requeue :
    Nondecreasing repeatedAdmission ∧
      ¬ LeaseFenced (run observe (Trace.start QueueDb.empty) repeatedAdmission) := by
  refine ⟨by decide, fun h => ?_⟩
  -- attempt 1 was granted twice, so it is both the newest number and a superseded one
  have hstale := (h 0 1 ⟨303000000, .renew 0 1⟩ ⟨rfl, rfl⟩).1 (by decide)
  revert hstale
  decide

/-- Control: a job that is requeued before its first admission keeps its fencing. -/
theorem leaseFenced_of_requeueFresh_control :
    LeaseFenced (run observe (Trace.start QueueDb.empty)
      [ ⟨0, .record (oneSlot 0) oneSlotJob⟩,
        ⟨1, .defer 0 none "worker capacity saturated"⟩,
        ⟨2, .requeue 0 oneSlotJob⟩,
        ⟨3, .start 0⟩,
        ⟨300000003, .start 0⟩ ]) :=
  leaseFenced_of_requeueFresh _ (by decide)

end Yorishiro.Queue
