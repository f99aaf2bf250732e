import Yorishiro.Inference.InferFill

/-!
# Agreement of the lifecycle and the inference job

An infer-fill job has two rows with an attempt counter each. A delivery is
admitted under the successor of the lifecycle's attempt and then claims the job
row under that number, which works when the job row is exactly one attempt
behind. `RetryClaims` says that it always works: an admitted delivery of a job
that waits in the queue claims the job, unless the workspace is busy.

`deferAndEnqueue` sets the lifecycle's counter to zero and leaves the job's as it
is, so the two rows part as soon as a job that has been claimed is deferred.
`retryClaims_of_attemptsInStep` proves `RetryClaims` for every run that defers
only unclaimed (or ended) jobs and in which no delivery claims a job whose
lifecycle waits in the queue; `not_retryClaims_after_retry` is the first failed
attempt of a job followed by its retry.
-/

set_option autoImplicit false

namespace Yorishiro.Inference

open Yorishiro.Lib Yorishiro.Lib.Transition Yorishiro.Queue

/-! ## What a delivery can do to its two rows -/

/-- The attempt a phase is about to hand back to the queue, when it is about to. -/
def Phase.defers : Phase → Option (Option Int)
  | .saturated k => some k
  | .busy k | .retrying k _ => some (some k)
  | _ => none

/-- The attempt a phase is about to claim the job under, when it is about to. -/
def Phase.claims : Phase → Option Int
  | .duplicate k | .admitted k => some k
  | _ => none

/-- What one transaction of a delivery in `phase` can do to the lifecycle row and the
job row of its arguments; `dispatched` is the number of outbox rows of the lifecycle. -/
inductive PairEffect (phase : Phase) (dispatched : Nat) :
    Lifecycle → InferenceJob → Lifecycle → InferenceJob → Prop where
  | same (l : Lifecycle) (j : InferenceJob) : PairEffect phase dispatched l j l j
  | start (l : Lifecycle) (j : InferenceJob) (now : Instant) :
      PairEffect phase dispatched l j (claimRow now l) j
  | claim (l : Lifecycle) (j j' : InferenceJob) (k : Int) (claims : phase.claims = some k)
      (reconcilable : Reconcilable k j) : PairEffect phase dispatched l j l j'
  | close (l : Lifecycle) (j j' : InferenceJob)
      (ended : j'.status = .completed ∨ j'.status = .failed) : PairEffect phase dispatched l j l j'
  | finish (l l' : Lifecycle) (j : InferenceJob) (waiting : requeueable l' = false) :
      PairEffect phase dispatched l j l' j
  | requeue (l l' : Lifecycle) (j j' : InferenceJob) (k : Option Int)
      (defers : phase.defers = some k) (deferrable : deferFilter k l = true)
      (published : 0 < dispatched) (zero : l'.attempt = 0) (attempt : j'.attempt = j.attempt)
      (ended : j.status = .completed ∨ j.status = .failed → j'.status = j.status) :
      PairEffect phase dispatched l j l' j'

/-- One transaction of a delivery writes no other row of the two tables. -/
structure Writes (args : InferFillArgs) (phase : Phase) (db db' : InferDb) : Prop where
  lifecycles : ∀ l, l ≠ args.lifecycleId →
    db'.queue.lifecycles.get? l = db.queue.lifecycles.get? l
  jobs : ∀ j, j ≠ args.jobId → db'.jobs.get? j = db.jobs.get? j
  pair : ∀ l j, db.queue.lifecycles.get? args.lifecycleId = some l →
    db.jobs.get? args.jobId = some j →
    ∃ l' j', db'.queue.lifecycles.get? args.lifecycleId = some l' ∧
      db'.jobs.get? args.jobId = some j' ∧
      PairEffect phase (dispatches db.queue args.lifecycleId) l j l' j'

namespace Writes

variable {args : InferFillArgs} {phase : Phase} {db : InferDb}

theorem refl : Writes args phase db db where
  lifecycles := fun _ _ => rfl
  jobs := fun _ _ => rfl
  pair := fun l j hl hj => ⟨l, j, hl, hj, .same l j⟩

/-- A transaction that replaces the lifecycle row only. -/
theorem of_lifecycle {t : Lifecycles} {l l' : Lifecycle}
    (hl : db.queue.lifecycles.get? args.lifecycleId = some l)
    (hrep : Table.Replaces db.queue.lifecycles t args.lifecycleId l')
    (heff : ∀ j, PairEffect phase (dispatches db.queue args.lifecycleId) l j l' j) :
    Writes args phase db { db with queue := { db.queue with lifecycles := t } } where
  lifecycles := fun _ hne => hrep.get?_ne hne
  jobs := fun _ _ => rfl
  pair := by
    intro l₁ j hl₁ hj
    obtain rfl : l = l₁ := Option.some.inj (hl.symm.trans hl₁)
    exact ⟨l', j, hrep.get?_self, hj, heff j⟩

/-- A transaction that replaces the job row only. -/
theorem of_job {jobs : InferenceJobs} {j j' : InferenceJob}
    (hj : db.jobs.get? args.jobId = some j) (hrep : Table.Replaces db.jobs jobs args.jobId j')
    (heff : ∀ l, PairEffect phase (dispatches db.queue args.lifecycleId) l j l j') :
    Writes args phase db { db with jobs := jobs } where
  lifecycles := fun _ _ => rfl
  jobs := fun _ hne => hrep.get?_ne hne
  pair := by
    intro l j₁ hl hj₁
    obtain rfl : j = j₁ := Option.some.inj (hj.symm.trans hj₁)
    exact ⟨l, j', hl, hrep.get?_self, heff l⟩

theorem of_reconcile {jobs : InferenceJobs} {k : Int} (hphase : phase.claims = some k)
    (h : reconcileAttempt db.jobs args.jobId k = .ok (jobs, true)) :
    Writes args phase db { db with jobs := jobs } := by
  rcases reconcileAttempt_eq_ok h with ⟨-, j, j', hj, hrec, -, -, hrep⟩ | ⟨hb, -⟩
  · exact of_job hj hrep fun l => .claim l j j' k hphase hrec
  · cases hb

theorem finishThenDone {k : Int} {status : LifecycleStatus} {i : Input}
    (hstatus : status = .completed ∨ status = .failed) :
    Writes args phase db (Inference.finishThenDone db args k status i).1 := by
  unfold Inference.finishThenDone
  cases hf : Queue.finish db.queue.lifecycles args.lifecycleId (some k) status none i.now with
  | error e => exact refl
  | ok t =>
      obtain ⟨l, hl, -, hrep⟩ := finish_eq_ok hf
      refine of_lifecycle hl hrep fun j => .finish l _ j ?_
      rcases hstatus with rfl | rfl <;> simp [requeueable]

/-- The job rows `retryJobs` leaves: at most the row of the arguments is rewritten, from
running to queued. -/
theorem retryJobs_eq_ok {attempt : Option Int} {error : String} {flag : Bool}
    {jobs : InferenceJobs} (h : retryJobs db args attempt error flag = .ok jobs) :
    (∀ id, id ≠ args.jobId → jobs.get? id = db.jobs.get? id) ∧
    ∀ j, db.jobs.get? args.jobId = some j → ∃ j', jobs.get? args.jobId = some j' ∧
      j'.attempt = j.attempt ∧
      (j.status = .completed ∨ j.status = .failed → j'.status = j.status) := by
  have keep : jobs = db.jobs → (∀ id, id ≠ args.jobId → jobs.get? id = db.jobs.get? id) ∧
      ∀ j, db.jobs.get? args.jobId = some j → ∃ j', jobs.get? args.jobId = some j' ∧
        j'.attempt = j.attempt ∧
        (j.status = .completed ∨ j.status = .failed → j'.status = j.status) := by
    rintro rfl
    exact ⟨fun _ _ => rfl, fun j hj => ⟨j, hj, rfl, fun _ => rfl⟩⟩
  unfold retryJobs at h
  split at h
  · obtain ⟨⟨jobs₁, b⟩, hr, hjobs⟩ := Except.map_eq_ok h
    cases hjobs
    rcases changedOne_eq_ok hr with ⟨-, row, hrow, hp, hrep⟩ | ⟨-, hsame⟩
    · refine ⟨fun _ hne => hrep.get?_ne hne, fun j hj => ?_⟩
      obtain rfl : row = j := Option.some.inj (hrow.symm.trans hj)
      refine ⟨_, hrep.get?_self, rfl, fun hended => ?_⟩
      -- the filter of `retry` only matches a running job
      have hrun : row.status = .running := by
        simp only [ownedBy, Bool.and_eq_true, decide_eq_true_eq] at hp
        exact hp.1
      rw [hrun] at hended
      rcases hended with hended | hended <;> cases hended
    · exact keep hsame
  · cases h
    exact keep rfl

theorem deferThenDone {k : Option Int} {error : String} {flag : Bool} {i : Input}
    (hphase : phase.defers = some k) :
    Writes args phase db (Inference.deferThenDone db args k error flag i).1 := by
  unfold Inference.deferThenDone
  cases hd : deferAndEnqueue db args k error flag i.tag i.now with
  | error e => exact refl
  | ok db' =>
      -- the transaction's three statements in order: the job, the deferral, the requeue
      obtain ⟨jobs, hjobs, hd⟩ := Except.bind_eq_ok.mp hd
      obtain ⟨lifecycles, hdefer, hd⟩ := Except.bind_eq_ok.mp hd
      obtain ⟨queue, hqueue, hd⟩ := Except.bind_eq_ok.mp hd
      cases hd
      obtain ⟨hother, hown⟩ := retryJobs_eq_ok hjobs
      obtain ⟨l, hl, hfilter, hdeferred⟩ := defer_eq_ok hdefer
      obtain ⟨l₁, hl₁, -, hpub, hrequeued, -⟩ := recordLifecyclePayload_eq_ok hqueue
      refine ⟨fun m hne => ?_, hother, fun l₂ j hl₂ hj => ?_⟩
      · exact (hrequeued.get?_ne hne).trans (hdeferred.get?_ne hne)
      · obtain rfl : l = l₂ := Option.some.inj (hl.symm.trans hl₂)
        obtain ⟨j', hj', hatt, hended⟩ := hown j hj
        exact ⟨_, j', hrequeued.get?_self, hj',
          .requeue l _ j j' k hphase hfilter hpub rfl hatt hended⟩

/-- **What a delivery can do.** Each transaction of `perform_job` has one of the effects of
`PairEffect` on the two rows of its arguments and writes no other. -/
theorem transact (args : InferFillArgs) (phase : Phase) (db : InferDb) (i : Input) :
    Writes args phase db (Inference.transact db args phase i).1 := by
  cases phase with
  | received =>
      simp only [Inference.transact]
      -- only the two admitting outcomes write, and both write the claimed row
      split
      all_goals first
        | exact refl
        | rename_i k t hstart
          rcases startAt_eq_ok hstart with ⟨l, hl, -, -, -, hrep⟩ | ⟨hnone, -⟩
          · exact of_lifecycle hl hrep fun j => .start l j i.now
          · cases hnone
  | duplicate k =>
      simp only [Inference.transact]
      split
      · rename_i jobs hr
        exact of_reconcile rfl hr
      · exact refl
  | saturated k => exact deferThenDone rfl
  | admitted k =>
      simp only [Inference.transact]
      split
      · rename_i jobs hr
        exact of_reconcile rfl hr
      · exact refl
      · split <;> exact refl
  | busy k => exact deferThenDone rfl
  | claimed k => exact refl
  | working k =>
      simp only [Inference.transact]
      split <;> exact refl
  | succeeded k proposed skipped =>
      simp only [Inference.transact]
      split
      · rename_i jobs hr
        rcases changedOne_eq_ok hr with ⟨-, j, hj, -, hrep⟩ | ⟨hb, -⟩
        · exact of_job hj hrep fun l => .close l j _ (Or.inl rfl)
        · cases hb
      · exact refl
  | completed k => exact finishThenDone (Or.inl rfl)
  | rejected k message =>
      simp only [Inference.transact]
      split
      · rename_i jobs b hr
        rcases changedOne_eq_ok hr with ⟨-, j, hj, -, hrep⟩ | ⟨-, hsame⟩
        · exact of_job hj hrep fun l => .close l j _ (Or.inr rfl)
        · rw [hsame]
          exact refl
      · exact refl
  | failed k => exact finishThenDone (Or.inr rfl)
  | retrying k message => exact deferThenDone rfl
  | done => exact refl

end Writes

/-! ## The property and the condition -/

/-- A delivery of a waiting job that is admitted goes on to claim the job under the
attempt it was admitted with; only a running job of the workspace stands in its way. -/
def RetryClaims (s : State) : Prop :=
  ∀ (p : Nat) (args : InferFillArgs) (l : Lifecycle) (j : InferenceJob) (i i' : Input) (k : Int),
    s.deliveries.get? p = some ⟨args, .received⟩ →
    s.db.queue.lifecycles.get? args.lifecycleId = some l → requeueable l = true →
    s.db.jobs.get? args.jobId = some j → j.status ≠ .completed → j.status ≠ .failed →
    (step s (.advance p i)).deliveries.get? p = some ⟨args, .admitted k⟩ →
    let s₂ := step (step s (.advance p i)) (.advance p i')
    (s₂.deliveries.get? p = some ⟨args, .claimed k⟩ ∧
      ∃ j', s₂.db.jobs.get? args.jobId = some j' ∧ j'.status = .running ∧ j'.attempt = k) ∨
    (s₂.deliveries.get? p = some ⟨args, .busy k⟩ ∧
      ∃ other r, other ≠ args.jobId ∧ s.db.jobs.get? other = some r ∧
        r.workspaceId = j.workspaceId ∧ r.status = .running)

/-- A delivery that is about to claim its job finds the lifecycle out of the queue, and one
that is about to hand the lifecycle back finds the job never claimed, or ended. -/
def AttemptsInStep (s : State) : Label → Prop
  | .advance p _ => ∀ d ∈ s.deliveries.get? p,
      ∀ l ∈ s.db.queue.lifecycles.get? d.args.lifecycleId, ∀ j ∈ s.db.jobs.get? d.args.jobId,
        (∀ k ∈ d.phase.claims, Reconcilable k j → requeueable l = false) ∧
        (∀ k ∈ d.phase.defers, deferFilter k l = true →
          0 < dispatches s.db.queue d.args.lifecycleId →
          j.attempt = 0 ∨ j.status = .completed ∨ j.status = .failed)
  | _ => True

instance (s : State) (label : Label) : Decidable (AttemptsInStep s label) := by
  cases label <;> unfold AttemptsInStep <;> infer_instance

/-! ## The invariant -/

/-- While the lifecycle waits and the job has not ended, the two attempts are equal. -/
def InStep (l : Lifecycle) (j : InferenceJob) : Prop :=
  requeueable l = true → j.status ≠ .completed → j.status ≠ .failed → j.attempt = l.attempt

theorem InStep.effect {phase : Phase} {n : Nat} {l l' : Lifecycle} {j j' : InferenceJob}
    (h : InStep l j) (heff : PairEffect phase n l j l' j')
    (hclaim : ∀ k, phase.claims = some k → Reconcilable k j → requeueable l = false)
    (hdefer : ∀ k, phase.defers = some k → deferFilter k l = true → 0 < n →
      j.attempt = 0 ∨ j.status = .completed ∨ j.status = .failed) : InStep l' j' := by
  cases heff with
  | same => exact h
  -- a started lifecycle no longer waits
  | start _ now =>
      intro hwait
      simp [requeueable, claimRow] at hwait
  | claim _ _ k hclaims hrec =>
      intro hwait
      rw [hclaim k hclaims hrec] at hwait
      cases hwait
  -- an ended job is outside the invariant, whatever the lifecycle does
  | close _ _ hended =>
      intro _ hcompleted hfailed
      rcases hended with hended | hended
      · exact absurd hended hcompleted
      · exact absurd hended hfailed
  | finish _ _ hidle =>
      intro hwait
      rw [hidle] at hwait
      cases hwait
  | requeue _ _ _ k hdefers hfilter hpub hzero hatt hended =>
      intro _ hcompleted hfailed
      rw [hatt, hzero]
      -- an ended job stays ended, so the job was not ended before and was never claimed
      rcases hdefer k hdefers hfilter hpub with h₀ | hc | hf
      · exact h₀
      · exact absurd ((hended (Or.inl hc)).trans hc) hcompleted
      · exact absurd ((hended (Or.inr hf)).trans hf) hfailed

/-- Every issued job has its two rows, in step, and shares neither with another; every
delivery is of an issued job. -/
structure Agree (s : State) : Prop where
  rows : ∀ id args, s.issued.get? id = some args → args.lifecycleId = id ∧
    ∃ l j, s.db.queue.lifecycles.get? id = some l ∧ s.db.jobs.get? args.jobId = some j ∧ InStep l j
  distinct : ∀ id id' args args', s.issued.get? id = some args → s.issued.get? id' = some args' →
    args.jobId = args'.jobId → id = id'
  deliveries : ∀ p d, s.deliveries.get? p = some d → s.issued.get? d.args.lifecycleId = some d.args

namespace Agree

theorem empty : Agree State.empty where
  rows := fun id args h => by simp [State.empty] at h
  distinct := fun id id' args args' h => by simp [State.empty] at h
  deliveries := fun p d h => by simp [State.empty] at h

/-- A change that keeps the status and attempt of every issued lifecycle, and the job rows. -/
theorem of_same_rows {s : State} {queue : QueueDb} (h : Agree s)
    (hsame : ∀ id args l, s.issued.get? id = some args →
      s.db.queue.lifecycles.get? id = some l → ∃ l', queue.lifecycles.get? id = some l' ∧
        l'.status = l.status ∧ l'.attempt = l.attempt) :
    Agree { s with db := { s.db with queue := queue } } where
  rows := by
    intro id args hid
    obtain ⟨hlid, l, j, hl, hj, hstep⟩ := h.rows id args hid
    obtain ⟨l', hl', hst, hatt⟩ := hsame id args l hid hl
    refine ⟨hlid, l', j, hl', hj, ?_⟩
    intro hwait hcompleted hfailed
    rw [hatt]
    apply hstep _ hcompleted hfailed
    simpa [requeueable, hst] using hwait
  distinct := h.distinct
  deliveries := h.deliveries

theorem enqueue {s : State} {args : InferFillArgs} {policy : Policy} {tag : String}
    {now : Instant} (h : Agree s) : Agree (step s (.enqueue args policy tag now)) := by
  simp only [step]
  cases he : enqueueInferFill s.db args policy tag now with
  | error e => exact h
  | ok db =>
      obtain ⟨jobs, hjobs, he⟩ := Except.bind_eq_ok.mp he
      obtain ⟨queue, hqueue, he⟩ := Except.bind_eq_ok.mp he
      cases he
      obtain ⟨hfreshL, -, hrep, -⟩ := recordInTransaction_eq_ok hqueue
      have hfreshJ : s.db.jobs.get? args.jobId = none := (Table.insert_eq_ok hjobs).1
      -- the rows of jobs issued before are other rows than the new ones
      have hneL : ∀ id args', s.issued.get? id = some args' → id ≠ args.lifecycleId := by
        rintro id args' hid rfl
        obtain ⟨-, l, j, hl, -⟩ := h.rows _ args' hid
        rw [hfreshL] at hl
        cases hl
      have hneJ : ∀ id args', s.issued.get? id = some args' → args'.jobId ≠ args.jobId := by
        intro id args' hid heq
        obtain ⟨-, l, j, -, hj, -⟩ := h.rows id args' hid
        rw [heq, hfreshJ] at hj
        cases hj
      refine ⟨?_, ?_, ?_⟩
      · intro id args' hid
        rcases OrderedMap.get?_insert_eq_some hid with ⟨rfl, rfl⟩ | ⟨heq, hid⟩
        -- the new rows start in step, both at attempt zero
        · refine ⟨rfl, _, _, hrep.get?_self,
            (Table.get?_insert hjobs args'.jobId).trans (if_pos rfl), ?_⟩
          intro _ _ _
          rfl
        · obtain ⟨hlid, l, j, hl, hj, hstep⟩ := h.rows id args' hid
          refine ⟨hlid, l, j, (hrep.get?_ne heq).trans hl, ?_, hstep⟩
          exact ((Table.get?_insert hjobs args'.jobId).trans (if_neg (hneJ id args' hid))).trans hj
      · intro id id' args₁ args₂ h₁ h₂ heq
        rcases OrderedMap.get?_insert_eq_some h₁ with ⟨he₁, hargs₁⟩ | ⟨-, h₁⟩
        · rcases OrderedMap.get?_insert_eq_some h₂ with ⟨he₂, -⟩ | ⟨-, h₂⟩
          · rw [he₁, he₂]
          · rw [hargs₁] at heq
            exact absurd heq.symm (hneJ id' args₂ h₂)
        · rcases OrderedMap.get?_insert_eq_some h₂ with ⟨-, hargs₂⟩ | ⟨-, h₂⟩
          · rw [hargs₂] at heq
            exact absurd heq (hneJ id args₁ h₁)
          · exact h.distinct id id' args₁ args₂ h₁ h₂ heq
      · intro p d hd
        have hissued := h.deliveries p d hd
        simp only [OrderedMap.get?_insert]
        rw [if_neg (hneL _ _ hissued)]
        exact hissued

theorem advance {s : State} {p : Nat} {i : Input} (h : Agree s)
    (hcond : AttemptsInStep s (.advance p i)) : Agree (step s (.advance p i)) := by
  simp only [step]
  cases hd : s.deliveries.get? p with
  | none => exact h
  | some d =>
      have hissued := h.deliveries p d hd
      have hw := Writes.transact d.args d.phase s.db i
      refine ⟨?_, h.distinct, ?_⟩
      · intro id args hid
        obtain ⟨hlid, l, j, hl, hj, hstep⟩ := h.rows id args hid
        by_cases heq : id = d.args.lifecycleId
        · subst heq
          obtain rfl : args = d.args := Option.some.inj (hid.symm.trans hissued)
          -- the delivery's own rows, where the step's condition applies
          obtain ⟨l', j', hl', hj', heff⟩ := hw.pair l j hl hj
          obtain ⟨hclaim, hdefer⟩ := hcond d hd l hl j hj
          exact ⟨rfl, l', j', hl', hj', hstep.effect heff hclaim hdefer⟩
        -- another issued job shares neither row with this delivery
        · have hjob : args.jobId ≠ d.args.jobId := fun hjob =>
            heq (h.distinct id _ args d.args hid hissued hjob)
          exact ⟨hlid, l, j, (hw.lifecycles id heq).trans hl, (hw.jobs _ hjob).trans hj, hstep⟩
      · intro q e he
        rcases OrderedMap.get?_insert_eq_some he with ⟨-, rfl⟩ | ⟨-, he⟩
        · exact hissued
        · exact h.deliveries q e he

theorem heartbeat {s : State} {p : Nat} {now : Instant} (h : Agree s) :
    Agree (step s (.heartbeat p now)) := by
  simp only [step]
  split
  · rename_i args k hd
    split
    · rename_i t b hrenew
      -- a renewal moves the end of the lease and nothing else
      refine h.of_same_rows fun id args' l _ hl => ?_
      rcases renewAt_eq_ok hrenew with ⟨-, row, hrow, -, -, hrep⟩ | ⟨-, rfl⟩
      · by_cases heq : id = args.lifecycleId
        · subst heq
          obtain rfl : row = l := Option.some.inj (hrow.symm.trans hl)
          exact ⟨_, hrep.get?_self, rfl, rfl⟩
        · exact ⟨l, (hrep.get?_ne heq).trans hl, rfl, rfl⟩
      · exact ⟨l, hl, rfl, rfl⟩
    · exact h
  · exact h

theorem queue {s : State} {c : Call} (h : Agree s) : Agree (step s (.queue c)) := by
  simp only [step]
  split_ifs with hforeign
  · refine h.of_same_rows fun id args l hid hl => after_keeps_of_lifecycle_ne hl ?_
    intro htarget
    -- a foreign call is directed at no lifecycle of an issued job
    simp [foreign, htarget, hid] at hforeign
  · exact h

theorem deliver {s : State} {p : Nat} {id : Uuid} (h : Agree s) :
    Agree (step s (.deliver p id)) := by
  simp only [step]
  split
  · rename_i args hp hid
    refine ⟨h.rows, h.distinct, ?_⟩
    intro q d hd
    rcases OrderedMap.get?_insert_eq_some hd with ⟨-, rfl⟩ | ⟨-, hd⟩
    · have hlid : args.lifecycleId = id := (h.rows id args hid).1
      rw [← hlid] at hid
      exact hid
    · exact h.deliveries q d hd
  · exact h

theorem crash {s : State} {p : Nat} (h : Agree s) : Agree (step s (.crash p)) := by
  refine ⟨h.rows, h.distinct, ?_⟩
  intro q d hd
  exact h.deliveries q d (OrderedMap.get?_erase_eq_some hd).2

theorem step {s : State} {label : Label} (h : Agree s) (hcond : AttemptsInStep s label) :
    Agree (Inference.step s label) := by
  cases label with
  | enqueue args policy tag now => exact h.enqueue
  | deliver p id => exact h.deliver
  | advance p i => exact h.advance hcond
  | heartbeat p now => exact h.heartbeat
  | crash p => exact h.crash
  | queue c => exact h.queue

end Agree

/-! ## Retries claim their job -/

/-- The admission of a delivery leaves the job rows alone. -/
theorem jobs_transact_received (db : InferDb) (args : InferFillArgs) (i : Input) :
    (transact db args .received i).1.jobs = db.jobs := by
  simp only [transact]
  split <;> rfl

/-- A delivery is admitted under the successor of the lifecycle's attempt. -/
theorem attempt_of_admitted {db : InferDb} {args : InferFillArgs} {i : Input} {k : Int}
    {l : Lifecycle} (hl : db.queue.lifecycles.get? args.lifecycleId = some l)
    (h : (transact db args .received i).2 = .admitted k) : k = l.attempt + 1 := by
  simp only [transact] at h
  split at h
  -- the outcomes that grant no number end the delivery, or lead to another phase
  all_goals first
    | (cases h; done)
    | rename_i k' t hstart
      cases h
      rcases startAt_eq_ok hstart with ⟨row, hrow, hgrant, -⟩ | ⟨hnone, -⟩
      · obtain rfl : l = row := Option.some.inj (hl.symm.trans hrow)
        exact Option.some.inj hgrant
      · cases hnone

/-- Rows in step are what a claim needs: the admission grants the successor of the
attempt the two rows share. -/
theorem retryClaims_of_agree {s : State} (h : Agree s) : RetryClaims s := by
  intro p args l j i i' k hd hl hwait hj hcompleted hfailed hadmitted
  have hinstep : InStep l j := by
    obtain ⟨-, l₁, j₁, hl₁, hj₁, hstep⟩ := h.rows _ args (h.deliveries p _ hd)
    obtain rfl : l = l₁ := Option.some.inj (hl.symm.trans hl₁)
    obtain rfl : j = j₁ := Option.some.inj (hj.symm.trans hj₁)
    exact hstep
  have hatt : j.attempt = l.attempt := hinstep hwait hcompleted hfailed
  -- the first transaction is the admission; it does not touch the job rows
  rw [step_advance hd] at hadmitted ⊢
  simp only [OrderedMap.get?_insert, if_pos, Option.some.injEq, Delivery.mk.injEq, true_and]
    at hadmitted
  have hjobs := jobs_transact_received s.db args i
  have hk : k = j.attempt + 1 := by
    rw [hatt]
    exact attempt_of_admitted hl hadmitted
  subst hk
  rw [hadmitted]
  generalize (transact s.db args .received i).1 = db₁ at hjobs ⊢
  -- the second transaction claims the job, which is exactly one attempt behind
  rw [step_advance (d := ⟨args, .admitted (j.attempt + 1)⟩) (by simp)]
  rcases reconcileAttempt_of_behind hj hcompleted with
    ⟨jobs', j', hok, hj', hrun, hj'att⟩ | ⟨hbusy, hother⟩
  · rw [← hjobs] at hok
    refine Or.inl ⟨?_, j', ?_, hrun, hj'att⟩
    · simp [transact, hok]
    · simpa [transact, hok] using hj'
  · rw [← hjobs] at hbusy
    refine Or.inr ⟨?_, hother⟩
    simp [transact, hbusy]

/-- **Retries claim their job.** In every run that starts with nothing issued and whose
steps keep the two attempts in step, an admitted delivery of a waiting job claims it. -/
theorem retryClaims_of_attemptsInStep (labels : List Label)
    (hmeet : StepsMeet step AttemptsInStep State.empty labels) :
    RetryClaims (run step State.empty labels) :=
  retryClaims_of_agree (run_invariant Agree (fun _ _ => Agree.step) Agree.empty hmeet)

/-! ## A retry that nobody runs -/

/-- An infer-fill job of one workspace. -/
def oneJob : InferFillArgs where
  actor := .null
  lifecycleId := 1
  jobId := 2
  workspaceId := 3
  schemaName := "notes"

/-- A transaction at time `now` of a delivery whose work fails. -/
def failing (now : Instant) : Input := ⟨now, "job-target:shared", .error "timeout"⟩

/-- The job is issued, its first attempt fails, and the worker hands it back for a retry;
then the retry is delivered. -/
def failedOnce : List Label :=
  [ .enqueue oneJob ⟨none, none, none⟩ "job-target:shared" 0,
    .deliver 0 1,
    .advance 0 (failing 1),
    .advance 0 (failing 2),
    .advance 0 (failing 3),
    .advance 0 (failing 4),
    .advance 0 (failing 5),
    .deliver 1 1 ]

/-- After one failed attempt the retry is admitted under attempt 1 again, while the job
row already stands at attempt 1: the delivery ends without claiming the job. -/
theorem not_retryClaims_after_retry : ¬ RetryClaims (run step State.empty failedOnce) := by
  intro h
  have hclaim := h 1 oneJob
    { providerJobId := none
      jobName := "infer_fill"
      workerClass := .shared
      workspaceId := some 3
      plan := none
      status := .queued
      enqueueAt := 0
      claimAt := some 1
      admittedAt := some 1
      leaseUntil := none
      startAt := some 1
      retryAt := some 5
      completedAt := none
      failedAt := none
      cancelledAt := none
      attempt := 0
      concurrencyKey := none
      concurrencyLimit := none
      error := some "timeout" }
    ⟨3, "notes", .queued, 0, 0, 0, some "timeout", 1⟩ (failing 6) (failing 7) 1
    (by decide) (by decide) (by decide) (by decide)
    (by decide) (by decide) (by decide)
  rcases hclaim with ⟨hphase, -⟩ | ⟨hphase, -⟩
  · revert hphase
    decide
  · revert hphase
    decide

/-- A job of another workspace that shares the queue's one slot. -/
def otherJob : InferFillArgs :=
  { oneJob with lifecycleId := 4, jobId := 5, workspaceId := 6 }

/-- Control: while another job holds the only slot, a delivery hands the job back
unclaimed; the delivery that follows claims it. -/
theorem retryClaims_of_attemptsInStep_control :
    RetryClaims (run step State.empty
      [ .enqueue oneJob ⟨none, some "shared", some 1⟩ "job-target:shared" 0,
        .enqueue otherJob ⟨none, some "shared", some 1⟩ "job-target:shared" 0,
        .deliver 0 4,
        .advance 0 (failing 1),
        .deliver 1 1,
        .advance 1 (failing 2),
        .advance 1 (failing 3),
        .crash 0,
        .deliver 2 1 ]) :=
  retryClaims_of_attemptsInStep _ (by decide)

end Yorishiro.Inference
