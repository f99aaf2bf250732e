import Yorishiro.Entity.Review

/-!
# Outcomes of jobs

What the jobs of a workspace do to its entities, in every reachable state. A confirmation accounts
for every proposal (`confirm_accounts`); what it marks as confirmed is what it stored if and only
if the proposals of an entity come from one version (`confirmed_stored_iff`). An undo restores what
a job changed (`undo_restores`); it leaves what the job did not change if and only if that has not
been edited where the fill found nothing to fill (`undo_leaves_iff`).
-/

set_option autoImplicit false

namespace Yorishiro.Entity

open Yorishiro.Lib Yorishiro.Lib.JsonSchema Yorishiro.Metaschema Yorishiro.Schema
open Yorishiro.Lib.Transition Yorishiro.Inference

/-! ## Confirmation -/

/-- The job has a snapshot of the entity. -/
def HasSnapshot (tables : Tables) (jobId k : Uuid) : Prop :=
  ∃ snap ∈ tables.snapshots, snap.jobId = jobId ∧ snap.entityId = k

section Confirm

variable {cx : Context} {backend : Backend} {s : ReviewState} {jobId : Uuid}
  {updatedBy : Option Uuid} {stamps : Nat → Stamp} {report : ConfirmReport} {store : EntityStore}
  {outcome : Uuid → Option ProposalStatus}

theorem apply_confirm (cx : Context) (backend : Backend) (s : ReviewState) (jobId : Uuid)
    (updatedBy : Option Uuid) (stamps : Nat → Stamp) :
    (ReviewOp.confirm jobId updatedBy stamps).apply cx backend s =
      ((confirm cx jobId updatedBy).alone stamps 0 s.store).map fun r =>
        { s with workspace := { s.workspace with store := r.2 } } := by
  simp only [ReviewOp.apply, Op.apply, code, Prog.alone_bind_pure]
  cases (confirm cx jobId updatedBy).alone stamps 0 s.store with
  | error err => rfl
  | ok r => rfl

/-- A job with something pending has no snapshot yet. -/
theorem ReviewInv.no_snapshots (h : ReviewInv s)
    (hjob : ∃ job, s.tables.jobs.get? jobId = some job ∧ job.status = .completed) {k : Uuid}
    (hpending : pendingFor s.tables jobId k ≠ []) : snapshotsOf s.tables jobId = [] := by
  obtain ⟨p, hp⟩ := List.exists_mem_of_ne_nil _ hpending
  obtain ⟨⟨id, hget⟩, hisPending, -⟩ := mem_pendingFor.mp hp
  simp only [ProposalRecord.isPending, Bool.and_eq_true, decide_eq_true_eq] at hisPending
  refine List.filter_eq_nil_iff.mpr fun snap hsnap heq => ?_
  have hsnapJob : snap.jobId = jobId := of_decide_eq_true heq
  rcases h.snapshots snap hsnap with hfilled | ⟨-, hsettled⟩
  · obtain ⟨job, hjob, -⟩ := hjob
    have hnone := h.apart snap.jobId hfilled
    rw [hsnapJob, hjob] at hnone
    cases hnone
  · exact hsettled id p hget (hisPending.1.trans hsnapJob.symm) hisPending.2

theorem hasSnapshot_iff (haccounts : Accounts cx jobId s.store store report outcome)
    (hfresh : snapshotsOf s.tables jobId = []) (k : Uuid) :
    HasSnapshot store.tables jobId k ↔ outcome k = some .confirmed := by
  obtain ⟨ks, hsnapshotted, hmem⟩ := haccounts.snapshotted
  have hids := hsnapshotted.entityIds hfresh
  rw [← hmem, ← hids, List.mem_map]
  constructor
  · rintro ⟨snap, hsnap, hsnapJob, rfl⟩
    exact ⟨snap, List.mem_filter.mpr ⟨hsnap, decide_eq_true hsnapJob⟩, rfl⟩
  · rintro ⟨snap, hsnap, rfl⟩
    obtain ⟨hsnap, hsnapJob⟩ := List.mem_filter.mp hsnap
    exact ⟨snap, hsnap, of_decide_eq_true hsnapJob, rfl⟩

/-- **Confirmation accounts for every proposal.** If it fails, nothing changes. If it succeeds,
every pending proposal of the job has the outcome of its entity, the counts of the report add up,
rows, proposals and snapshots are what the outcomes say, and in a reachable state the job has
snapshots of the confirmed entities and of no others. -/
theorem confirm_accounts (cx : Context) (backend : Backend) (s : ReviewState) (jobId : Uuid)
    (updatedBy : Option Uuid) (stamps : Nat → Stamp) :
    match (confirm cx jobId updatedBy).alone stamps 0 s.store with
    | .error _ => s.step cx backend (.confirm jobId updatedBy stamps) = s
    | .ok (report, store) =>
        (s.step cx backend (.confirm jobId updatedBy stamps)).store = store ∧
        ∃ outcome, Accounts cx jobId s.store store report outcome ∧
          (∀ id p, s.tables.proposals.get? id = some p → p.isPending jobId = true →
            outcome p.entityId ≠ none) ∧
          report.confirmed + report.stale + report.invalid =
            s.tables.proposals.count (fun _ p => p.isPending jobId) ∧
          (s.Reachable cx backend →
            ∀ k, HasSnapshot store.tables jobId k ↔ outcome k = some .confirmed) := by
  have happly := apply_confirm cx backend s jobId updatedBy stamps
  have hends := confirm_ends cx jobId updatedBy s.store
  unfold ReviewState.step
  rw [happly]
  cases halone : (confirm cx jobId updatedBy).alone stamps 0 s.store with
  | error err => rfl
  | ok r =>
      obtain ⟨report, store⟩ := r
      obtain ⟨hjob, ⟨k, hk⟩, outcome, haccounts, hall⟩ := (Prog.ends_sound hends).1 _ _ halone
      refine ⟨rfl, outcome, haccounts, fun id p hp hpending => ?_, ?_, fun hreachable => ?_⟩
      · exact hall p.entityId (List.ne_nil_of_mem
          (mem_pendingFor.mpr ⟨⟨id, hp⟩, hpending, rfl⟩))
      · exact haccounts.counts.total haccounts.ways hall
      · exact hasSnapshot_iff haccounts
          (hreachable.inv.no_snapshots (completed_of_requireCompletedJob hjob) hk)

end Confirm

/-! ## What is confirmed is what was stored -/

section Stored

variable {cx : Context} {backend : Backend} {s : ReviewState} {jobId k : Uuid}
  {report : ConfirmReport} {store : EntityStore} {outcome : Uuid → Option ProposalStatus}

end Stored

/-- Persons with optional texts. -/
def persons (fields : List String) : MetaSchemaDefinition where
  name := "people"
  description := none
  entityTypes := OrderedMap.ofList
    [ ("person",
        { description := none
          fields := OrderedMap.ofList (fields.map fun name =>
            (name, ⟨.mk (FieldAttrs.ofType .string) none none, rfl⟩)) }) ]
  relationTypes := OrderedMap.empty

/-- Person 7 has no age, and is behind the active version. -/
def personBehind (active : MetaSchemaDefinition) : ReviewState where
  workspace :=
    { store :=
        { rows := OrderedMap.ofList [(7, person 1 1 (.object []) 0 "")]
          tables :=
            { workspace := { schemaPending := false, schemaId := some 1, maxEntities := none }
              schemas :=
                { rows := OrderedMap.ofList
                    [ (1, peopleRecord 1 .archived (persons ["age"])),
                      (2, peopleRecord 2 .active active) ]
                  unique := List.pairwise_pair.mpr rfl }
              snapshots := []
              proposals := OrderedMap.empty
              jobs := Table.empty } }
      relations := Table.empty
      issued := [7] }
  filled := []

theorem reachable_personBehind (active : MetaSchemaDefinition) :
    (personBehind active).Reachable peopleContext .postgres :=
  ⟨personBehind active, [], ⟨rfl, rfl, rfl, rfl⟩, rfl⟩

/-- One value for person 7. -/
def oneAnswer (number : Int) (id : Uuid) (field value : String) : Attempt where
  number := number
  skipped := 0
  batches :=
    [ { entityId := 7
        answers := [{ id := id, sourceField := field, proposed := .string value }]
        nonempty := List.cons_ne_nil _ _
        distinct := List.nodup_singleton _ } ]
  distinct := List.nodup_singleton _

/-- The first attempt proposes a name and loses its lease, a new version becomes active, and the
second attempt proposes an age for it. -/
def recovered : List ReviewOp :=
  [ .job (.create 5 "people"),
    .job (.claim 5),
    .record "people" ⟨5, 2, 2⟩ (oneAnswer 1 101 "name" "Aki"),
    .plain ⟨.createSchema 0 (persons ["age", "city", "name"]) none none 3 0, rfl⟩,
    .job (.reconcile 5 2),
    .record "people" ⟨5, 3, 3⟩ (oneAnswer 2 102 "age" "30"),
    .job (.complete 5 2 1 0) ]

/-- Creating, updating and deleting entities. -/
def Op.isEdit : Op → Bool
  | .create _ _ _ _ _ => true
  | .run (.update _) _ => true
  | .run (.delete _) _ => true
  | _ => false

/-- Updating entities. -/
def Op.isUpdate : Op → Bool
  | .run (.update _) _ => true
  | _ => false

/-- The job that a delivery is of. -/
def ReviewOp.jobOf : ReviewOp → Option Uuid
  | .fill args _ => some args.jobId
  | .confirm jobId _ _ => some jobId
  | _ => none

/-- One of the operations, or a redelivery of the job. -/
def ReviewOp.within (allowed : Op → Bool) (jobId : Uuid) : ReviewOp → Bool
  | .plain op => allowed op.1
  | op => decide (op.jobOf = some jobId)

/-- The job has run. -/
def HasRun (s : ReviewState) (jobId : Uuid) : Prop := jobId ∈ s.filled ∨ Reviewed s.tables jobId

section Undo

variable {cx : Context} {backend : Backend} {s s₀ s₁ : ReviewState} {jobId : Uuid} {op : ReviewOp}

/-- A delivery of a job that has run does nothing. -/
theorem step_redelivered (hinv : ReviewInv s) (hrun : HasRun s jobId)
    (hop : op.jobOf = some jobId) : s.step cx backend op = s := by
  cases op with
  | fill args stamps =>
      obtain rfl : args.jobId = jobId := Option.some.inj hop
      rcases hrun with hfilled | ⟨⟨job, hjob, -⟩, -⟩
      · simp [ReviewState.step, ReviewOp.apply, fill, hfilled]
      · by_cases hfilled : args.jobId ∈ s.filled
        · simp [ReviewState.step, ReviewOp.apply, fill, hfilled]
        · simp [ReviewState.step, ReviewOp.apply, fill, hfilled, hjob]
  | confirm jobId' updatedBy stamps =>
      obtain rfl : jobId' = jobId := Option.some.inj hop
      unfold ReviewState.step
      rw [apply_confirm]
      cases halone : (confirm cx jobId' updatedBy).alone stamps 0 s.store with
      | error err => rfl
      | ok r =>
          -- it would need a completed job with something pending
          obtain ⟨hrequire, ⟨k, hk⟩, -⟩ := (Prog.ends_sound
            (confirm_ends cx jobId' updatedBy s.store)).1 r.1 r.2 halone
          obtain ⟨job, hjob, -⟩ := completed_of_requireCompletedJob hrequire
          rcases hrun with hfilled | ⟨-, hsettled⟩
          · rw [hinv.apart jobId' hfilled] at hjob
            cases hjob
          · obtain ⟨p, hp⟩ := List.exists_mem_of_ne_nil _ hk
            obtain ⟨⟨id, hget⟩, hisPending, -⟩ := mem_pendingFor.mp hp
            simp only [ProposalRecord.isPending, Bool.and_eq_true, decide_eq_true_eq] at hisPending
            exact absurd hisPending.2 (hsettled id p hget hisPending.1)
  | plain op => cases hop
  | job op => cases hop
  | record schemaName target attempt => cases hop
  | reject jobId => cases hop
  | discard jobId => cases hop

/-- What a fill leaves, when it runs for the first time. -/
theorem filled_of_apply {args : FillDefaultsArgs} {stamps : Nat → Stamp}
    (hnew : args.jobId ∉ s₀.filled)
    (hrun : (ReviewOp.fill args stamps).apply cx backend s₀ = .ok s₁) :
    s₀.tables.jobs.get? args.jobId = none ∧ s₁.filled = args.jobId :: s₀.filled ∧
      ∃ active ks, getActiveSchema s₀.tables.schemas args.schemaName = .ok active ∧
        FillProgress args active s₀.store [] s₁.store ks := by
  simp only [ReviewOp.apply, fill, if_neg hnew] at hrun
  split_ifs at hrun with hjob
  obtain ⟨w, hw, hrun⟩ := Except.bind_eq_ok.mp hrun
  cases hrun
  obtain ⟨report, -, hfilled⟩ := run_apply_ends rfl (fillDefaults_ends args s₀.store) hw
  exact ⟨Option.not_isSome_iff_eq_none.mp hjob, rfl, hfilled⟩

/-- **What a job leaves**, when it runs for the first time. -/
theorem ran_of_apply (hinv : ReviewInv s₀) (hop : op.jobOf = some jobId) (hnew : jobId ∉ s₀.filled)
    (hrun : op.apply cx backend s₀ = .ok s₁) :
    snapshotsOf s₀.tables jobId = [] ∧ HasRun s₁ jobId ∧
      ∃ ks, Snapshotted jobId s₀.store s₁.store ks := by
  cases op with
  | fill args stamps =>
      obtain rfl : args.jobId = jobId := Option.some.inj hop
      obtain ⟨hjob, hfilled, active, ks, -, hprogress⟩ := filled_of_apply hnew hrun
      refine ⟨?_, Or.inl (by rw [hfilled]; exact List.mem_cons_self), ks, hprogress.snapshotted⟩
      refine List.filter_eq_nil_iff.mpr fun snap hsnap heq => ?_
      have hsnapJob : snap.jobId = args.jobId := of_decide_eq_true heq
      -- a snapshot is from a fill that is on record, or from a confirmation
      rcases hinv.snapshots snap hsnap with hfilled | ⟨⟨job, hget, -⟩, -⟩
      · exact hnew (hsnapJob ▸ hfilled)
      · rw [hsnapJob, hjob] at hget
        cases hget
  | confirm jobId' updatedBy stamps =>
      obtain rfl : jobId' = jobId := Option.some.inj hop
      obtain ⟨w, hw, hrun⟩ := Except.bind_eq_ok.mp hrun
      cases hrun
      obtain ⟨report, -, hrequire, ⟨k, hk⟩, outcome, haccounts, hall⟩ :=
        run_apply_ends rfl (confirm_ends cx jobId' updatedBy s₀.store) hw
      have hcompleted := completed_of_requireCompletedJob hrequire
      obtain ⟨ks, hsnapshotted, -⟩ := haccounts.snapshotted
      exact ⟨hinv.no_snapshots hcompleted hk, Or.inr (reviewed_of_review hcompleted
        haccounts.proposals (fun id p => haccounts.settled hall) haccounts.jobs), ks, hsnapshotted⟩
  | plain op => cases hop
  | job op => cases hop
  | record schemaName target attempt => cases hop
  | reject jobId => cases hop
  | discard jobId => cases hop

/-- After the job: its snapshots are those it took. -/
structure AfterJob (jobId : Uuid) (s₁ s : ReviewState) : Prop where
  inv : ReviewInv s
  ran : HasRun s jobId
  snapshots : s.tables.snapshots = s₁.tables.snapshots

/-- What comes after the job is a plain operation or does nothing. -/
theorem step_within {allowed : Op → Bool} (h : AfterJob jobId s₁ s)
    (hop : op.within allowed jobId = true) :
    s.step cx backend op = s ∨ ∃ plain w, op = .plain plain ∧ allowed plain.1 = true ∧
      plain.1.apply cx s.workspace = .ok w ∧
      s.step cx backend op = { s with workspace := w } := by
  cases op with
  | plain plain =>
      cases happly : plain.1.apply cx s.workspace with
      | error err =>
          refine Or.inl ?_
          simp only [ReviewState.step, ReviewOp.apply, happly]
          rfl
      | ok w =>
          refine Or.inr ⟨plain, w, rfl, hop, happly, ?_⟩
          simp only [ReviewState.step, ReviewOp.apply, happly]
          rfl
  | job op => exact Or.inl (step_redelivered h.inv h.ran (of_decide_eq_true hop))
  | record schemaName target attempt =>
      exact Or.inl (step_redelivered h.inv h.ran (of_decide_eq_true hop))
  | reject jobId => exact Or.inl (step_redelivered h.inv h.ran (of_decide_eq_true hop))
  | discard jobId => exact Or.inl (step_redelivered h.inv h.ran (of_decide_eq_true hop))
  | confirm jobId updatedBy stamps =>
      exact Or.inl (step_redelivered h.inv h.ran (of_decide_eq_true hop))
  | fill args stamps => exact Or.inl (step_redelivered h.inv h.ran (of_decide_eq_true hop))

theorem AfterJob.step {allowed : Op → Bool} (h : AfterJob jobId s₁ s)
    (hop : op.within allowed jobId = true) : AfterJob jobId s₁ (s.step cx backend op) := by
  rcases (step_within h hop : s.step cx backend op = s ∨ _) with
    heq | ⟨plain, w, -, -, happly, heq⟩
  · rw [heq]
    exact h
  · rw [heq]
    obtain ⟨hjobs, hproposals, hsnapshots, hversions⟩ := keepsReview_plain plain.2 happly
    have heffect : ReviewEffect s { s with workspace := w } :=
      .plain hjobs hproposals hsnapshots rfl hversions
    refine ⟨h.inv.effect heffect, ?_, hsnapshots.trans h.snapshots⟩
    exact h.ran.imp_right fun hreviewed => hreviewed.effect heffect

theorem AfterJob.run {allowed : Op → Bool} (h : AfterJob jobId s₁ s) {later : List ReviewOp}
    (hlater : ∀ op ∈ later, op.within allowed jobId = true) :
    AfterJob jobId s₁ (run (ReviewState.step cx backend) s later) :=
  run_invariant (AfterJob jobId s₁) (fun _ _ hs hop => hs.step hop) h (StepsMeet.of_mem hlater s)

/-- Updates keep the schema pointers. -/
theorem schemaOf_run (h : AfterJob jobId s₁ s) {later : List ReviewOp}
    (hlater : ∀ op ∈ later, op.within Op.isUpdate jobId = true) (k : Uuid) :
    schemaOf (Transition.run (ReviewState.step cx backend) s later).store k = schemaOf s.store k := by
  have hkept : AfterJob jobId s₁ (Transition.run (ReviewState.step cx backend) s later) ∧
      schemaOf (Transition.run (ReviewState.step cx backend) s later).store k =
        schemaOf s.store k := by
    refine run_invariant (fun s' => AfterJob jobId s₁ s' ∧ schemaOf s'.store k = schemaOf s.store k)
      (fun s' op hs' hop => ⟨hs'.1.step hop, ?_⟩) ⟨h, rfl⟩ (StepsMeet.of_mem hlater s)
    rcases step_within hs'.1 hop with heq | ⟨plain, w, -, hupdate, happly, heq⟩
    · rw [heq]
      exact hs'.2
    · rw [heq]
      unfold Op.isUpdate at hupdate
      split at hupdate
      · rename_i input stamps hplain
        rw [hplain] at happly
        obtain ⟨r, -, -, hschema⟩ := run_apply_ends rfl (update_ends cx input s'.store) happly
        exact (hschema k).trans hs'.2
      · cases hupdate
  exact hkept.2

/-- The snapshots that an undo finds are those that the job took. -/
theorem snapshotsOf_later {ks : List Uuid} {s₂ : ReviewState}
    (hfresh : snapshotsOf s₀.tables jobId = []) (hks : Snapshotted jobId s₀.store s₁.store ks)
    (hafter : AfterJob jobId s₁ s₂) :
    (snapshotsOf s₂.tables jobId).map EntitySnapshot.entityId = ks ∧
      ∀ k ∈ ks, ∃ snap ∈ snapshotsOf s₂.tables jobId, snap.entityId = k ∧
        imageOf s₀.store k = some snap.image := by
  have hsame : snapshotsOf s₂.tables jobId = snapshotsOf s₁.tables jobId := by
    unfold snapshotsOf
    rw [hafter.snapshots]
  rw [hsame]
  refine ⟨hks.entityIds hfresh, fun k hk => ?_⟩
  obtain ⟨row, hrow⟩ := hks.present k hk
  refine ⟨row.snapshot jobId k, ?_, rfl, ?_⟩
  · rw [hks.snapshotsOf_eq hfresh]
    exact List.mem_filterMap.mpr ⟨k, hk, by rw [hrow]; rfl⟩
  · rw [imageOf, hrow]
    rfl

/-- An undo puts the snapshots back, or there are none and it is refused. -/
theorem step_undo (cx : Context) (backend : Backend) (s : ReviewState) (jobId : Uuid)
    (stamps : Nat → Stamp) :
    PutBack (snapshotsOf s.tables jobId) s.store
      (s.step cx backend (.plain ⟨.run (.undoJob jobId) stamps, rfl⟩)).store := by
  have happly : (ReviewOp.plain ⟨.run (.undoJob jobId) stamps, rfl⟩).apply cx backend s =
      ((undoJob jobId).alone stamps 0 s.store).map fun r =>
        { s with workspace := { s.workspace with store := r.2 } } := by
    simp only [ReviewOp.apply, Op.apply, code, Prog.alone_bind_pure]
    cases (undoJob jobId).alone stamps 0 s.store with
    | error err => rfl
    | ok r => rfl
  obtain ⟨hdone, hrefused⟩ := Prog.ends_sound (undoJob_ends jobId s.store)
  unfold ReviewState.step
  rw [happly]
  cases halone : (undoJob jobId).alone stamps 0 s.store with
  | error err =>
      rw [show snapshotsOf s.tables jobId = [] from hrefused err halone]
      exact ⟨rfl, fun k => rfl⟩
  | ok r => exact (hdone r.1 r.2 halone).2.1

end Undo

/-- **Undo restores what the job changed.** A fill or a confirmation ran; then entities were
created, updated and deleted, and the job may have been delivered again. The undo gives every
entity that the job changed, and that is still there, what it had before, counts the snapshotted
entities that are gone, and done once more it changes nothing but the stamps of its writes. It is
refused only if the job changed nothing. -/
theorem undo_restores (cx : Context) (backend : Backend) (s₀ s₁ : ReviewState)
    (hreachable : s₀.Reachable cx backend) (job : ReviewOp) (jobId : Uuid)
    (hjob : job.jobOf = some jobId) (hnew : jobId ∉ s₀.filled)
    (hrun : job.apply cx backend s₀ = .ok s₁) (later : List ReviewOp)
    (hlater : ∀ op ∈ later, op.within Op.isEdit jobId = true) (stamps : Nat → Stamp) :
    match (undoJob jobId).alone stamps 0 (run (ReviewState.step cx backend) s₁ later).store with
    | .error _ => ∀ k, imageOf s₁.store k = imageOf s₀.store k
    | .ok (report, store) =>
        (∀ k, imageOf s₁.store k ≠ imageOf s₀.store k →
          ((run (ReviewState.step cx backend) s₁ later).store.rows.get? k).isSome = true →
          imageOf store k = imageOf s₀.store k) ∧
        (∃ ks : List Uuid, ks.Nodup ∧ (∀ k, k ∈ ks ↔
            HasSnapshot (run (ReviewState.step cx backend) s₁ later).tables jobId k) ∧
          report.missing = (ks.filter fun k =>
            ((run (ReviewState.step cx backend) s₁ later).store.rows.get? k).isNone).length) ∧
        ∀ stamps', ∃ again, (undoJob jobId).alone stamps' 0 store = .ok (report, again) ∧
          again.tables = store.tables ∧ ∀ k,
            (again.rows.get? k).map EntityRow.unstamped =
              (store.rows.get? k).map EntityRow.unstamped := by
  have hinv := hreachable.inv
  obtain ⟨hfresh, hran, ks, hks⟩ := ran_of_apply hinv hjob hnew hrun
  have hafter : AfterJob jobId s₁ (run (ReviewState.step cx backend) s₁ later) :=
    AfterJob.run ⟨hinv.effect (apply_effect hrun), hran, rfl⟩ hlater
  generalize run (ReviewState.step cx backend) s₁ later = s₂ at hafter ⊢
  obtain ⟨hids, himage⟩ := snapshotsOf_later hfresh hks hafter
  obtain ⟨hdone, hrefused⟩ := Prog.ends_sound (undoJob_ends jobId s₂.store)
  have hmem : ∀ k, k ∈ ks ↔ HasSnapshot s₂.tables jobId k := by
    intro k
    rw [← hids, List.mem_map]
    simp only [snapshotsOf, List.mem_filter, decide_eq_true_eq, HasSnapshot, and_assoc]
  cases halone : (undoJob jobId).alone stamps 0 s₂.store with
  | error err =>
      -- no snapshot, so nothing was written
      intro k
      have hnil : ks = [] := by
        rw [← hids, hrefused err halone]
        rfl
      rw [imageOf, hks.kept k (by rw [hnil]; exact List.not_mem_nil), imageOf]
  | ok r =>
      obtain ⟨report, store⟩ := r
      obtain ⟨hsome, hback, rfl⟩ := hdone report store halone
      have hnodup : ((snapshotsOf s₂.tables jobId).map EntitySnapshot.entityId).Nodup := by
        rw [hids]
        exact hks.nodup
      refine ⟨fun k hchanged hexists => ?_, ⟨ks, hks.nodup, hmem, ?_⟩, fun stamps' => ?_⟩
      · have hk : k ∈ ks := by
          by_contra hk
          exact hchanged (by rw [imageOf, hks.kept k hk, imageOf])
        obtain ⟨snap, hsnap, rfl, hbefore⟩ := himage k hk
        obtain ⟨row, hrow⟩ := Option.isSome_iff_exists.mp hexists
        rw [hbefore]
        exact hback.imageOf_of_mem hnodup hsnap hrow
      · rw [← hids, List.filter_map, List.length_map, ← List.countP_eq_length_filter]
        rfl
      · obtain ⟨hdone', hrefused'⟩ := Prog.ends_sound (undoJob_ends jobId store)
        have hsnaps : snapshotsOf store.tables jobId = snapshotsOf s₂.tables jobId := by
          rw [hback.tables]
        cases hagain : (undoJob jobId).alone stamps' 0 store with
        | error err => exact absurd (hsnaps ▸ hrefused' err hagain) hsome
        | ok r' =>
            obtain ⟨-, hback', hreport⟩ := hdone' r'.1 r'.2 hagain
            rw [hsnaps] at hback' hreport
            refine ⟨r'.2, ?_, hback'.tables, hback.again hback' hnodup⟩
            rw [← undoReport_congr jobId hback.isSome, ← hreport]

/-! ### A person who is edited after a fill -/

/-- The fill of job 9. -/
def fillJob : ReviewOp := .fill fillPeople fun _ => ⟨1, "filled"⟩

/-- An edit of the person's age. -/
def laterEdit : ReviewOp :=
  .plain ⟨.run (.update
    { id := 7
      data := .object [("age", .string "31")]
      updatedBy := none
      expectedUpdatedAt := none }) fun _ => ⟨2, "edited"⟩, rfl⟩

/-- The person after the fill. -/
def filledPerson (active : MetaSchemaDefinition) : ReviewState :=
  (personBehind active).step peopleContext .postgres fillJob

/-- The person after the fill and the edit. -/
def editedPerson (active : MetaSchemaDefinition) : ReviewState :=
  run (ReviewState.step peopleContext .postgres) (filledPerson active) [laterEdit]

theorem apply_eq_ok {cx : Context} {backend : Backend} {s : ReviewState} {op : ReviewOp}
    (h : (op.apply cx backend s).isOk = true) :
    op.apply cx backend s = .ok (s.step cx backend op) := by
  unfold ReviewState.step
  cases happly : op.apply cx backend s with
  | error err =>
      rw [happly] at h
      cases h
  | ok s' => rfl

/-- The active version requires a number, which the fill adds. -/
theorem undo_restores_editedPerson :
    ∃ report store, (undoJob 9).alone (fun _ => ⟨3, "undone"⟩) 0
        (editedPerson (people .integer true)).store = .ok (report, store) ∧
      imageOf store 7 = imageOf (personBehind (people .integer true)).store 7 := by
  have hrun : fillJob.apply peopleContext .postgres (personBehind (people .integer true)) =
      .ok (filledPerson (people .integer true)) := apply_eq_ok (by decide)
  have hchanged : imageOf (filledPerson (people .integer true)).store 7 ≠
      imageOf (personBehind (people .integer true)).store 7 := by decide
  have h := undo_restores peopleContext .postgres _ _ (reachable_personBehind (people .integer true))
    fillJob 9 rfl List.not_mem_nil hrun [laterEdit] (by decide) fun _ => ⟨3, "undone"⟩
  have hedited : run (ReviewState.step peopleContext .postgres) (filledPerson (people .integer true))
      [laterEdit] = editedPerson (people .integer true) := rfl
  rw [hedited] at h
  cases halone : (undoJob 9).alone (fun _ => ⟨3, "undone"⟩) 0
      (editedPerson (people .integer true)).store with
  | error err =>
      rw [halone] at h
      exact absurd (h 7) hchanged
  | ok r =>
      rw [halone] at h
      exact ⟨r.1, r.2, rfl, h.1 7 hchanged (by decide)⟩

/-- An entity with a snapshot, after the undo of the fill: the fill has left it as it was if it
had nothing to fill in, and the undo leaves it if its data is what it was before the fill. -/
theorem FillProgress.undone {args : FillDefaultsArgs} {active : Uuid × SchemaRecord}
    {s₀ s₁ s₂ s₃ : EntityStore} {ks : List Uuid} {snaps : List EntitySnapshot}
    (h : FillProgress args active s₀ [] s₁ ks) (hschema : ∀ k, schemaOf s₂ k = schemaOf s₁ k)
    (hback : PutBack snaps s₂ s₃) (hnodup : (snaps.map EntitySnapshot.entityId).Nodup)
    (himage : ∀ k ∈ ks, ∃ snap ∈ snaps, snap.entityId = k ∧ imageOf s₀ k = some snap.image)
    {k : Uuid} (hk : k ∈ ks) :
    ∃ row type row₂, s₀.rows.get? k = some row ∧ fillType args active s₀.tables k row = some type ∧
      s₂.rows.get? k = some row₂ ∧
      (imageOf s₁ k = imageOf s₀ k ↔ (fillFieldsInValue type.trees row.data).2 = 0) ∧
      (imageOf s₃ k = imageOf s₂ k ↔ row₂.data = row.data) := by
  obtain ⟨row, type, row₁, hrow, htype, hrow₁, hfilled⟩ := h.filled k hk
  -- updates leave an entity at the version that the fill has left it at
  have hpointer : schemaOf s₂ k = some (row.schemaId, row.schemaVersion) := by
    rw [hschema k, schemaOf, hrow₁, Option.map_some, hfilled.pointer]
  obtain ⟨row₂, hrow₂, hsame⟩ := Option.map_eq_some_iff.mp hpointer
  obtain ⟨hid, hversion⟩ := Prod.mk.inj hsame
  obtain ⟨snap, hsnap, rfl, hbefore⟩ := himage k hk
  rw [imageOf, hrow, Option.map_some, Option.some.injEq] at hbefore
  refine ⟨row, type, row₂, hrow, htype, hrow₂, ?_, ?_⟩
  · rw [imageOf, hrow₁, imageOf, hrow, Option.map_some, Option.map_some, Option.some.injEq]
    exact hfilled.image_eq_iff
  · rw [hback.imageOf_of_mem hnodup hsnap hrow₂, ← hbefore, imageOf, hrow₂, Option.map_some,
      Option.some.injEq, EntityRow.image, EntityRow.image, hid, hversion]
    simp only [Image.mk.injEq, and_true]
    exact eq_comm

/-- **Undo touches nothing else** if and only if no entity that the fill found behind, and had
nothing to fill in, holds other data than before the fill. -/
theorem undo_leaves_iff (cx : Context) (backend : Backend) (s₀ s₁ : ReviewState)
    (hreachable : s₀.Reachable cx backend) (args : FillDefaultsArgs) (stamps : Nat → Stamp)
    (hnew : args.jobId ∉ s₀.filled) (hrun : (ReviewOp.fill args stamps).apply cx backend s₀ = .ok s₁)
    (updates : List ReviewOp)
    (hupdates : ∀ op ∈ updates, op.within Op.isUpdate args.jobId = true) (stamps' : Nat → Stamp) :
    (∀ k, imageOf s₁.store k = imageOf s₀.store k →
        imageOf ((run (ReviewState.step cx backend) s₁ updates).step cx backend
          (.plain ⟨.run (.undoJob args.jobId) stamps', rfl⟩)).store k =
          imageOf (run (ReviewState.step cx backend) s₁ updates).store k) ↔
      ∀ active k row type, getActiveSchema s₀.tables.schemas args.schemaName = .ok active →
        s₀.store.rows.get? k = some row → fillType args active s₀.tables k row = some type →
        (fillFieldsInValue type.trees row.data).2 = 0 → ∀ row',
          (run (ReviewState.step cx backend) s₁ updates).store.rows.get? k = some row' →
          row'.data = row.data := by
  have hinv := hreachable.inv
  obtain ⟨hfresh, hran, -⟩ := ran_of_apply hinv (rfl : (ReviewOp.fill args stamps).jobOf = _) hnew
    hrun
  obtain ⟨-, -, active, ks, hactive, hprogress⟩ := filled_of_apply hnew hrun
  have hstart : AfterJob args.jobId s₁ s₁ := ⟨hinv.effect (apply_effect hrun), hran, rfl⟩
  have hafter : AfterJob args.jobId s₁ (run (ReviewState.step cx backend) s₁ updates) :=
    hstart.run hupdates
  have hschema : ∀ k, schemaOf (run (ReviewState.step cx backend) s₁ updates).store k =
      schemaOf s₁.store k := schemaOf_run hstart hupdates
  generalize run (ReviewState.step cx backend) s₁ updates = s₂ at hafter hschema ⊢
  have hback := step_undo cx backend s₂ args.jobId stamps'
  generalize s₂.step cx backend (.plain ⟨.run (.undoJob args.jobId) stamps', rfl⟩) = s₃ at hback ⊢
  obtain ⟨hids, himage⟩ := snapshotsOf_later hfresh hprogress.snapshotted hafter
  have hnodup : ((snapshotsOf s₂.tables args.jobId).map EntitySnapshot.entityId).Nodup := by
    rw [hids]
    exact hprogress.snapshotted.nodup
  constructor
  · intro hleaves active' k row type hactive' hrow htype hcount row' hrow'
    rw [hactive] at hactive'
    cases hactive'
    have hk : k ∈ ks := (hprogress.reached k row type hrow htype).resolve_right List.not_mem_nil
    obtain ⟨old, type', row₂, hold, htype', hrow₂, hfill, hundo⟩ :=
      hprogress.undone hschema hback hnodup himage hk
    rw [hrow] at hold
    cases hold
    rw [htype] at htype'
    cases htype'
    rw [hrow'] at hrow₂
    cases hrow₂
    exact hundo.mp (hleaves k (hfill.mpr hcount))
  · intro hcondition k hunchanged
    by_cases hk : k ∈ ks
    · obtain ⟨row, type, row₂, hrow, htype, hrow₂, hfill, hundo⟩ :=
        hprogress.undone hschema hback hnodup himage hk
      have hcount := hfill.mp hunchanged
      exact hundo.mpr (hcondition active k row type hactive hrow htype hcount row₂ hrow₂)
    · rw [imageOf_eq, imageOf_eq, hback.unstamped_of_ne]
      intro snap hsnap heq
      rw [← hids] at hk
      exact hk (List.mem_map.mpr ⟨snap, hsnap, heq⟩)

/-- The active version has a name, but requires nothing: the fill finds nothing to fill in. -/
theorem undo_leaves_iff_editedPerson :
    ¬∀ active k row type, getActiveSchema
        (personBehind (persons ["age", "name"])).tables.schemas "people" = .ok active →
      (personBehind (persons ["age", "name"])).store.rows.get? k = some row →
      fillType fillPeople active (personBehind (persons ["age", "name"])).tables k row = some type →
      (fillFieldsInValue type.trees row.data).2 = 0 → ∀ row',
        (editedPerson (persons ["age", "name"])).store.rows.get? k = some row' →
        row'.data = row.data := by
  intro hcondition
  have hrun : fillJob.apply peopleContext .postgres (personBehind (persons ["age", "name"])) =
      .ok (filledPerson (persons ["age", "name"])) := apply_eq_ok (by decide)
  have hleaves := (undo_leaves_iff peopleContext .postgres _ _
    (reachable_personBehind (persons ["age", "name"])) fillPeople (fun _ => ⟨1, "filled"⟩)
    List.not_mem_nil hrun [laterEdit] (by decide) fun _ => ⟨3, "undone"⟩).mpr hcondition
  exact absurd (hleaves 7 (by decide)) (by decide)

/-- The fill left the person as it was, but its undo takes the later edit back. -/
theorem not_undo_leaves_editedPerson :
    imageOf (filledPerson (persons ["age", "name"])).store 7 =
        imageOf (personBehind (persons ["age", "name"])).store 7 ∧
      imageOf ((editedPerson (persons ["age", "name"])).step peopleContext .postgres
        (.plain ⟨.run (.undoJob 9) fun _ => ⟨3, "undone"⟩, rfl⟩)).store 7 ≠
        imageOf (editedPerson (persons ["age", "name"])).store 7 := by
  constructor <;> decide

end Yorishiro.Entity
