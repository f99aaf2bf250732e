import Yorishiro.Entity.Programs
import Yorishiro.Lib.Transition

/-!
# Recording proposals

An attempt of an infer-fill job records what the model proposed in one transaction, one
`record_batch_attempt` for each entity. A proposal that is stored already is a unique violation,
which `record_batch_attempt` takes for a redelivery and passes over.

PostgreSQL does not pass over it: the statement aborts the transaction, every later statement
fails, and the commit of an aborted transaction rolls back. `recordsOnce_iff` says when an attempt
nevertheless adds each pair that was missing and counts what it added.
-/

set_option autoImplicit false

namespace Yorishiro.Entity

open Yorishiro.Lib Yorishiro.Inference
open Yorishiro.Lib.Transition (StepsMeet)

/-- The table `inference_proposals`. -/
abbrev Proposals := OrderedMap Uuid ProposalRecord

/-- `inference_proposals_delivery_key`. -/
def ProposalRecord.clash (a b : ProposalRecord) : Bool :=
  decide (a.jobId = b.jobId) && decide (a.entityId = b.entityId) &&
    decide (a.schemaId = b.schemaId) && decide (a.schemaVersion = b.schemaVersion) &&
    decide (a.sourceField = b.sourceField)

/-- `INSERT` of a proposal. -/
def Proposals.insertRow (m : Proposals) (id : Uuid) (p : ProposalRecord) :
    Except DbErr Proposals :=
  if (m.get? id).isSome || m.entries.any fun e => e.2.clash p then .error .uniqueViolation
  else .ok (m.insert id p)

/-! ## The transaction -/

/-- A transaction on the proposals: what it sees, and whether it is aborted. -/
structure RecordTxn where
  proposals : Proposals
  aborted : Bool

/-- What PostgreSQL answers in an aborted transaction. -/
def abortedTxn : DbErr :=
  .custom "current transaction is aborted, commands ignored until end of transaction block"

/-- `INSERT` in the transaction. -/
def RecordTxn.insert (backend : Backend) (txn : RecordTxn) (id : Uuid) (p : ProposalRecord) :
    Except DbErr Unit × RecordTxn :=
  if txn.aborted then (.error abortedTxn, txn)
  else
    match Proposals.insertRow txn.proposals id p with
    | .ok proposals => (.ok (), { txn with proposals := proposals })
    | .error err => (.error err, { txn with aborted := decide (backend = .postgres) })

/-- The version of the schema that an attempt proposes for. -/
structure Target where
  jobId : Uuid
  schemaId : Uuid
  schemaVersion : Int
deriving DecidableEq, Repr

/-- A proposed value, with the identifier that `Uuid::now_v7` gives to its row. -/
structure Answer where
  id : Uuid
  sourceField : String
  proposed : Json
deriving DecidableEq

/-- What the model proposed for an entity: a JSON object, so no field twice. -/
structure Batch where
  entityId : Uuid
  answers : List Answer
  nonempty : answers ≠ []
  distinct : (answers.map Answer.sourceField).Nodup

/-- The row that an answer becomes. -/
def Answer.record (target : Target) (entityId : Uuid) (answer : Answer) : ProposalRecord where
  jobId := target.jobId
  entityId := entityId
  schemaId := target.schemaId
  schemaVersion := target.schemaVersion
  sourceField := answer.sourceField
  proposed := answer.proposed
  status := .pending

/-- The loop of `record_batch_attempt`. -/
def recordFields (backend : Backend) (target : Target) (entityId : Uuid) :
    Nat → RecordTxn → List Answer → Except YorishiroError Nat × RecordTxn
  | inserted, txn, [] => (.ok inserted, txn)
  | inserted, txn, answer :: answers =>
      match txn.insert backend answer.id (answer.record target entityId) with
      | (.ok (), txn) => recordFields backend target entityId (inserted + 1) txn answers
      -- the pair is stored already: a redelivery
      | (.error .uniqueViolation, txn) =>
          recordFields backend target entityId inserted txn answers
      | (.error err, txn) => (.error (.internal err), txn)

/-- The checks of `record_batch_attempt` on the locked job row. -/
def checkRunning (workspaceId : Uuid) (jobs : InferenceJobs) (jobId : Uuid) (attempt : Int) :
    Except YorishiroError Unit :=
  match jobs.get? jobId with
  | none => .error (.notFound "infer-fill job not found")
  | some job =>
      if job.workspaceId ≠ workspaceId then .error (.notFound "infer-fill job not found")
      else if job.status ≠ .running then
        .error (.conflict ("inference job '" ++ jobId.toString ++ "' is not running"))
      else if job.attempt ≠ attempt then
        .error (.conflict ("inference job '" ++ jobId.toString ++ "' attempt is stale"))
      else .ok ()

/-- `record_batch_attempt`. -/
def recordBatchAttempt (backend : Backend) (workspaceId : Uuid) (jobs : InferenceJobs)
    (attempt : Int) (target : Target) (txn : RecordTxn) (batch : Batch) :
    Except YorishiroError Nat × RecordTxn :=
  -- the job row is read first, and an aborted transaction refuses that too
  if txn.aborted then (.error (.internal abortedTxn), txn)
  else
    match checkRunning workspaceId jobs target.jobId attempt with
    | .error err => (.error err, txn)
    | .ok () => recordFields backend target batch.entityId 0 txn batch.answers

/-- What a worker counts: the proposals it recorded, and the entities it recorded none for. -/
structure Tally where
  proposed : Nat
  skipped : Nat
deriving DecidableEq, Repr

/-- The tally after a batch. -/
def Tally.add (tally : Tally) (written : Nat) : Tally :=
  if written = 0 then { tally with skipped := tally.skipped + 1 }
  else { tally with proposed := tally.proposed + written }

/-- The loop over the batches in `perform_infer_fill`. -/
def recordBatches (backend : Backend) (workspaceId : Uuid) (jobs : InferenceJobs) (attempt : Int)
    (target : Target) : Tally → RecordTxn → List Batch → Except YorishiroError Tally × RecordTxn
  | tally, txn, [] => (.ok tally, txn)
  | tally, txn, batch :: batches =>
      match recordBatchAttempt backend workspaceId jobs attempt target txn batch with
      | (.ok written, txn) =>
          recordBatches backend workspaceId jobs attempt target (tally.add written) txn batches
      | (.error err, txn) => (.error err, txn)

/-- What an attempt records: the number it runs under, the entities it skipped for want of an
answer, and the answers for the others. -/
structure Attempt where
  number : Int
  skipped : Nat
  batches : List Batch
  distinct : (batches.map Batch.entityId).Nodup

/-- The recording transaction of `perform_infer_fill`: what it returns, and the proposals it
leaves. -/
def recordAttempt (backend : Backend) (workspaceId : Uuid) (jobs : InferenceJobs) (target : Target)
    (proposals : Proposals) (attempt : Attempt) : Except YorishiroError Tally × Proposals :=
  match recordBatches backend workspaceId jobs attempt.number target ⟨0, attempt.skipped⟩
    ⟨proposals, false⟩ attempt.batches with
  | (.ok tally, txn) =>
      -- the commit of an aborted transaction rolls back, and reports no error
      (.ok tally, if txn.aborted then proposals else txn.proposals)
  | (.error err, _) => (.error err, proposals)

/-! ## What it stores -/

/-- The rows of a batch. -/
def Batch.rows (target : Target) (batch : Batch) : List (Uuid × ProposalRecord) :=
  batch.answers.map fun answer => (answer.id, answer.record target batch.entityId)

/-- The rows of an attempt, one for each pair of an entity and a field. -/
def Attempt.rows (target : Target) (attempt : Attempt) : List (Uuid × ProposalRecord) :=
  attempt.batches.flatMap (Batch.rows target)

/-- A proposal with the key of `p` is stored. -/
def Proposals.stored (m : Proposals) (p : ProposalRecord) : Bool :=
  m.entries.any fun e => e.2.clash p

/-- The table with more rows. -/
def Proposals.insertAll (m : Proposals) (rows : List (Uuid × ProposalRecord)) : Proposals :=
  rows.foldl (fun m r => OrderedMap.insert m r.1 r.2) m

/-- The job row is running under the number. -/
def Running (workspaceId : Uuid) (jobs : InferenceJobs) (jobId : Uuid) (attempt : Int) : Prop :=
  ∃ job, jobs.get? jobId = some job ∧ job.workspaceId = workspaceId ∧ job.status = .running ∧
    job.attempt = attempt

theorem checkRunning_eq_ok {workspaceId : Uuid} {jobs : InferenceJobs} {jobId : Uuid}
    {attempt : Int} :
    checkRunning workspaceId jobs jobId attempt = .ok () ↔
      Running workspaceId jobs jobId attempt := by
  unfold checkRunning Running
  cases jobs.get? jobId with
  | none => simp
  | some job =>
      dsimp only
      split_ifs with hworkspace hstatus hattempt
      · simp [hworkspace]
      · simp [hstatus]
      · simp [hattempt]
      · push Not at hworkspace hstatus hattempt
        simp [hworkspace, hstatus, hattempt]

section Effect

variable {backend : Backend} {workspaceId : Uuid} {jobs : InferenceJobs} {target : Target}
  {P : Proposals → Prop}

theorem insert_induction {txn : RecordTxn} {id : Uuid} {p : ProposalRecord}
    (hinsert : ∀ m m', P m → Proposals.insertRow m id p = .ok m' → P m') (h : P txn.proposals) :
    P (txn.insert backend id p).2.proposals := by
  unfold RecordTxn.insert
  split_ifs
  · exact h
  · split
    · rename_i m hm
      exact hinsert _ _ h hm
    · exact h

theorem recordFields_induction {entityId : Uuid} {answers : List Answer}
    (hinsert : ∀ answer ∈ answers, ∀ m m', P m →
      Proposals.insertRow m answer.id (answer.record target entityId) = .ok m' → P m')
    {inserted : Nat} {txn : RecordTxn} (h : P txn.proposals) :
    P (recordFields backend target entityId inserted txn answers).2.proposals := by
  induction answers generalizing inserted txn with
  | nil => exact h
  | cons answer answers ih =>
      have hhead : P (txn.insert backend answer.id (answer.record target entityId)).2.proposals :=
        insert_induction (hinsert answer List.mem_cons_self) h
      have htail := fun a (ha : a ∈ answers) => hinsert a (List.mem_cons_of_mem _ ha)
      unfold recordFields
      split
      · rename_i txn' heq
        rw [heq] at hhead
        exact ih htail hhead
      · rename_i txn' heq
        rw [heq] at hhead
        exact ih htail hhead
      · rename_i err txn' _ heq
        rw [heq] at hhead
        exact hhead

/-- **What an attempt does to the proposals.** Whatever each insertion keeps is kept, and an
insertion is made only for a running job. -/
theorem recordAttempt_induction {attempt : Attempt}
    (hinsert : Running workspaceId jobs target.jobId attempt.number →
      ∀ batch ∈ attempt.batches, ∀ answer ∈ batch.answers, ∀ m m', P m →
        Proposals.insertRow m answer.id (answer.record target batch.entityId) = .ok m' → P m')
    {m : Proposals} (h : P m) :
    P (recordAttempt backend workspaceId jobs target m attempt).2 := by
  have hbatches : ∀ batches : List Batch, (∀ batch ∈ batches, batch ∈ attempt.batches) →
      ∀ tally (txn : RecordTxn), P txn.proposals →
        P (recordBatches backend workspaceId jobs attempt.number target tally txn
          batches).2.proposals := by
    intro batches
    induction batches with
    | nil => exact fun _ _ _ htxn => htxn
    | cons batch batches ih =>
        intro hmem tally txn htxn
        have hbatch : P (recordBatchAttempt backend workspaceId jobs attempt.number target txn
            batch).2.proposals := by
          unfold recordBatchAttempt
          split_ifs
          · exact htxn
          · split
            · exact htxn
            · rename_i hrunning
              exact recordFields_induction (hinsert (checkRunning_eq_ok.mp hrunning) batch
                (hmem batch List.mem_cons_self)) htxn
        unfold recordBatches
        split
        · rename_i written txn' heq
          rw [heq] at hbatch
          exact ih (fun b hb => hmem b (List.mem_cons_of_mem _ hb)) _ _ hbatch
        · rename_i err txn' heq
          rw [heq] at hbatch
          exact hbatch
  have hall := hbatches attempt.batches (fun _ hb => hb) ⟨0, attempt.skipped⟩ ⟨m, false⟩ h
  unfold recordAttempt
  split
  · rename_i tally txn heq
    rw [heq] at hall
    dsimp only
    split_ifs
    · exact h
    · exact hall
  · exact h

end Effect

/-! ## Which attempts are recorded -/

/-- Rows under free identifiers that do not clash with each other. -/
structure Storable (m : Proposals) (rows : List (Uuid × ProposalRecord)) : Prop where
  ids : (rows.map Prod.fst).Nodup
  free : ∀ r ∈ rows, m.get? r.1 = none
  apart : rows.Pairwise fun a b => a.2.clash b.2 = false

section Storable

variable {m : Proposals} {p : ProposalRecord} {r : Uuid × ProposalRecord}
  {rows rows' : List (Uuid × ProposalRecord)}

theorem stored_iff : Proposals.stored m p = true ↔ ∃ id q, m.get? id = some q ∧ q.clash p = true := by
  unfold Proposals.stored
  simp only [List.any_eq_true, Prod.exists, OrderedMap.mem_entries_iff]

theorem stored_insert (hfree : m.get? r.1 = none) :
    Proposals.stored (OrderedMap.insert m r.1 r.2) p = (Proposals.stored m p || r.2.clash p) := by
  rw [Bool.eq_iff_iff, Bool.or_eq_true, stored_iff, stored_iff]
  constructor
  · rintro ⟨id, q, hq, hclash⟩
    rw [OrderedMap.get?_insert] at hq
    split_ifs at hq
    · cases hq
      exact Or.inr hclash
    · exact Or.inl ⟨id, q, hq, hclash⟩
  · rintro (⟨id, q, hq, hclash⟩ | hclash)
    · exact ⟨id, q, OrderedMap.get?_insert_of_absent hfree _ hq, hclash⟩
    · exact ⟨r.1, r.2, by rw [OrderedMap.get?_insert, if_pos rfl], hclash⟩

theorem Storable.head (h : Storable m (r :: rows)) : m.get? r.1 = none := h.free r List.mem_cons_self

theorem Storable.tail (h : Storable m (r :: rows)) :
    Storable (OrderedMap.insert m r.1 r.2) rows := by
  have hids := h.ids
  rw [List.map_cons, List.nodup_cons] at hids
  refine ⟨hids.2, fun r' hr' => ?_, h.apart.of_cons⟩
  have hne : r'.1 ≠ r.1 := fun heq => hids.1 (heq ▸ List.mem_map_of_mem hr')
  rw [OrderedMap.get?_insert, if_neg hne]
  exact h.free r' (List.mem_cons_of_mem _ hr')

/-- An insertion makes none of the rows stored that come after it. -/
theorem Storable.stored_tail (h : Storable m (r :: rows)) {r' : Uuid × ProposalRecord}
    (hr' : r' ∈ rows) :
    Proposals.stored (OrderedMap.insert m r.1 r.2) r'.2 = Proposals.stored m r'.2 := by
  rw [stored_insert h.head, List.rel_of_pairwise_cons h.apart hr', Bool.or_false]

theorem Storable.left (h : Storable m (rows ++ rows')) : Storable m rows := by
  have hids := h.ids
  rw [List.map_append, List.nodup_append] at hids
  exact ⟨hids.1, fun r hr => h.free r (List.mem_append_left _ hr),
    (List.pairwise_append.mp h.apart).1⟩

/-- The rows that come later are storable once the first ones are stored. -/
theorem Storable.right (h : Storable m (rows ++ rows')) :
    Storable (Proposals.insertAll m rows) rows' ∧
      ∀ r ∈ rows', Proposals.stored (Proposals.insertAll m rows) r.2 = Proposals.stored m r.2 := by
  induction rows generalizing m with
  | nil => exact ⟨h, fun _ _ => rfl⟩
  | cons r rows ih =>
      obtain ⟨hright, hstored⟩ := ih h.tail
      refine ⟨hright, fun r' hr' => ?_⟩
      rw [← h.stored_tail (List.mem_append_right _ hr')]
      exact hstored r' hr'

end Storable

section Insertions

variable {backend : Backend} {workspaceId : Uuid} {jobs : InferenceJobs} {target : Target}
  {m : Proposals} {entityId : Uuid}

theorem insert_of_missing {id : Uuid} {p : ProposalRecord} (hfree : m.get? id = none)
    (hmissing : Proposals.stored m p = false) :
    (RecordTxn.mk m false).insert backend id p = (.ok (), ⟨OrderedMap.insert m id p, false⟩) := by
  have hrow : Proposals.insertRow m id p = .ok (OrderedMap.insert m id p) := by
    unfold Proposals.insertRow
    rw [if_neg]
    unfold Proposals.stored at hmissing
    simp [hfree, hmissing]
  simp [RecordTxn.insert, hrow]

theorem insert_of_stored {id : Uuid} {p : ProposalRecord} (hstored : Proposals.stored m p = true) :
    (RecordTxn.mk m false).insert .postgres id p = (.error .uniqueViolation, ⟨m, true⟩) := by
  have hrow : Proposals.insertRow m id p = .error .uniqueViolation := by
    unfold Proposals.insertRow
    rw [if_pos]
    unfold Proposals.stored at hstored
    simp [hstored]
  simp [RecordTxn.insert, hrow]

/-- Answers that are all missing are all inserted. -/
theorem recordFields_of_missing {answers : List Answer} {inserted : Nat}
    (hrows : Storable m (answers.map fun a => (a.id, a.record target entityId)))
    (hmissing : ∀ a ∈ answers, Proposals.stored m (a.record target entityId) = false) :
    recordFields backend target entityId inserted ⟨m, false⟩ answers =
      (.ok (inserted + answers.length), ⟨Proposals.insertAll m
        (answers.map fun a => (a.id, a.record target entityId)), false⟩) := by
  induction answers generalizing m inserted with
  | nil => rfl
  | cons a answers ih =>
      rw [List.map_cons] at hrows
      unfold recordFields
      rw [insert_of_missing hrows.head (hmissing a List.mem_cons_self)]
      dsimp only
      rw [ih hrows.tail, List.length_cons, List.map_cons]
      · rw [Nat.add_assoc, Nat.add_comm 1]
        rfl
      · intro b hb
        rw [hrows.stored_tail (List.mem_map_of_mem hb)]
        exact hmissing b (List.mem_cons_of_mem _ hb)

/-- A stored answer aborts the transaction. If the call succeeds all the same, the answer was the
last, and the others have been counted. -/
theorem recordFields_of_stored {answers : List Answer} {inserted : Nat}
    (hrows : Storable m (answers.map fun a => (a.id, a.record target entityId)))
    (hstored : ∃ a ∈ answers, Proposals.stored m (a.record target entityId) = true) :
    (recordFields .postgres target entityId inserted ⟨m, false⟩ answers).2.aborted = true ∧
      ∀ n, (recordFields .postgres target entityId inserted ⟨m, false⟩ answers).1 = .ok n →
        n + 1 = inserted + answers.length := by
  induction answers generalizing m inserted with
  | nil =>
      obtain ⟨a, ha, -⟩ := hstored
      cases ha
  | cons a answers ih =>
      rw [List.map_cons] at hrows
      unfold recordFields
      cases hhead : Proposals.stored m (a.record target entityId) with
      | true =>
          rw [insert_of_stored hhead]
          cases answers with
          | nil =>
              refine ⟨rfl, fun n hn => ?_⟩
              cases hn
              rfl
          -- the next insertion meets the aborted transaction
          | cons b answers => exact ⟨rfl, fun n hn => by cases hn⟩
      | false =>
          rw [insert_of_missing hrows.head hhead]
          dsimp only
          obtain ⟨b, hb, hbs⟩ := hstored
          have htail : ∃ c ∈ answers, Proposals.stored
              (OrderedMap.insert m a.id (a.record target entityId))
              (c.record target entityId) = true := by
            rcases List.mem_cons.mp hb with rfl | hb
            · rw [hhead] at hbs
              cases hbs
            · exact ⟨b, hb, by rw [hrows.stored_tail (List.mem_map_of_mem hb), hbs]⟩
          obtain ⟨haborted, hcount⟩ := ih hrows.tail htail
          refine ⟨haborted, fun n hn => ?_⟩
          rw [hcount n hn, List.length_cons]
          omega

theorem recordBatchAttempt_eq {number : Int} (hrunning : Running workspaceId jobs target.jobId number)
    (batch : Batch) :
    recordBatchAttempt backend workspaceId jobs number target ⟨m, false⟩ batch =
      recordFields backend target batch.entityId 0 ⟨m, false⟩ batch.answers := by
  simp [recordBatchAttempt, checkRunning_eq_ok.mpr hrunning]

theorem Batch.length_rows (target : Target) (batch : Batch) :
    (batch.rows target).length = batch.answers.length := List.length_map _

theorem Batch.add_rows (tally : Tally) (target : Target) (batch : Batch) :
    tally.add batch.answers.length =
      { tally with proposed := tally.proposed + (batch.rows target).length } := by
  rw [Tally.add, if_neg (fun hlength => batch.nonempty (List.length_eq_zero_iff.mp hlength)),
    batch.length_rows]

theorem Tally.proposed_add (tally : Tally) (written : Nat) :
    (tally.add written).proposed = tally.proposed + written := by
  unfold Tally.add
  split_ifs with hwritten
  · rw [hwritten]
    rfl
  · rfl

/-- If no pair is stored, the attempt records them all. -/
theorem recordBatches_of_missing {number : Int}
    (hrunning : Running workspaceId jobs target.jobId number) {batches : List Batch} {tally : Tally}
    (hrows : Storable m (batches.flatMap (Batch.rows target)))
    (hmissing : ∀ r ∈ batches.flatMap (Batch.rows target), Proposals.stored m r.2 = false) :
    recordBatches backend workspaceId jobs number target tally ⟨m, false⟩ batches =
      (.ok { tally with
          proposed := tally.proposed + (batches.flatMap (Batch.rows target)).length },
        ⟨Proposals.insertAll m (batches.flatMap (Batch.rows target)), false⟩) := by
  induction batches generalizing m tally with
  | nil => rfl
  | cons batch batches ih =>
      rw [List.flatMap_cons] at hrows hmissing ⊢
      obtain ⟨hright, hstored⟩ := hrows.right
      unfold recordBatches
      rw [recordBatchAttempt_eq hrunning, recordFields_of_missing hrows.left fun a ha =>
        hmissing _ (List.mem_append_left _ (List.mem_map_of_mem ha))]
      dsimp only
      rw [Nat.zero_add, batch.add_rows tally target]
      refine (ih hright fun r hr => ?_).trans ?_
      · rw [hstored r hr]
        exact hmissing r (List.mem_append_right _ hr)
      · rw [List.length_append, ← Nat.add_assoc, Proposals.insertAll, Proposals.insertAll,
          Proposals.insertAll, List.foldl_append]

/-- If some pair is stored, the transaction is aborted; where the attempt still succeeds, it has
counted all pairs but one. -/
theorem recordBatches_of_stored {number : Int}
    (hrunning : Running workspaceId jobs target.jobId number) {batches : List Batch} {tally : Tally}
    (hrows : Storable m (batches.flatMap (Batch.rows target)))
    (hstored : ∃ r ∈ batches.flatMap (Batch.rows target), Proposals.stored m r.2 = true)
    {tally' : Tally} {txn : RecordTxn}
    (hok : recordBatches .postgres workspaceId jobs number target tally ⟨m, false⟩ batches =
      (.ok tally', txn)) :
    txn.aborted = true ∧
      tally'.proposed + 1 = tally.proposed + (batches.flatMap (Batch.rows target)).length := by
  induction batches generalizing m tally with
  | nil =>
      obtain ⟨r, hr, -⟩ := hstored
      cases hr
  | cons batch batches ih =>
      rw [List.flatMap_cons] at hrows hstored ⊢
      unfold recordBatches at hok
      rw [recordBatchAttempt_eq hrunning] at hok
      by_cases hhere : ∃ a ∈ batch.answers,
          Proposals.stored m (a.record target batch.entityId) = true
      · obtain ⟨haborted, hcount⟩ := recordFields_of_stored hrows.left hhere
        split at hok
        · rename_i written txn' hfields
          rw [hfields] at haborted hcount
          have hwritten := hcount written rfl
          cases batches with
          | nil =>
              cases hok
              refine ⟨haborted, ?_⟩
              rw [Tally.proposed_add, List.flatMap_nil, List.append_nil, batch.length_rows]
              omega
          -- the next batch meets the aborted transaction
          | cons next batches =>
              dsimp only at haborted hok
              rw [recordBatches, recordBatchAttempt, if_pos haborted] at hok
              cases hok
        · cases hok
      · push Not at hhere
        have hmissing : ∀ a ∈ batch.answers,
            Proposals.stored m (a.record target batch.entityId) = false :=
          fun a ha => Bool.eq_false_iff.mpr (hhere a ha)
        rw [recordFields_of_missing hrows.left hmissing] at hok
        dsimp only at hok
        rw [Nat.zero_add, batch.add_rows tally target] at hok
        obtain ⟨hright, hkept⟩ := hrows.right
        obtain ⟨r, hr, hrs⟩ := hstored
        have hlater : r ∈ batches.flatMap (Batch.rows target) := by
          rcases List.mem_append.mp hr with hr | hr
          · obtain ⟨a, ha, rfl⟩ := List.mem_map.mp hr
            exact absurd hrs (hhere a ha)
          · exact hr
        obtain ⟨haborted, hcount⟩ := ih hright ⟨r, hlater, by rw [hkept r hlater, hrs]⟩ hok
        refine ⟨haborted, ?_⟩
        rw [hcount, List.length_append]
        dsimp only
        omega

end Insertions

/-! ## Redelivery -/

section Redelivery

variable (workspaceId : Uuid) (jobs : InferenceJobs) (target : Target)

/-- The rows whose pair is not stored yet. -/
def Attempt.missing (m : Proposals) (attempt : Attempt) : List (Uuid × ProposalRecord) :=
  (attempt.rows target).filter fun r => !Proposals.stored m r.2

/-- An attempt of a running job completes, adds one row for every pair that had none, and counts
the rows it added. -/
def RecordsOnce (m : Proposals) (attempt : Attempt) : Prop :=
  Running workspaceId jobs target.jobId attempt.number →
    ∃ skipped, recordAttempt .postgres workspaceId jobs target m attempt =
      (.ok ⟨(attempt.missing target m).length, skipped⟩,
        Proposals.insertAll m (attempt.missing target m))

variable {workspaceId jobs target} {m : Proposals} {attempt : Attempt}

theorem get?_insertAll {rows : List (Uuid × ProposalRecord)} (hrows : Storable m rows) {id : Uuid}
    {p : ProposalRecord} (hp : m.get? id = some p) :
    (Proposals.insertAll m rows).get? id = some p := by
  induction rows generalizing m with
  | nil => exact hp
  | cons r rows ih => exact ih hrows.tail (OrderedMap.get?_insert_of_absent hrows.head _ hp)

/-- A row that is inserted is there in the end. -/
theorem insertAll_eq_self {rows : List (Uuid × ProposalRecord)} (hrows : Storable m rows)
    (heq : Proposals.insertAll m rows = m) : rows = [] := by
  cases rows with
  | nil => rfl
  | cons r rows =>
      have hget : (Proposals.insertAll m (r :: rows)).get? r.1 = some r.2 :=
        get?_insertAll hrows.tail (by rw [OrderedMap.get?_insert, if_pos rfl])
      rw [heq, hrows.head] at hget
      cases hget

theorem Storable.filter {rows : List (Uuid × ProposalRecord)} (h : Storable m rows)
    (keep : Uuid × ProposalRecord → Bool) : Storable m (rows.filter keep) :=
  ⟨h.ids.sublist (List.filter_sublist.map _), fun r hr => h.free r (List.mem_of_mem_filter hr),
    h.apart.filter _⟩

/-- A single pair that is stored already: the transaction is aborted, but nothing is lost. -/
theorem recordAttempt_of_single (hrunning : Running workspaceId jobs target.jobId attempt.number)
    {r : Uuid × ProposalRecord} (hsingle : attempt.rows target = [r])
    (hstored : Proposals.stored m r.2 = true) :
    recordAttempt .postgres workspaceId jobs target m attempt =
      (.ok ⟨0, attempt.skipped + 1⟩, m) := by
  unfold Attempt.rows at hsingle
  have hbatch : ∃ batch, attempt.batches = [batch] ∧ batch.rows target = [r] := by
    cases hbatches : attempt.batches with
    | nil =>
        rw [hbatches] at hsingle
        cases hsingle
    | cons batch batches =>
        rw [hbatches, List.flatMap_cons] at hsingle
        have hlength := congrArg List.length hsingle
        rw [List.length_append, List.length_singleton, batch.length_rows] at hlength
        have hpos : 0 < batch.answers.length := List.length_pos_of_ne_nil batch.nonempty
        cases batches with
        | nil => exact ⟨batch, rfl, by rwa [List.flatMap_nil, List.append_nil] at hsingle⟩
        | cons next batches =>
            have hnext : 0 < next.answers.length := List.length_pos_of_ne_nil next.nonempty
            rw [List.flatMap_cons, List.length_append, next.length_rows] at hlength
            omega
  obtain ⟨batch, hbatches, hrow⟩ := hbatch
  have hanswer : ∃ a, batch.answers = [a] ∧ r = (a.id, a.record target batch.entityId) := by
    obtain ⟨a, ha, hr⟩ := List.map_eq_singleton_iff.mp hrow
    exact ⟨a, ha, hr.symm⟩
  obtain ⟨a, ha, rfl⟩ := hanswer
  rw [recordAttempt, hbatches, recordBatches, recordBatchAttempt_eq hrunning, ha, recordFields,
    insert_of_stored hstored]
  rfl

/-- **One attempt.** It is recorded as it should be if and only if none of its pairs is stored, or
it has a single pair. -/
theorem recordsOnce_step (hrows : Storable m (attempt.rows target)) :
    RecordsOnce workspaceId jobs target m attempt ↔
      (Running workspaceId jobs target.jobId attempt.number →
        (∀ r ∈ attempt.rows target, Proposals.stored m r.2 = false) ∨
          (attempt.rows target).length = 1) := by
  unfold RecordsOnce
  refine forall_congr' fun hrunning => ?_
  constructor
  · rintro ⟨skipped, h⟩
    by_contra hcondition
    push Not at hcondition
    obtain ⟨⟨r, hr, hstored⟩, hlength⟩ := hcondition
    unfold recordAttempt at h
    split at h
    · rename_i tally txn hbatches
      obtain ⟨haborted, hcount⟩ := recordBatches_of_stored hrunning hrows
        ⟨r, hr, Bool.eq_true_of_not_eq_false hstored⟩ hbatches
      rw [if_pos haborted, Prod.mk.injEq, Except.ok.injEq] at h
      -- nothing was added, so nothing was missing and nothing may be counted
      have hnone : attempt.missing target m = [] := insertAll_eq_self (hrows.filter _) h.2.symm
      rw [h.1, hnone] at hcount
      exact hlength (by rw [Attempt.rows]; simpa using hcount.symm)
    · cases h
  · intro hcondition
    by_cases hmissing : ∀ r ∈ attempt.rows target, Proposals.stored m r.2 = false
    · have hall : attempt.missing target m = attempt.rows target := by
        refine List.filter_eq_self.mpr fun r hr => ?_
        rw [hmissing r hr]
        rfl
      refine ⟨attempt.skipped, ?_⟩
      rw [hall, recordAttempt, recordBatches_of_missing hrunning hrows hmissing, Attempt.rows,
        Nat.zero_add]
      rfl
    · obtain ⟨r, hsingle⟩ := List.length_eq_one_iff.mp (hcondition.resolve_left hmissing)
      have hstored : Proposals.stored m r.2 = true := by
        rw [hsingle] at hmissing
        simpa using hmissing
      have hnone : attempt.missing target m = [] := by
        simp [Attempt.missing, hsingle, hstored]
      exact ⟨attempt.skipped + 1, by rw [hnone, recordAttempt_of_single hrunning hsingle hstored]; rfl⟩

/-- The pairs of an attempt are distinct. -/
theorem Attempt.apart (attempt : Attempt) (target : Target) :
    (attempt.rows target).Pairwise fun a b => a.2.clash b.2 = false := by
  unfold Attempt.rows
  rw [List.pairwise_flatMap]
  constructor
  · intro batch hbatch
    have hfields := List.pairwise_map.mp batch.distinct
    refine List.pairwise_map.mpr (hfields.imp fun {a b} hne => ?_)
    simp [ProposalRecord.clash, Answer.record, hne]
  · refine (List.pairwise_map.mp attempt.distinct).imp fun {a b} hne x hx y hy => ?_
    obtain ⟨a', -, rfl⟩ := List.mem_map.mp hx
    obtain ⟨b', -, rfl⟩ := List.mem_map.mp hy
    simp [ProposalRecord.clash, Answer.record, hne]

theorem get?_recordAttempt_eq_none {backend : Backend} {id : Uuid} (hid : m.get? id = none)
    (hne : id ∉ (attempt.rows target).map Prod.fst) :
    (recordAttempt backend workspaceId jobs target m attempt).2.get? id = none := by
  refine recordAttempt_induction (P := fun m => m.get? id = none) ?_ hid
  intro _ batch hbatch answer hanswer m₁ m₂ hm hinsert
  unfold Proposals.insertRow at hinsert
  split_ifs at hinsert
  cases hinsert
  have hrow : answer.id ∈ (attempt.rows target).map Prod.fst :=
    List.mem_map.mpr ⟨_, List.mem_flatMap.mpr ⟨batch, hbatch, List.mem_map_of_mem hanswer⟩, rfl⟩
  have hid' : id ≠ answer.id := by
    rintro rfl
    exact hne hrow
  rw [OrderedMap.get?_insert, if_neg hid']
  exact hm

/-- A delivery: the job table that the attempt finds, and what it records. -/
abbrev Delivery := InferenceJobs × Attempt

/-- The proposals after a delivery. -/
def deliver (workspaceId : Uuid) (target : Target) (m : Proposals) (d : Delivery) : Proposals :=
  (recordAttempt .postgres workspaceId d.1 target m d.2).2

/-- `Uuid::now_v7` gives no identifier twice, and none that a row has. -/
structure FreshIds (target : Target) (m : Proposals) (deliveries : List Delivery) : Prop where
  nodup : (deliveries.flatMap fun d => (d.2.rows target).map Prod.fst).Nodup
  free : ∀ id ∈ deliveries.flatMap fun d => (d.2.rows target).map Prod.fst, m.get? id = none

theorem FreshIds.head {d : Delivery} {deliveries : List Delivery}
    (h : FreshIds target m (d :: deliveries)) : Storable m (d.2.rows target) := by
  have hnodup := h.nodup
  rw [List.flatMap_cons, List.nodup_append] at hnodup
  refine ⟨hnodup.1, fun r hr => h.free r.1 ?_, d.2.apart target⟩
  rw [List.flatMap_cons]
  exact List.mem_append_left _ (List.mem_map_of_mem hr)

theorem FreshIds.tail {d : Delivery} {deliveries : List Delivery}
    (h : FreshIds target m (d :: deliveries)) :
    FreshIds target (deliver workspaceId target m d) deliveries := by
  have hnodup := h.nodup
  rw [List.flatMap_cons, List.nodup_append] at hnodup
  refine ⟨hnodup.2.1, fun id hid => get?_recordAttempt_eq_none ?_ ?_⟩
  · refine h.free id ?_
    rw [List.flatMap_cons]
    exact List.mem_append_right _ hid
  · exact fun hmem => hnodup.2.2 id hmem id hid rfl

/-- **Redeliveries.** Over any sequence of attempts of one job under one version, every attempt is
recorded as it should be if and only if every attempt of a running job proposes pairs that are not
stored yet, or a single pair. -/
theorem recordsOnce_iff (workspaceId : Uuid) (target : Target) (m : Proposals)
    (deliveries : List Delivery) (hids : FreshIds target m deliveries) :
    StepsMeet (deliver workspaceId target)
        (fun m d => RecordsOnce workspaceId d.1 target m d.2) m deliveries ↔
      StepsMeet (deliver workspaceId target)
        (fun m d => Running workspaceId d.1 target.jobId d.2.number →
          (∀ r ∈ d.2.rows target, Proposals.stored m r.2 = false) ∨ (d.2.rows target).length = 1)
        m deliveries := by
  induction deliveries generalizing m with
  | nil => exact Iff.rfl
  | cons d deliveries ih => exact and_congr (recordsOnce_step hids.head) (ih _ hids.tail)

end Redelivery

/-! ### An attempt that died before it completed -/

/-- Job 5 is running under the number. -/
def runningJobs (number : Int) : InferenceJobs where
  rows := OrderedMap.ofList
    [ (5,
        { workspaceId := 0
          schemaName := "people"
          status := .running
          applied := 0
          proposed := 0
          skipped := 0
          error := none
          attempt := number }) ]
  unique := List.pairwise_singleton _ _

def peopleTarget : Target := { jobId := 5, schemaId := 2, schemaVersion := 2 }

/-- An age and a name for person 7, under the given identifiers. -/
def ageAndName (number : Int) (ageId nameId : Uuid) : Attempt where
  number := number
  skipped := 0
  batches :=
    [ { entityId := 7
        answers :=
          [ { id := ageId, sourceField := "age", proposed := .string "30" },
            { id := nameId, sourceField := "name", proposed := .string "Aki" } ]
        nonempty := List.cons_ne_nil _ _
        distinct := show ["age", "name"].Nodup by decide } ]
  distinct := List.nodup_singleton _

/-- The first attempt records both values and is lost; the second proposes them again. -/
def lostAttempt : List Delivery :=
  [(runningJobs 1, ageAndName 1 100 101), (runningJobs 2, ageAndName 2 102 103)]

theorem recordsOnce_iff_lostAttempt :
    FreshIds peopleTarget OrderedMap.empty (lostAttempt.take 1) ∧
      StepsMeet (deliver 0 peopleTarget) (fun m d => RecordsOnce 0 d.1 peopleTarget m d.2)
        OrderedMap.empty (lostAttempt.take 1) := by
  have hids : FreshIds peopleTarget OrderedMap.empty (lostAttempt.take 1) :=
    ⟨by decide, fun _ _ => rfl⟩
  refine ⟨hids, (recordsOnce_iff 0 peopleTarget OrderedMap.empty _ hids).mpr ⟨fun _ => ?_, trivial⟩⟩
  exact Or.inl (by decide)

/-- The second attempt fails although its job is running under its number. -/
theorem not_recordsOnce_lostAttempt :
    ¬StepsMeet (deliver 0 peopleTarget) (fun m d => RecordsOnce 0 d.1 peopleTarget m d.2)
      OrderedMap.empty lostAttempt := by
  intro h
  obtain ⟨skipped, hrecorded⟩ := h.2.1 ⟨_, rfl, rfl, rfl, rfl⟩
  have hfailed : (recordAttempt .postgres 0 (runningJobs 2) peopleTarget
      (deliver 0 peopleTarget OrderedMap.empty (runningJobs 1, ageAndName 1 100 101))
      (ageAndName 2 102 103)).1 = .error (.internal abortedTxn) := rfl
  rw [hrecorded] at hfailed
  cases hfailed

end Yorishiro.Entity
