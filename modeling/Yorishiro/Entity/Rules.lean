import Yorishiro.Entity.Programs

/-!
# Rules for the entity transactions

One rule for each transaction of `Entity.Programs`: from what its writes need, its
weakest precondition. A rule says what the transaction knows when it writes, namely
the rows it has read, the checks that have passed and the filter of its `UPDATE`,
and leaves open what is claimed about the write. `code_rule` puts the rules
together for the jobs of a workspace.
-/

set_option autoImplicit false

namespace Yorishiro.Entity

open Yorishiro.Lib Yorishiro.Lib.JsonSchema Yorishiro.Metaschema Yorishiro.Schema
open Yorishiro.Queue (Instant)

/-- What is known of the entities and of the tables beside them. -/
abbrev EntityWorld := World Uuid EntityRow Tables

/-- What the writes of a job assume and guarantee. -/
abbrev EntityContract := Contract Uuid EntityRow Stamp

/-- The statements that change the tables beside the entities stay within the world. -/
structure KeepsTables (W : EntityWorld) : Prop where
  insertSnapshot : ∀ entityId jobId look b, (∀ k x, look k = some x → W.row k x) → W.table b →
    W.table (insertSnapshot entityId jobId look b).1
  deleteSnapshot : ∀ entityId jobId look b, W.table b →
    W.table (deleteSnapshot entityId jobId look b).1
  markEntity : ∀ jobId entityId status look b, W.table b →
    W.table (markEntity jobId entityId status look b).1

/-- A write leaves what its contract guarantees and a row of the world. -/
def Leaves (W : EntityWorld) (C : EntityContract) (seen : List (Uuid × EntityRow))
    (wrote : List Uuid) (k : Uuid) (stamp : Stamp) (x : EntityRow) (o : Option EntityRow) : Prop :=
  C.writes seen wrote k stamp x o ∧ ∀ y, o = some y → W.row k y

/-- No statement of these transactions changes a schema. -/
theorem KeepsTables.of_schemas (row : Uuid → EntityRow → Prop) (schemas : Schemas) :
    KeepsTables { row := row, table := fun b => b.schemas = schemas } where
  insertSnapshot := by
    intro entityId jobId look b _ hb
    unfold Entity.insertSnapshot
    split <;> exact hb
  deleteSnapshot := fun _ _ _ _ hb => hb
  markEntity := fun _ _ _ _ _ hb => hb

section Rules

variable {W : EntityWorld} {C : EntityContract} {seen : List (Uuid × EntityRow)}
  {wrote : List Uuid}

theorem Leaves.intro {k : Uuid} {stamp : Stamp} {x y : EntityRow}
    (hwrites : C.writes seen wrote k stamp x (some y)) (hrow : W.row k y) :
    Leaves W C seen wrote k stamp x (some y) :=
  ⟨hwrites, fun _ hz => Option.some.inj hz ▸ hrow⟩

theorem findById_rule {id : Uuid}
    {post : List (Uuid × EntityRow) → List Uuid → List (Uuid × EntityRow) → Prop}
    (hnone : post seen wrote [])
    (hsome : ∀ existing, W.row id existing →
      post (seen ++ [(id, existing)]) wrote [(id, existing)]) :
    Prog.wp W C (findById id) post seen wrote := by
  rw [findById, Prog.wp_rows]
  intro b rows _ hnodup hrows
  have hkey : ∀ e ∈ rows, e.1 = id := fun e he => of_decide_eq_true (hrows e he).2
  rcases rows with _ | ⟨⟨k, existing⟩, _ | ⟨e, rest⟩⟩
  · rw [List.append_nil]
    exact hnone
  · obtain rfl : k = id := hkey (k, existing) List.mem_cons_self
    exact hsome existing (hrows _ List.mem_cons_self).1
  · -- Two rows would have the same key.
    have h₁ := hkey (k, existing) List.mem_cons_self
    have h₂ := hkey e (List.mem_cons_of_mem _ List.mem_cons_self)
    apply absurd (h₁.trans h₂.symm)
    exact fun heq => (List.nodup_cons.mp hnodup).1 (heq ▸ List.mem_cons_self)

/-! ## Update and delete -/

/-- When `update` writes, the new data has passed the checks of the version that the row it
read is on; with an expected time, that row has this time and the row it finds the same
token. -/
theorem update_rule {cx : Context} {input : UpdateEntityInput}
    {post : List (Uuid × EntityRow) → List Uuid → EntityRow → Prop}
    (hwrite : ∀ b existing stamp x, W.table b → W.row input.id existing → W.row input.id x →
      (∀ expected, input.expectedUpdatedAt = some expected → existing.updatedAt = expected ∧
        x.embeddingSyncToken = existing.embeddingSyncToken) →
      checkData cx b.schemas existing input.data = .ok () →
      C.calm [(input.id, existing)] [] input.id x →
      Leaves W C [(input.id, existing)] [] input.id stamp x
        (some (x.withData input.data input.updatedBy stamp)))
    (hpost : ∀ existing row, post [(input.id, existing)] [input.id] row) :
    Prog.wp W C (update cx input) post [] [] := by
  rw [update, Prog.wp_bind]
  apply findById_rule
  -- an absent entity aborts, which owes nothing
  · trivial
  · intro existing hexisting
    show Prog.wp W C (ite _ _ _) _ _ _
    split
    · trivial
    · rename_i hstale
      have hexpected : ∀ expected, input.expectedUpdatedAt = some expected →
          existing.updatedAt = expected := by
        intro expected he
        simpa [he] using hstale
      rw [Prog.wp_bind, Prog.wp_read]
      intro b hb
      rw [Prog.wp_bind, Prog.wp_ofExcept]
      intro _ hcheck
      rw [Prog.wp_bind, Prog.wp_update]
      -- the write itself, then the two ways to go on: with the new row, or refused
      refine ⟨?_, ?_, ?_⟩
      · intro stamp x hx hfilter hcalm
        refine hwrite b existing stamp x hb hexisting hx ?_ hcheck hcalm
        intro expected he
        refine ⟨hexpected expected he, ?_⟩
        simpa [he] using hfilter
      · intro stamp x _ _
        exact hpost existing _
      · trivial

theorem delete_rule {id : Uuid} {post : List (Uuid × EntityRow) → List Uuid → Unit → Prop}
    (hwrite : ∀ stamp x, W.row id x → C.calm [] [] id x → C.writes [] [] id stamp x none)
    (hpost : post [] [id] ()) : Prog.wp W C (delete id) post [] [] := by
  rw [delete, Prog.wp_bind, Prog.wp_update]
  refine ⟨?_, ?_, ?_⟩
  · intro stamp x hx _ hcalm
    exact ⟨hwrite stamp x hx hcalm, fun y hy => by cases hy⟩
  · intro stamp x _ _
    exact hpost
  · trivial

/-! ## Snapshots -/

/-- What `undo_job` writes comes from a stored snapshot. -/
theorem undoJob_rule {jobId : Uuid}
    (hwrite : ∀ b snap wrote stamp x, W.table b → snap ∈ b.snapshots → W.row snap.entityId x →
      C.calm [] wrote snap.entityId x →
      Leaves W C [] wrote snap.entityId stamp x
        (some (x.restamped snap.data snap.schemaId snap.schemaVersion stamp))) :
    Prog.wp W C (undoJob jobId) (fun _ _ _ => True) [] [] := by
  rw [undoJob, Prog.wp_bind, Prog.wp_read]
  intro b hb
  dsimp only
  split
  · trivial
  -- each step of the loop restores one of the snapshots read at the start
  · refine Prog.wp_mono (Prog.wp_foldlM restore
      (fun snaps seen _ _ => seen = [] ∧ ∀ snap ∈ snaps, snap ∈ b.snapshots) ?_ ⟨rfl, ?_⟩)
      fun _ _ _ _ => trivial
    · rintro snap snaps _ wrote report ⟨rfl, hsnaps⟩
      have hrest : ∀ s ∈ snaps, s ∈ b.snapshots := fun s hs =>
        hsnaps s (List.mem_cons_of_mem _ hs)
      rw [restore, Prog.wp_bind, Prog.wp_update]
      refine ⟨?_, ?_, ?_⟩
      · intro stamp x hx _ hcalm
        exact hwrite b snap wrote stamp x hb (hsnaps snap List.mem_cons_self) hx hcalm
      · intro stamp x _ _
        exact ⟨rfl, hrest⟩
      · exact ⟨rfl, hrest⟩
    · intro snap hsnap
      exact List.mem_of_mem_filter hsnap

/-! ## Filling defaults -/

/-- What `fill_defaults` knows when it writes row `k`: the row `record` that its first
statement read was behind the active version, whose definition of the entity type is `t`. -/
structure Filling (schemas : Schemas) (args : FillDefaultsArgs)
    (seen : List (Uuid × EntityRow)) (wrote : List Uuid) (k : Uuid) (record : EntityRow)
    (active : Uuid × SchemaRecord) (t : EntityTypeDef) : Prop where
  read : (k, record) ∈ seen
  first : k ∉ wrote
  resolved : getActiveSchema schemas args.schemaName = .ok active
  type : active.2.definition.entityTypes.get? record.entityType = some t
  behind : (schemas.get? record.schemaId).any (fun schema =>
    decide (schema.name = args.schemaName)) = true ∧ record.schemaId ≠ active.1

/-- `fill_defaults` writes each entity that it read at most once, and writes what it makes
of the data it read. -/
theorem fillDefaults_rule {args : FillDefaultsArgs} {schemas : Schemas} (hkeeps : KeepsTables W)
    (hschemas : ∀ b, W.table b → b.schemas = schemas)
    (hwrite : ∀ seen wrote k record active t stamp x,
      Filling schemas args seen wrote k record active t → W.row k record → W.row k x →
      C.calm seen wrote k x →
      Leaves W C seen wrote k stamp x
        (some (x.withData (fillFieldsInValue t.trees record.data).1 args.updatedBy stamp))) :
    Prog.wp W C (fillDefaults args) (fun _ _ _ => True) [] [] := by
  rw [fillDefaults, Prog.wp_bind, Prog.wp_read]
  intro b hb
  rw [Prog.wp_bind, Prog.wp_ofExcept, hschemas b hb]
  rintro ⟨activeId, active⟩ hactive
  rw [Prog.wp_bind, Prog.wp_rows]
  intro b' rows hb' hnodup hrows
  -- the entities still to come have been read, and none of them has been written
  refine Prog.wp_mono (Prog.wp_foldlM (fillEntity args active)
    (fun records seen wrote _ => (records.map Prod.fst).Nodup ∧ ∀ e ∈ records,
      e ∈ seen ∧ e.1 ∉ wrote ∧ W.row e.1 e.2 ∧ isBehind args activeId b' e.1 e.2 = true) ?_ ?_)
    fun _ _ _ _ => trivial
  · rintro ⟨k, record⟩ records seen wrote report ⟨hnodup, hrecords⟩
    obtain ⟨hread, hfirst, hrecord, hbehind⟩ := hrecords (k, record) List.mem_cons_self
    obtain ⟨hk, hnodup'⟩ := List.nodup_cons.mp hnodup
    have hrest : ∀ e ∈ records,
        e ∈ seen ∧ e.1 ∉ wrote ∧ W.row e.1 e.2 ∧ isBehind args activeId b' e.1 e.2 = true :=
      fun e he => hrecords e (List.mem_cons_of_mem _ he)
    rw [fillEntity]
    cases htype : active.definition.entityTypes.get? record.entityType with
    -- a type that the active version no longer has is skipped
    | none => exact ⟨hnodup', hrest⟩
    | some t =>
        rw [Prog.wp_bind, Prog.wp_change]
        refine ⟨hkeeps.insertSnapshot k args.jobId, fun taken => ?_⟩
        split_ifs with htaken
        · exact ⟨hnodup', hrest⟩
        · dsimp only
          split_ifs with hfilled
          · exact ⟨hnodup', hrest⟩
          · rw [Prog.wp_bind, Prog.wp_update]
            refine ⟨?_, ?_, ⟨hnodup', hrest⟩⟩
            · intro stamp x hx _ hcalm
              rw [isBehind, hschemas b' hb', Bool.and_eq_true, decide_eq_true_iff] at hbehind
              exact hwrite seen wrote k record (activeId, active) t stamp x
                ⟨hread, hfirst, hactive, htype, hbehind⟩ hrecord hx hcalm
            · intro stamp x _ _
              refine ⟨hnodup', fun e he => ?_⟩
              obtain ⟨h₁, h₂, h₃, h₄⟩ := hrest e he
              -- the keys of the rows read are distinct, so the rest is still unwritten
              refine ⟨h₁, ?_, h₃, h₄⟩
              rw [List.mem_append, List.mem_singleton, not_or]
              exact ⟨h₂, fun heq => hk (List.mem_map.mpr ⟨e, he, heq⟩)⟩
  · refine ⟨hnodup, fun e he => ?_⟩
    exact ⟨he, List.not_mem_nil, hrows e he⟩

/-! ## Confirming proposals -/

/-- What `confirm` knows when it writes row `k`: the row `existing` it read, and that the
new data is valid for the version it moves the row to. -/
structure Confirming (cx : Context) (schemas : Schemas) (k : Uuid) (existing : EntityRow)
    (target : Uuid × SchemaRecord) (data : Json) (t : EntityTypeDef) : Prop where
  stored : schemas.get? target.1 = some target.2
  type : target.2.definition.entityTypes.get? existing.entityType = some t
  valid : validateData cx.validator t data = .ok ()

theorem ensureEntityMarked_rule (hkeeps : KeepsTables W) {jobId entityId : Uuid}
    {status : ProposalStatus} {expected : Nat}
    {post : List (Uuid × EntityRow) → List Uuid → Unit → Prop} (hpost : post seen wrote ()) :
    Prog.wp W C (ensureEntityMarked jobId entityId status expected) post seen wrote := by
  rw [ensureEntityMarked, Prog.wp_bind, Prog.wp_change]
  refine ⟨fun look b _ => hkeeps.markEntity jobId entityId status look b, fun marked => ?_⟩
  split_ifs
  · exact hpost
  · trivial

theorem settle_rule (hkeeps : KeepsTables W) {jobId entityId : Uuid} {status : ProposalStatus}
    {n : Nat} {report : ConfirmReport} :
    Prog.wp W C (settle jobId entityId status n report) (fun _ _ _ => True) seen wrote := by
  rw [settle.eq_def, Prog.wp_bind]
  apply ensureEntityMarked_rule hkeeps
  cases status <;> trivial

theorem writeConfirmed_rule (hkeeps : KeepsTables W) {jobId entityId : Uuid}
    {updatedBy : Option Uuid} {target : Uuid × SchemaRecord} {existing : EntityRow} {data : Json}
    {n : Nat} {report : ConfirmReport}
    (hwrite : ∀ stamp x, W.row entityId x → x.updatedAt = existing.updatedAt →
      C.calm seen wrote entityId x →
      Leaves W C seen wrote entityId stamp x
        (some (x.confirmed data target updatedBy stamp))) :
    Prog.wp W C (writeConfirmed jobId entityId updatedBy target existing data n report)
      (fun _ _ _ => True) seen wrote := by
  rw [writeConfirmed, snapshot, Prog.wp_bind, Prog.wp_bind, Prog.wp_change]
  refine ⟨hkeeps.insertSnapshot entityId jobId, fun taken => ?_⟩
  split_ifs
  · trivial
  · rw [Prog.wp_pure, Prog.wp_bind, Prog.wp_update]
    refine ⟨?_, ?_, ?_⟩
    · intro stamp x hx hfilter hcalm
      exact hwrite stamp x hx (of_decide_eq_true hfilter) hcalm
    · intro stamp x _ _
      exact settle_rule hkeeps
    · rw [Prog.wp_bind, Prog.wp_change]
      exact ⟨fun look b _ => hkeeps.deleteSnapshot entityId jobId look b,
        fun _ => settle_rule hkeeps⟩

/-- What `confirm` writes is valid for the version it moves the row to. -/
theorem confirmRow_rule (hkeeps : KeepsTables W) {cx : Context} {schemas : Schemas}
    {jobId entityId activeId : Uuid} {updatedBy : Option Uuid} {target : Uuid × SchemaRecord}
    {existing : EntityRow} {proposals : List ProposalRecord} {report : ConfirmReport}
    (hstored : schemas.get? target.1 = some target.2)
    (hwrite : ∀ data t stamp x, Confirming cx schemas entityId existing target data t →
      W.row entityId x → x.updatedAt = existing.updatedAt → C.calm seen wrote entityId x →
      Leaves W C seen wrote entityId stamp x
        (some (x.confirmed data target updatedBy stamp))) :
    Prog.wp W C (confirmRow cx jobId entityId updatedBy target activeId existing proposals report)
      (fun _ _ _ => True) seen wrote := by
  rw [confirmRow]
  split_ifs
  · exact settle_rule hkeeps
  -- the ways not to write: data that is no object, an unknown type, invalid data
  · split
    · split
      · exact settle_rule hkeeps
      · rename_i t htype
        dsimp only
        split
        · rename_i hvalid
          apply writeConfirmed_rule hkeeps
          intro stamp x
          exact hwrite _ t stamp x ⟨hstored, htype, hvalid⟩
        · exact settle_rule hkeeps
        · trivial
    · exact settle_rule hkeeps

theorem confirm_rule {cx : Context} {schemas : Schemas} {jobId : Uuid} {updatedBy : Option Uuid}
    (hkeeps : KeepsTables W) (hschemas : ∀ b, W.table b → b.schemas = schemas)
    (hwrite : ∀ seen wrote k existing target data t stamp x, (k, existing) ∈ seen →
      Confirming cx schemas k existing target data t → W.row k existing → W.row k x →
      x.updatedAt = existing.updatedAt → C.calm seen wrote k x →
      Leaves W C seen wrote k stamp x
        (some (x.confirmed data target updatedBy stamp))) :
    Prog.wp W C (confirm cx jobId updatedBy) (fun _ _ _ => True) [] [] := by
  rw [confirm, Prog.wp_bind, Prog.wp_read]
  intro b hb
  rw [Prog.wp_bind, Prog.wp_ofExcept]
  intro _ _
  rw [Prog.wp_bind, Prog.wp_read]
  intro b' hb'
  split
  · trivial
  · refine Prog.wp_foldlM (confirmEntity cx jobId updatedBy) (fun _ _ _ _ => True) ?_ trivial
    rintro ⟨k, proposals⟩ _ seen wrote report -
    rw [confirmEntity]
    split
    · trivial
    · rename_i first rest heq
      rw [Prog.wp_bind, Prog.wp_lockRow, Prog.wp_bind, Prog.wp_read]
      intro b₁ hb₁
      rw [Prog.wp_bind, Prog.wp_ofExcept, hschemas b₁ hb₁]
      intro target htarget
      rw [Prog.wp_bind, Prog.wp_read]
      intro b₂ _
      rw [Prog.wp_bind, Prog.wp_ofExcept]
      intro active _
      rw [Prog.wp_bind]
      -- the row is read after it was locked, so the read is among what the transaction has seen
      apply findById_rule
      · exact settle_rule hkeeps
      · intro existing hexisting
        have hstored : schemas.get? first.schemaId = some target := getById_eq_ok.mp htarget
        apply confirmRow_rule hkeeps hstored
        intro data t stamp x hconfirming hx
        have hread : (k, existing) ∈ seen ++ [(k, existing)] :=
          List.mem_append_right _ List.mem_cons_self
        exact hwrite _ _ k existing _ data t stamp x hread hconfirming hexisting hx

/-! ## The jobs -/

/-- The obligations of a job's writes. -/
structure Obeys (W : EntityWorld) (C : EntityContract) (cx : Context) (schemas : Schemas)
    (job : Job) : Prop where
  update : ∀ input existing stamp x, job = .update input → W.row input.id existing →
    W.row input.id x →
    (∀ expected, input.expectedUpdatedAt = some expected → existing.updatedAt = expected ∧
      x.embeddingSyncToken = existing.embeddingSyncToken) →
    checkData cx schemas existing input.data = .ok () →
    C.calm [(input.id, existing)] [] input.id x →
    Leaves W C [(input.id, existing)] [] input.id stamp x
      (some (x.withData input.data input.updatedBy stamp))
  delete : ∀ id stamp x, job = .delete id → W.row id x → C.calm [] [] id x →
    C.writes [] [] id stamp x none
  fill : ∀ args seen wrote k record active t stamp x, job = .fillDefaults args →
    Filling schemas args seen wrote k record active t → W.row k record → W.row k x →
    C.calm seen wrote k x →
    Leaves W C seen wrote k stamp x
      (some (x.withData (fillFieldsInValue t.trees record.data).1 args.updatedBy stamp))
  undo : ∀ jobId b snap wrote stamp x, job = .undoJob jobId → W.table b → snap ∈ b.snapshots →
    W.row snap.entityId x → C.calm [] wrote snap.entityId x →
    Leaves W C [] wrote snap.entityId stamp x
      (some (x.restamped snap.data snap.schemaId snap.schemaVersion stamp))
  confirm : ∀ jobId updatedBy seen wrote k existing target data t stamp x,
    job = .confirm jobId updatedBy → (k, existing) ∈ seen →
    Confirming cx schemas k existing target data t → W.row k existing → W.row k x →
    x.updatedAt = existing.updatedAt → C.calm seen wrote k x →
    Leaves W C seen wrote k stamp x (some (x.confirmed data target updatedBy stamp))

/-- What a job has read and written when it commits, as far as the results about runs need
it: an update has written its entity and nothing else. -/
def JobPost (job : Job) (_ : List (Uuid × EntityRow)) (wrote : List Uuid) (_ : Reply) : Prop :=
  ∀ input, job = .update input → wrote = [input.id]

/-- **Job rule.** A job whose writes meet their obligations has its weakest precondition. -/
theorem code_rule {cx : Context} {schemas : Schemas} (hkeeps : KeepsTables W)
    (hschemas : ∀ b, W.table b → b.schemas = schemas) {job : Job} (h : Obeys W C cx schemas job) :
    Prog.wp W C (code cx job) (JobPost job) [] [] := by
  cases job with
  | update input =>
      rw [code, Prog.wp_bind]
      apply update_rule
      · intro b existing stamp x hb hexisting hx hguard hcheck hcalm
        rw [hschemas b hb] at hcheck
        exact h.update input existing stamp x rfl hexisting hx hguard hcheck hcalm
      · rintro existing row input' heq
        cases heq
        rfl
  | delete id =>
      rw [code, Prog.wp_bind]
      apply delete_rule
      · intro stamp x hx hcalm
        exact h.delete id stamp x rfl hx hcalm
      · intro input heq
        cases heq
  | fillDefaults args =>
      rw [code, Prog.wp_bind]
      refine Prog.wp_mono (fillDefaults_rule hkeeps hschemas ?_) ?_
      · intro seen wrote k record active t stamp x
        exact h.fill args seen wrote k record active t stamp x rfl
      · intro _ _ _ _ input heq
        cases heq
  | undoJob jobId =>
      rw [code, Prog.wp_bind]
      refine Prog.wp_mono (undoJob_rule ?_) ?_
      · intro b snap wrote stamp x
        exact h.undo jobId b snap wrote stamp x rfl
      · intro _ _ _ _ input heq
        cases heq
  | confirm jobId updatedBy =>
      rw [code, Prog.wp_bind]
      refine Prog.wp_mono (confirm_rule hkeeps hschemas ?_) ?_
      · intro seen wrote k existing target data t stamp x
        exact h.confirm jobId updatedBy seen wrote k existing target data t stamp x rfl
      · intro _ _ _ _ input heq
        cases heq

end Rules

end Yorishiro.Entity
