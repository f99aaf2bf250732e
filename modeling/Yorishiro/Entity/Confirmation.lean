import Yorishiro.Entity.Workspace

/-!
# Confirming proposals

`confirm` settles the pending proposals of a job entity by entity. `confirmEntity_ends` says what
it does for one entity: the proposals get one status, they are counted, and only if it is
`confirmed` is the entity written and a snapshot kept. `confirm_accounts` puts the entities
together.
-/

set_option autoImplicit false

namespace Yorishiro.Entity

open Yorishiro.Lib Yorishiro.Lib.JsonSchema Yorishiro.Metaschema Yorishiro.Schema

/-! ## Pending proposals by entity -/

/-- The proposal is a pending one of the job. -/
def ProposalRecord.isPending (jobId : Uuid) (p : ProposalRecord) : Bool :=
  decide (p.jobId = jobId) && decide (p.status = .pending)

/-- The pending proposals of the job for the entity, in the order of `for_job`. -/
def pendingFor (tables : Tables) (jobId entityId : Uuid) : List ProposalRecord :=
  ((forJob tables jobId).filter fun p => decide (p.status = .pending)).filter fun p =>
    decide (p.entityId = entityId)

theorem get?_byEntity (tables : Tables) (jobId k : Uuid) :
    (byEntity tables jobId).get? k =
      if pendingFor tables jobId k = [] then none else some (pendingFor tables jobId k) := by
  unfold byEntity pendingFor
  rw [OrderedMap.get?_foldl_group]
  rfl

theorem mem_pendingFor {tables : Tables} {jobId k : Uuid} {p : ProposalRecord} :
    p ∈ pendingFor tables jobId k ↔
      (∃ id, tables.proposals.get? id = some p) ∧ p.isPending jobId = true ∧ p.entityId = k := by
  unfold pendingFor forJob ProposalRecord.isPending
  simp only [List.mem_filter, List.mem_insertionSort, List.mem_map, Prod.exists,
    exists_eq_right, OrderedMap.mem_entries_iff, decide_eq_true_eq, Bool.and_eq_true]
  tauto

/-! ## One entity -/

/-- The filter of `ensure_entity_marked`. -/
def isSettled (jobId entityId : Uuid) (p : ProposalRecord) : Bool :=
  decide (p.jobId = jobId) && decide (p.entityId = entityId) && decide (p.status = .pending)

/-- The three ways to settle a proposal. -/
def ProposalStatus.settles : ProposalStatus → Bool
  | .confirmed | .stale | .invalid => true
  | .pending | .rejected | .discarded => false

/-- The report with `n` more proposals of the status. -/
def ConfirmReport.add (report : ConfirmReport) (n : Nat) : ProposalStatus → ConfirmReport
  | .confirmed => { report with confirmed := report.confirmed + n }
  | .stale => { report with stale := report.stale + n }
  | _ => { report with invalid := report.invalid + n }

/-- The status that the proposals of an entity get. -/
def verdictOf (cx : Context) (schemas : Schemas) (row : Option EntityRow)
    (proposals : List ProposalRecord) : ProposalStatus :=
  match proposals.head?.map fun first => (first.schemaId, getById schemas first.schemaId) with
  | some (targetId, .ok target) =>
      match getActiveSchema schemas target.name, row with
      | .ok active, some existing =>
          if isStale (targetId, target) active.1 existing proposals then .stale
          else
            match existing.data, target.definition.entityTypes.get? existing.entityType with
            | .object obj, some typeDef =>
                match validateData cx.validator typeDef (.object
                  (proposals.foldl (fun d p => Entries.insert p.sourceField p.proposed d) obj)) with
                | .ok () => .confirmed
                | .error _ => .invalid
            | _, _ => .invalid
      | _, _ => .stale
  | _ => .stale

/-- What a snapshot holds of a row. -/
def EntityRow.snapshot (row : EntityRow) (jobId entityId : Uuid) : EntitySnapshot where
  jobId := jobId
  entityId := entityId
  schemaId := row.schemaId
  schemaVersion := row.schemaVersion
  data := row.data

/-- The new row holds the old data and the proposed fields, which were missing, valid for the
version it is on now, the active one. -/
structure Confirmed (cx : Context) (schemas : Schemas) (proposals : List ProposalRecord)
    (old new : EntityRow) : Prop where
  data : ∃ obj, old.data = .object obj ∧ new.data = .object
      (proposals.foldl (fun d p => Entries.insert p.sourceField p.proposed d) obj) ∧
    ∀ p ∈ proposals, Entries.get? p.sourceField obj = none
  version : ∃ target t, schemas.get? new.schemaId = some target ∧
    new.schemaVersion = target.version ∧ target.status = .active ∧
    getActiveSchema schemas target.name = .ok (new.schemaId, target) ∧
    target.definition.entityTypes.get? new.entityType = some t ∧
    validateData cx.validator t new.data = .ok ()
  type : new.entityType = old.entityType
  first : ∀ p, proposals.head? = some p → new.schemaId = p.schemaId

/-- **What `confirm` does for one entity.** -/
structure Settles (cx : Context) (jobId k : Uuid) (proposals : List ProposalRecord)
    (status : ProposalStatus) (s s' : EntityStore) : Prop where
  settles : status.settles = true
  verdict : status = verdictOf cx s.tables.schemas (s.rows.get? k) proposals
  marked : s'.tables.proposals = s.tables.proposals.updateWhere (fun _ p => isSettled jobId k p)
    fun p => { p with status := status }
  counted : s.tables.proposals.count (fun _ p => isSettled jobId k p) = proposals.length
  schemas : s'.tables.schemas = s.tables.schemas
  jobs : s'.tables.jobs = s.tables.jobs
  kept : status ≠ .confirmed → s'.rows = s.rows ∧ s'.tables.snapshots = s.tables.snapshots
  written : status = .confirmed → ∃ old new, s.rows.get? k = some old ∧
    s'.rows = s.rows.insert k new ∧ Confirmed cx s.tables.schemas proposals old new ∧
    s'.tables.snapshots = s.tables.snapshots ++ [old.snapshot jobId k]

theorem ProposalStatus.settles_eq_true {status : ProposalStatus} (h : status.settles = true) :
    status = .confirmed ∨ status = .stale ∨ status = .invalid := by
  cases status with
  | confirmed => exact Or.inl rfl
  | stale => exact Or.inr (Or.inl rfl)
  | invalid => exact Or.inr (Or.inr rfl)
  | pending => cases h
  | rejected => cases h
  | discarded => cases h

theorem Settles.get?_of_ne {cx : Context} {jobId k l : Uuid} {proposals : List ProposalRecord}
    {status : ProposalStatus} {s s' : EntityStore} (h : Settles cx jobId k proposals status s s')
    (hl : l ≠ k) : s'.rows.get? l = s.rows.get? l := by
  by_cases hstatus : status = .confirmed
  · obtain ⟨old, new, -, hrows, -, -⟩ := h.written hstatus
    rw [hrows, OrderedMap.get?_insert, if_neg hl]
  · rw [(h.kept hstatus).1]

section Entity

variable {cx : Context} {jobId k : Uuid} {updatedBy : Option Uuid} {report : ConfirmReport}
  {s : EntityStore}

theorem settle_ends {status : ProposalStatus} (hstatus : status.settles = true) {n : Nat}
    {post : ConfirmReport → EntityStore → Prop}
    (hpost : s.tables.proposals.count (fun _ p => isSettled jobId k p) = n →
      post (report.add n status) { s with tables := { s.tables with
        proposals := s.tables.proposals.updateWhere (fun _ p => isSettled jobId k p)
          fun p => { p with status := status } } }) :
    (settle jobId k status n report).ends (fun _ => True) post s := by
  rw [settle.eq_def, Prog.ends_bind, ensureEntityMarked, Prog.ends_bind, Prog.ends_change]
  split_ifs with hcount
  · cases status with
    | confirmed => exact hpost hcount
    | stale => exact hpost hcount
    | invalid => exact hpost hcount
    | pending => cases hstatus
    | rejected => cases hstatus
    | discarded => cases hstatus
  · trivial

/-- The proposals of an entity are settled without a write. -/
theorem settle_only {proposals : List ProposalRecord} {status : ProposalStatus}
    (hstatus : status.settles = true) (hne : status ≠ .confirmed)
    (hverdict : status = verdictOf cx s.tables.schemas (s.rows.get? k) proposals) :
    (settle jobId k status proposals.length report).ends (fun _ => True)
      (fun report' s' => ∃ status, Settles cx jobId k proposals status s s' ∧
        report' = report.add proposals.length status) s := by
  apply settle_ends hstatus
  intro hcount
  exact ⟨status, ⟨hstatus, hverdict, rfl, hcount, rfl, rfl, fun _ => ⟨rfl, rfl⟩,
    fun heq => absurd heq hne⟩, rfl⟩

theorem writeConfirmed_ends {target : Uuid × SchemaRecord} {existing : EntityRow} {data : Json}
    {proposals : List ProposalRecord} (hrow : s.rows.get? k = some existing)
    (hverdict : verdictOf cx s.tables.schemas (some existing) proposals = .confirmed)
    (hconfirmed : ∀ stamp, Confirmed cx s.tables.schemas proposals existing
      (existing.confirmed data target updatedBy stamp)) :
    (writeConfirmed jobId k updatedBy target existing data proposals.length report).ends
      (fun _ => True) (fun report' s' => ∃ status, Settles cx jobId k proposals status s s' ∧
        report' = report.add proposals.length status) s := by
  rw [writeConfirmed, Prog.ends_bind, snapshot, Prog.ends_bind, Prog.ends_change]
  simp only [insertSnapshot, hrow]
  rw [if_neg (by decide), Prog.ends_pure, Prog.ends_bind]
  -- alone, the write finds the row just read
  refine (Prog.ends_update_some (x := existing) _ ?_ ?_).mpr fun stamp => ?_
  · exact hrow
  · exact decide_eq_true rfl
  · apply settle_ends rfl
    intro hcount
    exact ⟨.confirmed, ⟨rfl, by rw [hrow, hverdict], rfl, hcount, rfl, rfl, fun hne => absurd rfl hne,
      fun _ => ⟨existing, _, hrow, rfl, hconfirmed stamp, rfl⟩⟩, rfl⟩

theorem isStale_eq_false {target : Uuid × SchemaRecord} {activeId : Uuid} {existing : EntityRow}
    {proposals : List ProposalRecord} {obj : List (String × Json)}
    (hdata : existing.data = .object obj)
    (h : isStale target activeId existing proposals = false) :
    target.2.status = .active ∧ activeId = target.1 ∧
      ∀ p ∈ proposals, Entries.get? p.sourceField obj = none := by
  unfold isStale at h
  simp only [hdata, Bool.or_eq_false_iff, decide_eq_false_iff_not, not_not,
    List.any_eq_false, Bool.not_eq_true, Option.isSome_eq_false_iff, Option.isNone_iff_eq_none] at h
  exact ⟨h.1.1, h.1.2, h.2⟩

theorem confirmRow_ends {target : SchemaRecord} {active : Uuid × SchemaRecord}
    {existing : EntityRow} {first : ProposalRecord} {rest : List ProposalRecord}
    (hrow : s.rows.get? k = some existing)
    (htarget : s.tables.schemas.get? first.schemaId = some target)
    (hactive : getActiveSchema s.tables.schemas target.name = .ok active) :
    (confirmRow cx jobId k updatedBy (first.schemaId, target) active.1 existing (first :: rest)
      report).ends (fun _ => True)
      (fun report' s' => ∃ status, Settles cx jobId k (first :: rest) status s s' ∧
        report' = report.add (first :: rest).length status) s := by
  have hverdict : verdictOf cx s.tables.schemas (s.rows.get? k) (first :: rest) = 
      if isStale (first.schemaId, target) active.1 existing (first :: rest) then .stale
      else
        match existing.data, target.definition.entityTypes.get? existing.entityType with
        | .object obj, some typeDef =>
            match validateData cx.validator typeDef (.object ((first :: rest).foldl
              (fun d p => Entries.insert p.sourceField p.proposed d) obj)) with
            | .ok () => .confirmed
            | .error _ => .invalid
        | _, _ => .invalid := by
    simp only [verdictOf, List.head?_cons, Option.map_some, getById_eq_ok.mpr htarget, hactive, hrow]
  unfold confirmRow
  split_ifs with hstale
  · rw [if_pos hstale] at hverdict
    exact settle_only rfl (by decide) hverdict.symm
  · rw [if_neg hstale] at hverdict
    split
    · rename_i obj hdata
      rw [Bool.not_eq_true] at hstale
      obtain ⟨hstatus, hid, hmissing⟩ := isStale_eq_false hdata hstale
      split
      · rename_i htype
        simp only [hdata, htype] at hverdict
        exact settle_only rfl (by decide) hverdict.symm
      · rename_i t htype
        simp only [hdata, htype] at hverdict
        dsimp only
        split
        · rename_i hvalid
          rw [hvalid] at hverdict
          refine writeConfirmed_ends hrow (by rw [← hrow, hverdict]) fun stamp => ?_
          -- the active version is the target: they have one id
          have hsame : active = (first.schemaId, target) := by
            have hget := get?_of_getActiveSchema hactive
            rw [hid, htarget] at hget
            exact Prod.ext hid (Option.some.inj hget).symm
          refine ⟨⟨obj, hdata, rfl, hmissing⟩, ⟨target, t, htarget, rfl, hstatus, ?_, htype, hvalid⟩,
            rfl, ?_⟩
          · rw [hactive, hsame]
            rfl
          · intro p hp
            cases hp
            rfl
        · rename_i herr
          rw [herr] at hverdict
          exact settle_only rfl (by decide) hverdict.symm
        · trivial
    · rename_i hdata
      refine settle_only rfl (by decide) ?_
      rw [hverdict]
      split
      · rename_i hobj _
        exact absurd hobj (hdata _)
      · rfl

/-- **The body of the loop.** -/
theorem confirmEntity_ends {first : ProposalRecord} {rest : List ProposalRecord} :
    (confirmEntity cx jobId updatedBy report (k, first :: rest)).ends (fun _ => True)
      (fun report' s' => ∃ status, Settles cx jobId k (first :: rest) status s s' ∧
        report' = report.add (first :: rest).length status) s := by
  rw [confirmEntity, Prog.ends_bind, Prog.ends_lockRow, Prog.ends_bind, Prog.ends_read,
    Prog.ends_bind, Prog.ends_ofExcept]
  refine ⟨fun target htarget => ?_, fun _ _ => trivial⟩
  rw [Prog.ends_bind, Prog.ends_read, Prog.ends_bind, Prog.ends_ofExcept]
  refine ⟨fun active hactive => ?_, fun _ _ => trivial⟩
  rw [Prog.ends_bind, findById, Prog.ends_rows]
  split
  · rename_i hrows
    refine settle_only rfl (by decide) ?_
    have hnone : s.rows.get? k = none := by
      rw [Option.eq_none_iff_forall_ne_some]
      intro row hrow
      have hmem : (k, row) ∈ s.rows.select fun l _ => decide (l = k) :=
        OrderedMap.mem_select.mpr ⟨hrow, decide_eq_true rfl⟩
      rw [hrows] at hmem
      cases hmem
    simp only [verdictOf, List.head?_cons, Option.map_some, htarget, hactive, hnone]
  · rename_i l existing rows hrows
    obtain ⟨hrow, hl⟩ := OrderedMap.mem_select.mp
      (show (l, existing) ∈ s.rows.select fun l _ => decide (l = k) by
        rw [hrows]; exact List.mem_cons_self)
    obtain rfl : l = k := of_decide_eq_true hl
    exact confirmRow_ends hrow (getById_eq_ok.mp htarget) hactive

end Entity

/-! ## All entities -/

/-- The status the proposal has after its entity's outcome. -/
def ProposalRecord.after (outcome : Uuid → Option ProposalStatus) (p : ProposalRecord) :
    ProposalRecord :=
  { p with status := (outcome p.entityId).getD p.status }

/-- How many pending proposals of the job have the outcome. -/
def countOutcome (tables : Tables) (jobId : Uuid) (outcome : Uuid → Option ProposalStatus)
    (status : ProposalStatus) : Nat :=
  tables.proposals.count fun _ p => p.isPending jobId && decide (outcome p.entityId = some status)

/-- The report counts as the outcomes do. -/
structure Counts (tables : Tables) (jobId : Uuid) (outcome : Uuid → Option ProposalStatus)
    (report : ConfirmReport) : Prop where
  confirmed : report.confirmed = countOutcome tables jobId outcome .confirmed
  stale : report.stale = countOutcome tables jobId outcome .stale
  invalid : report.invalid = countOutcome tables jobId outcome .invalid

/-- **What `confirm` leaves.** Every entity that had pending proposals of the job has an outcome,
and nothing else has changed than what the outcomes say. -/
structure Accounts (cx : Context) (jobId : Uuid) (s s' : EntityStore) (report : ConfirmReport)
    (outcome : Uuid → Option ProposalStatus) : Prop where
  ways : ∀ k status, outcome k = some status →
    status = .confirmed ∨ status = .stale ∨ status = .invalid
  verdict : ∀ k status, outcome k = some status →
    status = verdictOf cx s.tables.schemas (s.rows.get? k) (pendingFor s.tables jobId k)
  pending : ∀ k, outcome k ≠ none → pendingFor s.tables jobId k ≠ []
  proposals : s'.tables.proposals =
    s.tables.proposals.updateWhere (fun _ p => p.isPending jobId) (·.after outcome)
  counts : Counts s.tables jobId outcome report
  kept : ∀ k, outcome k ≠ some .confirmed → s'.rows.get? k = s.rows.get? k
  written : ∀ k, outcome k = some .confirmed → ∃ old new, s.rows.get? k = some old ∧
    s'.rows.get? k = some new ∧
      Confirmed cx s.tables.schemas (pendingFor s.tables jobId k) old new
  snapshots : ∃ taken : List Uuid, taken.Nodup ∧ (∀ k, k ∈ taken ↔ outcome k = some .confirmed) ∧
    s'.tables.snapshots = s.tables.snapshots ++
      taken.filterMap fun k => (s.rows.get? k).map fun old => old.snapshot jobId k
  schemas : s'.tables.schemas = s.tables.schemas
  jobs : s'.tables.jobs = s.tables.jobs

section Loop

variable {cx : Context} {jobId k : Uuid} {report report' : ConfirmReport} {s₀ s s' : EntityStore}
  {outcome : Uuid → Option ProposalStatus} {status : ProposalStatus}

/-- The outcomes with one more. -/
def decideOutcome (outcome : Uuid → Option ProposalStatus) (k : Uuid) (status : ProposalStatus)
    (l : Uuid) : Option ProposalStatus :=
  if l = k then some status else outcome l

theorem isSettled_eq (jobId k : Uuid) (p : ProposalRecord) :
    isSettled jobId k p = (p.isPending jobId && decide (p.entityId = k)) := by
  unfold isSettled ProposalRecord.isPending
  exact Bool.and_right_comm _ _ _

theorem countOutcome_decide (tables : Tables) (hk : outcome k = none) (status' : ProposalStatus) :
    countOutcome tables jobId (decideOutcome outcome k status) status' =
      countOutcome tables jobId outcome status' +
        if status' = status then tables.proposals.count (fun _ p => isSettled jobId k p) else 0 := by
  unfold countOutcome
  rw [OrderedMap.count_eq_add fun _ p => isSettled jobId k p]
  congr 1
  · refine OrderedMap.count_congr fun _ p _ => ?_
    rw [isSettled_eq]
    by_cases hp : p.entityId = k
    · subst hp
      cases p.isPending jobId with
      | true => simp [hk]
      | false => rfl
    · simp [decideOutcome, hp]
  · split_ifs with hstatus
    · refine OrderedMap.count_congr fun _ p _ => ?_
      rw [isSettled_eq]
      by_cases hp : p.entityId = k
      · simp [decideOutcome, hp, hstatus]
      · simp [hp]
    · refine OrderedMap.count_eq_zero (fun _ p => ?_) _
      rw [isSettled_eq]
      by_cases hp : p.entityId = k
      · simp [decideOutcome, hp, Ne.symm hstatus]
      · simp [hp]

theorem isSettled_after (hk : outcome k = none) {p : ProposalRecord}
    (hp : p.isPending jobId = true) :
    isSettled jobId k (p.after outcome) = decide (p.entityId = k) := by
  have hfields := hp
  simp only [ProposalRecord.isPending, Bool.and_eq_true, decide_eq_true_eq] at hfields
  by_cases he : p.entityId = k
  · simp [isSettled, ProposalRecord.after, hfields, he, hk]
  · simp [isSettled, ProposalRecord.after, he]

theorem updateWhere_after (m : OrderedMap Uuid ProposalRecord) (hk : outcome k = none) :
    (m.updateWhere (fun _ p => p.isPending jobId) (·.after outcome)).updateWhere
        (fun _ p => isSettled jobId k p) (fun p => { p with status := status }) =
      m.updateWhere (fun _ p => p.isPending jobId) (·.after (decideOutcome outcome k status)) := by
  refine OrderedMap.ext_get? fun id => ?_
  rw [OrderedMap.get?_updateWhere, OrderedMap.get?_updateWhere, OrderedMap.get?_updateWhere,
    Option.map_map]
  refine congrArg (fun f => (m.get? id).map f) (funext fun p => ?_)
  rw [Function.comp_apply]
  cases hp : p.isPending jobId with
  | true =>
      rw [if_pos rfl, if_pos rfl, isSettled_after hk hp]
      by_cases he : p.entityId = k
      · simp [he, ProposalRecord.after, decideOutcome]
      · simp [he, ProposalRecord.after, decideOutcome]
  | false => simp [isSettled_eq, hp]

theorem count_settled (m : OrderedMap Uuid ProposalRecord) (hk : outcome k = none) :
    ((m.updateWhere (fun _ p => p.isPending jobId) (·.after outcome)).count
        fun _ p => isSettled jobId k p) = m.count fun _ p => isSettled jobId k p := by
  rw [OrderedMap.count_updateWhere, OrderedMap.count_eq_add (fun _ p => p.isPending jobId)
    (fun _ p => isSettled jobId k p)]
  congr 1
  refine OrderedMap.count_congr fun _ p _ => ?_
  cases hp : p.isPending jobId with
  | true => rw [isSettled_after hk hp, isSettled_eq, hp, Bool.true_and, Bool.true_and]
  | false => rfl

theorem Counts.add {tables : Tables} (h : Counts tables jobId outcome report)
    (hk : outcome k = none) (hstatus : status.settles = true) {n : Nat}
    (hn : tables.proposals.count (fun _ p => isSettled jobId k p) = n) :
    Counts tables jobId (decideOutcome outcome k status) (report.add n status) := by
  subst hn
  cases status with
  | confirmed =>
      constructor <;> rw [countOutcome_decide _ hk]
      · exact congrArg (· + _) h.confirmed
      · exact h.stale
      · exact h.invalid
  | stale =>
      constructor <;> rw [countOutcome_decide _ hk]
      · exact h.confirmed
      · exact congrArg (· + _) h.stale
      · exact h.invalid
  | invalid =>
      constructor <;> rw [countOutcome_decide _ hk]
      · exact h.confirmed
      · exact h.stale
      · exact congrArg (· + _) h.invalid
  | pending => cases hstatus
  | rejected => cases hstatus
  | discarded => cases hstatus

theorem decideOutcome_self : decideOutcome outcome k status k = some status := if_pos rfl

theorem decideOutcome_of_ne {l : Uuid} (hl : l ≠ k) :
    decideOutcome outcome k status l = outcome l := if_neg hl

/-- The new outcome is the one at `k`, and the others are as before. -/
theorem decideOutcome_eq_some {l : Uuid} {status' : ProposalStatus}
    (h : decideOutcome outcome k status l = some status') :
    (l = k ∧ status' = status) ∨ (l ≠ k ∧ outcome l = some status') := by
  by_cases hlk : l = k
  · subst hlk
    rw [decideOutcome_self] at h
    exact Or.inl ⟨rfl, (Option.some.inj h).symm⟩
  · rw [decideOutcome_of_ne hlk] at h
    exact Or.inr ⟨hlk, h⟩

/-- The row of an entity without an outcome is the one that `confirm` started with. -/
theorem Accounts.row_of_undecided (h : Accounts cx jobId s₀ s report outcome)
    (hk : outcome k = none) : s.rows.get? k = s₀.rows.get? k :=
  h.kept k (by rw [hk]; exact nofun)

theorem Accounts.kept_settles (h : Accounts cx jobId s₀ s report outcome) (hk : outcome k = none)
    (hsettles : Settles cx jobId k (pendingFor s₀.tables jobId k) status s s') {l : Uuid}
    (hl : decideOutcome outcome k status l ≠ some .confirmed) :
    s'.rows.get? l = s₀.rows.get? l := by
  by_cases hlk : l = k
  · subst hlk
    rw [decideOutcome_self] at hl
    rw [(hsettles.kept fun heq => hl (congrArg some heq)).1, h.row_of_undecided hk]
  · rw [decideOutcome_of_ne hlk] at hl
    rw [hsettles.get?_of_ne hlk, h.kept l hl]

theorem Accounts.written_settles (h : Accounts cx jobId s₀ s report outcome)
    (hk : outcome k = none)
    (hsettles : Settles cx jobId k (pendingFor s₀.tables jobId k) status s s') {l : Uuid}
    (hl : decideOutcome outcome k status l = some .confirmed) :
    ∃ old new, s₀.rows.get? l = some old ∧ s'.rows.get? l = some new ∧
      Confirmed cx s₀.tables.schemas (pendingFor s₀.tables jobId l) old new := by
  rcases decideOutcome_eq_some hl with ⟨rfl, hstatus⟩ | ⟨hlk, hl⟩
  · obtain ⟨old, new, hold, hrows, hconfirmed, -⟩ := hsettles.written hstatus.symm
    rw [h.schemas] at hconfirmed
    exact ⟨old, new, by rw [← h.row_of_undecided hk, hold],
      by rw [hrows, OrderedMap.get?_insert, if_pos rfl], hconfirmed⟩
  · obtain ⟨old, new, hold, hnew, hconfirmed⟩ := h.written l hl
    exact ⟨old, new, hold, by rw [hsettles.get?_of_ne hlk, hnew], hconfirmed⟩

/-- A snapshot is taken of the entity if it is confirmed, and of no other. -/
theorem Accounts.snapshots_settles (h : Accounts cx jobId s₀ s report outcome)
    (hk : outcome k = none)
    (hsettles : Settles cx jobId k (pendingFor s₀.tables jobId k) status s s') :
    ∃ taken : List Uuid, taken.Nodup ∧
      (∀ l, l ∈ taken ↔ decideOutcome outcome k status l = some .confirmed) ∧
      s'.tables.snapshots = s₀.tables.snapshots ++
        taken.filterMap fun l => (s₀.rows.get? l).map fun old => old.snapshot jobId l := by
  obtain ⟨taken, hnodup, hmem, hsnapshots⟩ := h.snapshots
  by_cases hstatus : status = .confirmed
  · subst hstatus
    obtain ⟨old, new, hold, -, -, htaken⟩ := hsettles.written rfl
    refine ⟨taken ++ [k], ?_, fun l => ?_, ?_⟩
    · have hnotin : k ∉ taken := by
        rw [hmem, hk]
        exact nofun
      rw [List.nodup_append]
      refine ⟨hnodup, List.nodup_singleton k, fun l hl l' hl' heq => ?_⟩
      rw [List.mem_singleton.mp hl'] at heq
      exact hnotin (heq ▸ hl)
    · rw [List.mem_append, List.mem_singleton, hmem]
      by_cases hlk : l = k
      · simp [hlk, decideOutcome_self]
      · simp [hlk, decideOutcome_of_ne]
    · rw [htaken, hsnapshots, List.filterMap_append, List.append_assoc]
      simp [← h.row_of_undecided hk, hold]
  · refine ⟨taken, hnodup, fun l => ?_, ?_⟩
    · rw [hmem]
      by_cases hlk : l = k
      · subst hlk
        rw [decideOutcome_self, hk]
        simp [hstatus]
      · rw [decideOutcome_of_ne hlk]
    · rw [(hsettles.kept hstatus).2, hsnapshots]

/-- **Step lemma.** The next entity had no outcome so far, so its row and the schemas are still
those that `confirm` started with. -/
theorem Accounts.settles (h : Accounts cx jobId s₀ s report outcome) (hk : outcome k = none)
    (hpending : pendingFor s₀.tables jobId k ≠ [])
    (hsettles : Settles cx jobId k (pendingFor s₀.tables jobId k) status s s') :
    Accounts cx jobId s₀ s' (report.add (pendingFor s₀.tables jobId k).length status)
      (decideOutcome outcome k status) := by
  have hcount : s₀.tables.proposals.count (fun _ p => isSettled jobId k p) =
      (pendingFor s₀.tables jobId k).length := by
    rw [← hsettles.counted, h.proposals, count_settled _ hk]
  have hverdict := hsettles.verdict
  rw [h.row_of_undecided hk, h.schemas] at hverdict
  constructor
  case ways =>
    intro l status' hl
    rcases decideOutcome_eq_some hl with ⟨-, rfl⟩ | ⟨-, hl⟩
    · exact ProposalStatus.settles_eq_true hsettles.settles
    · exact h.ways l status' hl
  case verdict =>
    intro l status' hl
    rcases decideOutcome_eq_some hl with ⟨rfl, rfl⟩ | ⟨-, hl⟩
    · exact hverdict
    · exact h.verdict l status' hl
  case pending =>
    intro l hl
    obtain ⟨status', hl⟩ := Option.ne_none_iff_exists'.mp hl
    rcases decideOutcome_eq_some hl with ⟨rfl, -⟩ | ⟨-, hl⟩
    · exact hpending
    · exact h.pending l (by rw [hl]; exact nofun)
  case proposals => rw [hsettles.marked, h.proposals, updateWhere_after _ hk]
  case counts => exact h.counts.add hk hsettles.settles hcount
  case kept => exact fun l hl => h.kept_settles hk hsettles hl
  case written => exact fun l hl => h.written_settles hk hsettles hl
  case snapshots => exact h.snapshots_settles hk hsettles
  case schemas => rw [hsettles.schemas, h.schemas]
  case jobs => rw [hsettles.jobs, h.jobs]

theorem Accounts.start (cx : Context) (jobId : Uuid) (s : EntityStore) :
    Accounts cx jobId s s { jobId := jobId, confirmed := 0, stale := 0, invalid := 0 }
      fun _ => none where
  ways := nofun
  verdict := nofun
  pending := fun k hk => absurd rfl hk
  proposals := by
    refine OrderedMap.ext_get? fun id => ?_
    rw [OrderedMap.get?_updateWhere]
    cases s.tables.proposals.get? id with
    | none => rfl
    | some p => exact congrArg some (ite_self p).symm
  counts := by
    constructor <;> exact (OrderedMap.count_eq_zero (fun _ p => by simp) _).symm
  kept := fun _ _ => rfl
  written := nofun
  snapshots := ⟨[], List.nodup_nil, by simp, by simp⟩
  schemas := rfl
  jobs := rfl

/-- The three counts are all pending proposals. -/
theorem Counts.total {tables : Tables} (h : Counts tables jobId outcome report)
    (hways : ∀ k status, outcome k = some status →
      status = .confirmed ∨ status = .stale ∨ status = .invalid)
    (hall : ∀ k, pendingFor tables jobId k ≠ [] → outcome k ≠ none) :
    report.confirmed + report.stale + report.invalid =
      tables.proposals.count fun _ p => p.isPending jobId := by
  have hsplit := OrderedMap.count_eq_add
    (fun _ (p : ProposalRecord) => decide (outcome p.entityId = some .confirmed))
    (fun _ p => p.isPending jobId) tables.proposals
  have hsplit' := OrderedMap.count_eq_add
    (fun _ (p : ProposalRecord) => decide (outcome p.entityId = some .stale))
    (fun _ p => !decide (outcome p.entityId = some .confirmed) && p.isPending jobId)
    tables.proposals
  have hconfirmed : (tables.proposals.count fun _ p =>
      decide (outcome p.entityId = some .confirmed) && p.isPending jobId) =
        countOutcome tables jobId outcome .confirmed :=
    OrderedMap.count_congr fun _ p _ => Bool.and_comm _ _
  have hstale : (tables.proposals.count fun _ p => decide (outcome p.entityId = some .stale) &&
      (!decide (outcome p.entityId = some .confirmed) && p.isPending jobId)) =
        countOutcome tables jobId outcome .stale := by
    refine OrderedMap.count_congr fun _ p _ => ?_
    by_cases hp : outcome p.entityId = some .stale
    · simp [hp]
    · simp [hp]
  have hinvalid : (tables.proposals.count fun _ p => !decide (outcome p.entityId = some .stale) &&
      (!decide (outcome p.entityId = some .confirmed) && p.isPending jobId)) =
        countOutcome tables jobId outcome .invalid := by
    refine OrderedMap.count_congr fun id p hp => ?_
    cases hpending : p.isPending jobId with
    | false => simp
    | true =>
        -- a pending proposal has one of the three outcomes
        have hmem : p ∈ pendingFor tables jobId p.entityId :=
          mem_pendingFor.mpr ⟨⟨id, hp⟩, hpending, rfl⟩
        obtain ⟨status, hstatus⟩ := Option.ne_none_iff_exists'.mp
          (hall p.entityId (List.ne_nil_of_mem hmem))
        rcases hways _ _ hstatus with rfl | rfl | rfl <;> simp [hstatus]
  rw [h.confirmed, h.stale, h.invalid, hsplit, hsplit', hconfirmed, hstale, hinvalid]
  omega

/-- The outcomes so far, and the groups still to come. -/
structure Progress (cx : Context) (jobId : Uuid) (s₀ : EntityStore)
    (groups : List (Uuid × List ProposalRecord)) (report : ConfirmReport) (s : EntityStore)
    (outcome : Uuid → Option ProposalStatus) : Prop where
  accounts : Accounts cx jobId s₀ s report outcome
  reached : ∀ k, pendingFor s₀.tables jobId k ≠ [] → outcome k ≠ none ∨ k ∈ groups.map Prod.fst
  group : ∀ g ∈ groups, outcome g.1 = none ∧ g.2 = pendingFor s₀.tables jobId g.1 ∧ g.2 ≠ []
  nodup : (groups.map Prod.fst).Nodup

theorem Progress.start (cx : Context) (jobId : Uuid) (s : EntityStore) :
    Progress cx jobId s (byEntity s.tables jobId).entries
      { jobId := jobId, confirmed := 0, stale := 0, invalid := 0 } s fun _ => none where
  accounts := .start cx jobId s
  reached := by
    intro k hk
    have hget := get?_byEntity s.tables jobId k
    rw [if_neg hk, ← OrderedMap.mem_entries_iff] at hget
    exact Or.inr (List.mem_map_of_mem hget)
  group := by
    intro g hg
    have hget := (OrderedMap.mem_entries_iff _ g.1 g.2).mp hg
    rw [get?_byEntity] at hget
    split_ifs at hget with hnil
    have hgroup : g.2 = pendingFor s.tables jobId g.1 := (Option.some.inj hget).symm
    exact ⟨rfl, hgroup, by rw [hgroup]; exact hnil⟩
  nodup := OrderedMap.nodup_keys _

theorem Progress.step {g : Uuid × List ProposalRecord} {gs : List (Uuid × List ProposalRecord)}
    (h : Progress cx jobId s₀ (g :: gs) report s outcome)
    (hsettles : Settles cx jobId g.1 g.2 status s s') :
    Progress cx jobId s₀ gs (report.add g.2.length status) s'
      (decideOutcome outcome g.1 status) := by
  obtain ⟨hnone, hpending, hne⟩ := h.group g List.mem_cons_self
  have hnodup := h.nodup
  rw [List.map_cons, List.nodup_cons] at hnodup
  rw [hpending] at hsettles hne ⊢
  refine ⟨h.accounts.settles hnone hne hsettles, fun k hk => ?_, fun g' hg' => ?_, hnodup.2⟩
  · by_cases hkg : k = g.1
    · rw [hkg, decideOutcome_self]
      exact Or.inl nofun
    · rw [decideOutcome_of_ne hkg]
      rcases h.reached k hk with hout | hmem
      · exact Or.inl hout
      · rw [List.map_cons, List.mem_cons] at hmem
        exact Or.inr (hmem.resolve_left hkg)
  · have hne' : g'.1 ≠ g.1 := fun heq => hnodup.1 (heq ▸ List.mem_map_of_mem hg')
    rw [decideOutcome_of_ne hne']
    exact h.group g' (List.mem_cons_of_mem g hg')

/-- **What a confirmation that succeeds leaves.** -/
theorem confirm_ends (cx : Context) (jobId : Uuid) (updatedBy : Option Uuid) (s : EntityStore) :
    (confirm cx jobId updatedBy).ends (fun _ => True)
      (fun report s' => requireCompletedJob cx s.tables jobId = .ok () ∧
        (∃ k, pendingFor s.tables jobId k ≠ []) ∧
        ∃ outcome, Accounts cx jobId s s' report outcome ∧
          ∀ k, pendingFor s.tables jobId k ≠ [] → outcome k ≠ none) s := by
  rw [confirm, Prog.ends_bind, Prog.ends_read, Prog.ends_bind, Prog.ends_ofExcept]
  refine ⟨fun _ hjob => ?_, fun _ _ => trivial⟩
  rw [Prog.ends_bind, Prog.ends_read]
  split
  · trivial
  · rename_i hgroups
    have hpending : ∃ k, pendingFor s.tables jobId k ≠ [] := by
      obtain ⟨g, hg⟩ := List.exists_mem_of_ne_nil _ hgroups
      obtain ⟨-, hpending, hne⟩ := (Progress.start cx jobId s).group g hg
      exact ⟨g.1, hpending ▸ hne⟩
    have hloop : (List.foldlM (confirmEntity cx jobId updatedBy)
        { jobId := jobId, confirmed := 0, stale := 0, invalid := 0 }
        (byEntity s.tables jobId).entries).ends (fun _ => True)
        (fun report s' => ∃ outcome, Progress cx jobId s [] report s' outcome) s := by
      -- the invariant of the loop says which groups have an outcome already
      refine Prog.ends_foldlM _
        (fun gs report s' => ∃ outcome, Progress cx jobId s gs report s' outcome) ?_
        ⟨_, Progress.start cx jobId s⟩
      rintro ⟨k, proposals⟩ gs report s' ⟨outcome, hprogress⟩
      obtain ⟨-, -, hne⟩ := hprogress.group _ List.mem_cons_self
      cases proposals with
      | nil => exact absurd rfl hne
      | cons first rest =>
          refine Prog.ends_mono confirmEntity_ends ?_ fun _ h => h
          rintro report' s'' ⟨status, hsettles, rfl⟩
          exact ⟨_, hprogress.step hsettles⟩
    refine Prog.ends_mono hloop ?_ fun _ h => h
    rintro report s' ⟨outcome, hprogress⟩
    refine ⟨hjob, hpending, outcome, hprogress.accounts, fun k hk => ?_⟩
    exact (hprogress.reached k hk).resolve_right List.not_mem_nil

end Loop

end Yorishiro.Entity
