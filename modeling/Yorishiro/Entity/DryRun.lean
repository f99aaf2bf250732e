import Yorishiro.Entity.Drift
import Yorishiro.Entity.Programs

/-!
# The dry run of a migration

`migration_dry_run` counts what `fill_defaults` would face: it reads the entities of a schema page
by page, and takes an entity on another version than the active one to need values when the listing
of its missing fields has a required one.

The pages are the entities in order (`readPages_eq`), so the count is one over all entities
(`migrationDryRun_needsValues`). `fill_defaults`, run alone, writes the entities that it fills
(`fillDefaults_entitiesUpdated`), and a listing predicts a fill: `dryRun_predicts_fill`.
-/

set_option autoImplicit false

namespace Yorishiro.Entity

open Yorishiro.Lib Yorishiro.Lib.JsonSchema Yorishiro.Metaschema Yorishiro.Schema

/-! ## Pages by offset -/

section Pages

variable {α σ : Type}

/-- After a page with rows fewer rows remain. -/
theorem remaining_lt {size page : Nat} {rows more : List α} {row : α}
    (h : (rows.drop (page * size)).take size = row :: more) :
    rows.length - (page + 1) * size < rows.length - page * size := by
  have hlength := congrArg List.length h
  rw [List.length_take, List.length_drop, List.length_cons] at hlength
  rw [Nat.add_mul, Nat.one_mul]
  omega

/-- Handles the rows `size` at a time, from page `page` until a page is empty. -/
def readPages (size : Nat) (rows : List α) (handle : σ → List α → σ) (page : Nat) (acc : σ) : σ :=
  match h : (rows.drop (page * size)).take size with
  | [] => acc
  | row :: more => readPages size rows handle (page + 1) (handle acc (row :: more))
termination_by rows.length - page * size
decreasing_by exact remaining_lt h

/-- Handled row by row, the pages are all the rows in order. -/
theorem readPages_eq {size : Nat} (hsize : 0 < size) (rows : List α) (step : σ → α → σ)
    (page : Nat) (acc : σ) :
    readPages size rows (fun acc xs => xs.foldl step acc) page acc =
      (rows.drop (page * size)).foldl step acc := by
  induction page, acc using readPages.induct size rows (fun acc xs => xs.foldl step acc) with
  | case1 page acc h =>
      have hempty : rows.drop (page * size) = [] := by
        rcases List.take_eq_nil_iff.mp h with hzero | hempty
        · omega
        · exact hempty
      rw [readPages]
      split
      · rw [hempty, List.foldl_nil]
      · next h' => cases h.symm.trans h'
  | case2 page acc row more h ih =>
      have hsplit : rows.drop (page * size) = (row :: more) ++ rows.drop ((page + 1) * size) := by
        rw [← h, Nat.add_mul, Nat.one_mul, ← List.drop_drop, List.take_append_drop]
      rw [readPages]
      split
      · next h' => cases h.symm.trans h'
      · next h' =>
          cases h.symm.trans h'
          rw [ih, hsplit, List.foldl_append]

end Pages

/-! ## The dry run -/

/-- `DryRunByType`. -/
structure DryRunByType where
  entityType : String
  behind : Nat
  needsValues : Nat
  missingRequired : List String
deriving DecidableEq, Repr

/-- `MigrationDryRun`. -/
structure MigrationDryRun where
  schemaName : String
  activeVersion : Int
  totalEntities : Nat
  current : Nat
  behindButValid : Nat
  needsValues : Nat
  byEntityType : List DryRunByType
deriving DecidableEq, Repr

/-- The variables of the loop. -/
structure DryRunCounts where
  total : Nat
  current : Nat
  behindValid : Nat
  needsValues : Nat
  byType : OrderedMap String DryRunByType

/-- `MAX_LIST_LIMIT`, the size of a page. -/
def dryRunPageSize : Nat := 200

/-- The names of the required fields that an entity lacks of the active version. -/
def missingRequired (active : SchemaRecord) (row : EntityRow) : List String :=
  (requiredOnly (match active.definition.entityTypes.get? row.entityType with
    | some definition => missingFieldsInValue row.data definition.trees ""
    | none => [])).map DriftField.name

/-- Appends the names that are not there yet. -/
def addMissing (entry : List String) (missing : List String) : List String :=
  missing.foldl (fun names name => if name ∈ names then names else names ++ [name]) entry

/-- One entity behind the active version, counted for its type. -/
def countBehind (missing : List String) (entry : DryRunByType) : DryRunByType :=
  if missing.isEmpty then { entry with behind := entry.behind + 1 }
  else
    { entry with
      behind := entry.behind + 1
      needsValues := entry.needsValues + 1
      missingRequired := addMissing entry.missingRequired missing }

/-- The body of the loop. -/
def countEntity (active : Uuid × SchemaRecord) (counts : DryRunCounts) (row : Uuid × EntityRow) :
    DryRunCounts :=
  if row.2.schemaId = active.1 then
    { counts with total := counts.total + 1, current := counts.current + 1 }
  else
    let missing := missingRequired active.2 row.2
    let entry := (counts.byType.get? row.2.entityType).getD
      { entityType := row.2.entityType, behind := 0, needsValues := 0, missingRequired := [] }
    { counts with
      total := counts.total + 1
      behindValid := if missing.isEmpty then counts.behindValid + 1 else counts.behindValid
      needsValues := if missing.isEmpty then counts.needsValues else counts.needsValues + 1
      byType := counts.byType.insert row.2.entityType (countBehind missing entry) }

/-- The entities of a schema, whatever their version, by id. -/
def entitiesOf (s : EntityStore) (schemaName : String) : List (Uuid × EntityRow) :=
  s.rows.select fun _ row =>
    (s.tables.schemas.get? row.schemaId).any fun schema => decide (schema.name = schemaName)

/-- `migration_dry_run`. -/
def migrationDryRun (s : EntityStore) (schemaName : String) :
    Except YorishiroError MigrationDryRun := do
  let active ← getActiveSchema s.tables.schemas schemaName
  let counts := readPages dryRunPageSize (entitiesOf s schemaName)
    (fun counts page => page.foldl (countEntity active) counts) 0
    { total := 0, current := 0, behindValid := 0, needsValues := 0, byType := .empty }
  return {
    schemaName := schemaName
    activeVersion := active.2.version
    totalEntities := counts.total
    current := counts.current
    behindButValid := counts.behindValid
    needsValues := counts.needsValues
    byEntityType := counts.byType.entries.map fun e =>
      { e.2 with missingRequired := e.2.missingRequired.insertionSort (· ≤ ·) } }

/-! ## What both count -/

/-- Filling the entity to the active version adds a field. -/
def needsFill (active : SchemaRecord) (row : EntityRow) : Bool :=
  match active.definition.entityTypes.get? row.entityType with
  | none => false
  | some definition => decide ((fillFieldsInValue definition.trees row.data).2 ≠ 0)

/-- A required field is listed as missing exactly when filling adds one. -/
theorem missingRequired_isEmpty (active : SchemaRecord) (row : EntityRow) :
    (missingRequired active row).isEmpty = !needsFill active row := by
  unfold missingRequired needsFill
  cases active.definition.entityTypes.get? row.entityType with
  | none => rfl
  | some definition =>
      simp only [fill_count_eq_missing definition row.data "", List.isEmpty_map]
      cases requiredOnly (missingFieldsInValue row.data definition.trees "") with
      | nil => rfl
      | cons field fields => simp

section DryRun

variable {active : Uuid × SchemaRecord}

theorem countEntity_needsValues (counts : DryRunCounts) (row : Uuid × EntityRow) :
    (countEntity active counts row).needsValues = counts.needsValues +
      if decide (row.2.schemaId ≠ active.1) && needsFill active.2 row.2 then 1 else 0 := by
  rw [countEntity]
  by_cases hcurrent : row.2.schemaId = active.1
  · simp [hcurrent]
  · cases hneeds : needsFill active.2 row.2 with
    | false => simp [hcurrent, missingRequired_isEmpty, hneeds]
    | true => simp [hcurrent, missingRequired_isEmpty, hneeds]

theorem foldl_countEntity_needsValues (rows : List (Uuid × EntityRow)) (counts : DryRunCounts) :
    (rows.foldl (countEntity active) counts).needsValues = counts.needsValues +
      rows.countP fun row => decide (row.2.schemaId ≠ active.1) && needsFill active.2 row.2 := by
  induction rows generalizing counts with
  | nil => rfl
  | cons row rows ih =>
      rw [List.foldl_cons, ih, countEntity_needsValues, List.countP_cons]
      omega

/-- What the dry run counts: the entities behind the active version that filling adds to. -/
theorem migrationDryRun_needsValues (s : EntityStore) (args : FillDefaultsArgs)
    (hactive : getActiveSchema s.tables.schemas args.schemaName = .ok active) :
    (migrationDryRun s args.schemaName).map (·.needsValues) =
      .ok ((s.rows.select (isBehind args active.1 s.tables)).countP fun row =>
        needsFill active.2 row.2) := by
  have hcount : ∀ counts, ((entitiesOf s args.schemaName).foldl (countEntity active)
      counts).needsValues = counts.needsValues + (entitiesOf s args.schemaName).countP
        fun row => decide (row.2.schemaId ≠ active.1) && needsFill active.2 row.2 :=
    foldl_countEntity_needsValues (entitiesOf s args.schemaName)
  have hpages : ∀ counts, readPages dryRunPageSize (entitiesOf s args.schemaName)
      (fun counts page => page.foldl (countEntity active) counts) 0 counts =
        (entitiesOf s args.schemaName).foldl (countEntity active) counts := by
    intro counts
    rw [readPages_eq (by decide), Nat.zero_mul, List.drop_zero]
  rw [migrationDryRun, hactive]
  change Except.ok _ = Except.ok _
  rw [hpages, hcount, Nat.zero_add, entitiesOf, OrderedMap.select, OrderedMap.select,
    List.countP_filter, List.countP_filter]
  congr 1
  refine List.countP_congr fun row _ => ?_
  simp only [isBehind, Bool.and_eq_true]
  tauto

end DryRun

/-! ## What the fill writes -/

section Fill

variable {args : FillDefaultsArgs} {active : SchemaRecord}

/-- The entities to come are stored as they were read, each once; with those among them that are
filled, `total` entities will have been written. -/
structure FillDue (active : SchemaRecord) (total : Nat) (due : List (Uuid × EntityRow))
    (report : FillDefaultsReport) (s : EntityStore) : Prop where
  stored : ∀ e ∈ due, s.rows.get? e.1 = some e.2
  nodup : (due.map Prod.fst).Nodup
  count : report.entitiesUpdated + due.countP (fun e => needsFill active e.2) = total

/-- One entity that is filled. -/
theorem FillDue.written {total : Nat} {record : Uuid × EntityRow} {due : List (Uuid × EntityRow)}
    {report : FillDefaultsReport} {s : EntityStore}
    (h : FillDue active total (record :: due) report s) (hneeds : needsFill active record.2 = true)
    (tables : Tables) (row : EntityRow) (filled : Nat) :
    FillDue active total due
      { report with
        entitiesUpdated := report.entitiesUpdated + 1
        fieldsFilled := report.fieldsFilled + filled }
      { s with tables := tables, rows := s.rows.put record.1 (some row) } where
  stored := by
    intro e he
    have hne : e.1 ≠ record.1 := by
      intro heq
      have hnotin := (List.nodup_cons.mp h.nodup).1
      exact hnotin (heq ▸ List.mem_map_of_mem he)
    rw [OrderedMap.get?_put, if_neg hne]
    exact h.stored e (List.mem_cons_of_mem _ he)
  nodup := (List.nodup_cons.mp h.nodup).2
  count := by
    have hcount := h.count
    rw [List.countP_cons, if_pos hneeds] at hcount
    change report.entitiesUpdated + 1 + _ = _
    omega

/-- One entity that is not filled. -/
theorem FillDue.skipped {total : Nat} {record : Uuid × EntityRow} {due : List (Uuid × EntityRow)}
    {report : FillDefaultsReport} {s : EntityStore}
    (h : FillDue active total (record :: due) report s) (hneeds : needsFill active record.2 = false)
    (tables : Tables) : FillDue active total due report { s with tables := tables } where
  stored := fun e he => h.stored e (List.mem_cons_of_mem _ he)
  nodup := (List.nodup_cons.mp h.nodup).2
  count := by
    have hcount := h.count
    rw [List.countP_cons, if_neg (by rw [hneeds]; decide)] at hcount
    omega

/-- Step: the body of the loop writes the entity exactly when filling adds to it. -/
theorem ends_fillEntity {err : YorishiroError → Prop} {total : Nat} {record : Uuid × EntityRow}
    {due : List (Uuid × EntityRow)} {report : FillDefaultsReport} {s : EntityStore}
    (h : FillDue active total (record :: due) report s) :
    (fillEntity args active report record).ends err (FillDue active total due) s := by
  have hstored := h.stored record List.mem_cons_self
  unfold fillEntity
  cases htype : active.definition.entityTypes.get? record.2.entityType with
  | none => exact h.skipped (by rw [needsFill, htype]) s.tables
  | some definition =>
      have htaken : (insertSnapshot record.1 args.jobId s.rows.get? s.tables).2 = 1 := by
        rw [insertSnapshot, hstored]
      simp only [Prog.ends_bind, Prog.ends_change, htaken, Nat.one_ne_zero, if_false]
      by_cases hfilled : (fillFieldsInValue definition.trees record.2.data).2 = 0
      · rw [if_pos hfilled]
        exact h.skipped (by simp [needsFill, htype, hfilled]) _
      · rw [if_neg hfilled, Prog.ends_bind]
        refine (Prog.ends_update_some (x := record.2) _ ?_ rfl).mpr fun stamp => ?_
        · exact hstored
        exact h.written (by simp [needsFill, htype, hfilled]) _ _ _

/-- Run alone, the fill writes the entities behind the active version that filling adds to. -/
theorem fillDefaults_entitiesUpdated (stamps : Nat → Stamp) (n : Nat) (s : EntityStore)
    {active : Uuid × SchemaRecord}
    (hactive : getActiveSchema s.tables.schemas args.schemaName = .ok active) :
    ((fillDefaults args).alone stamps n s).map (·.1.entitiesUpdated) =
      .ok ((s.rows.select (isBehind args active.1 s.tables)).countP fun row =>
        needsFill active.2 row.2) := by
  have hends : (fillDefaults args).ends (fun _ => False)
      (FillDue active.2 ((s.rows.select (isBehind args active.1 s.tables)).countP fun row =>
        needsFill active.2 row.2) []) s := by
    unfold fillDefaults
    rw [Prog.ends_bind, Prog.ends_read, Prog.ends_bind, hactive, Prog.ends_ofExcept]
    refine ⟨fun a ha => ?_, fun e he => by cases he⟩
    cases ha
    rw [Prog.ends_bind, Prog.ends_rows]
    refine Prog.ends_foldlM _ (FillDue active.2 _) (fun _ _ _ _ h => ends_fillEntity h) ?_
    exact
      { stored := fun e he => (OrderedMap.mem_select.mp he).1
        nodup := s.rows.nodup_select _
        count := Nat.zero_add _ }
  cases hrun : (fillDefaults args).alone stamps n s with
  | error e => exact absurd ((Prog.ends_sound hends).2 e hrun) id
  | ok result =>
      have hcount := ((Prog.ends_sound hends).1 result.1 result.2 hrun).count
      change Except.ok result.1.entitiesUpdated = _
      rw [List.countP_nil, Nat.add_zero] at hcount
      rw [hcount]

end Fill

/-- **The dry run predicts the fill**: value by value, and over the entities of a workspace that
nothing else changes. -/
theorem dryRun_predicts_fill :
    (∀ (t : EntityTypeDef) (d : Json) (parent : String),
      (fillFieldsInValue t.trees d).2 =
        (requiredOnly (missingFieldsInValue d t.trees parent)).length) ∧
      ∀ (args : FillDefaultsArgs) (stamps : Nat → Stamp) (n : Nat) (s : EntityStore),
        ((fillDefaults args).alone stamps n s).map (·.1.entitiesUpdated) =
          (migrationDryRun s args.schemaName).map (·.needsValues) := by
  refine ⟨fill_count_eq_missing, fun args stamps n s => ?_⟩
  cases hactive : getActiveSchema s.tables.schemas args.schemaName with
  | ok active =>
      rw [fillDefaults_entitiesUpdated stamps n s hactive,
        migrationDryRun_needsValues s args hactive]
  | error e =>
      have hfill : (fillDefaults args).alone stamps n s = .error e := by
        change (Prog.ofExcept (getActiveSchema s.tables.schemas _) >>= _).alone _ _ _ = _
        rw [hactive]
        rfl
      rw [hfill, migrationDryRun, hactive]
      rfl

end Yorishiro.Entity
