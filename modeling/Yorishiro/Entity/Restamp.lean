import Yorishiro.Entity.Validity

/-!
# Edits beside re-stamps

An `update` without an expected time validates the new data against the version of
the row it has read, and then writes only the data. `confirm` and `undo_job` write
data and version together. When one of them commits between the two statements of an
update, the update leaves data on a version that it was never validated for
(`not_rowsValid_editDuringUndo`). In every interleaving in which each update still
finds the version it has read, every committed entity stays valid:
`restamp_rowsValid`.
-/

set_option autoImplicit false

namespace Yorishiro.Entity

open Yorishiro.Lib Yorishiro.Lib.JsonSchema Yorishiro.Metaschema Yorishiro.Schema

/-- The transactions that meet on an entity: updates without an expected time, and the two
jobs that move an entity to another version. -/
inductive RestampJob where
  | update (id : Uuid) (data : Json) (updatedBy : Option Uuid)
  | confirm (jobId : Uuid) (updatedBy : Option Uuid)
  | undoJob (jobId : Uuid)
deriving DecidableEq

/-- Such a transaction as a job of the workspace. -/
def RestampJob.toJob : RestampJob → Job
  | .update id data updatedBy =>
      .update { id := id, data := data, updatedBy := updatedBy, expectedUpdatedAt := none }
  | .confirm jobId updatedBy => .confirm jobId updatedBy
  | .undoJob jobId => .undoJob jobId

/-- The program of such a transaction. -/
def restampCode (cx : Context) (job : RestampJob) : EntityProg Reply := code cx job.toJob

/-! ## The contract -/

/-- An update finds the row that it writes on the version on which it has read it. -/
def RestampJob.findsVersion : RestampJob → List (Uuid × EntityRow) → Uuid → EntityRow → Bool
  | .update _ _ _, seen, k, row =>
      seen.all fun e => decide (e.1 ≠ k) || decide (e.2.schemaId = row.schemaId)
  | _, _, _, _ => true

/-- Nothing but the versions that updates find is assumed or guaranteed. -/
def restampContract (job : RestampJob) : EntityContract where
  calm := fun seen _ k x => job.findsVersion seen k x = true
  writes := fun _ _ _ _ _ _ => True

instance (job : RestampJob) (seen : List (Uuid × EntityRow)) (wrote : List Uuid) (k : Uuid)
    (x : EntityRow) : Decidable ((restampContract job).calm seen wrote k x) :=
  inferInstanceAs (Decidable (_ = true))

theorem restampContract_obeyed (cx : Context) (schemas : Schemas) (types : Uuid → Option String)
    (job : RestampJob) :
    Obeys (validRows cx.validator.env schemas types) (restampContract job) cx schemas
      job.toJob := by
  apply validRows_obeyed
  · exact fun _ _ _ _ _ _ => trivial
  · intro input existing x hjob hcalm
    cases job with
    | update id data updatedBy =>
        -- an update has read one row, the one it writes
        have hall := List.all_eq_true.mp hcalm _ List.mem_cons_self
        simpa using hall
    | confirm jobId updatedBy => cases hjob
    | undoJob jobId => cases hjob
  · intro args seen wrote k record active t x hjob
    cases job <;> cases hjob

theorem restampContract_verified (cx : Context) (schemas : Schemas)
    (types : Uuid → Option String) :
    Verified (validRows cx.validator.env schemas types) restampContract
      (fun job => JobPost job.toJob) (restampCode cx) :=
  fun job => code_rule validRows_keepsTables (fun _ hb => hb.1)
    (restampContract_obeyed cx schemas types job)

/-! ## Runs -/

/-- **Edits beside re-stamps.** From a state in which every entity and every snapshot is
valid, every run in which each update finds the version it has read reaches only states in
which every committed entity is valid. -/
theorem restamp_rowsValid (cx : Context) (store : EntityStore) (types : Uuid → Option String)
    (hstart : store.Within (validRows cx.validator.env store.tables.schemas types))
    (is : List (Input RestampJob Stamp))
    (hcalm : Transition.StepsMeet (Sys.step (restampCode cx)) (Sys.Calm restampContract)
      (Sys.init store) is) :
    RowsValid cx.validator.env
      (Transition.run (Sys.step (restampCode cx)) (Sys.init store) is).store := by
  have hsound := Sys.sound_run
    (restampContract_verified cx store.tables.schemas types) hstart hcalm
  exact rowsValid_of_within hsound.within

/-! ## An edit and an undo -/

/-- Person 7 is on the second version, and job 9 has a snapshot from before. -/
def peopleAfterJob : EntityStore :=
  peopleStore (person 2 2 (.object [("age", .number (.int 5))]) 10 "first")
    [{ jobId := 9, entityId := 7, schemaId := 1, schemaVersion := 1, data := .object [] }]

/-- An edit of person 7 for the second version. -/
def editAge6 : RestampJob := .update 7 (.object [("age", .number (.int 6))]) none

theorem peopleAfterJob_valid :
    peopleAfterJob.Within (validRows peopleContext.validator.env peopleAfterJob.tables.schemas
      fun k => if k = 7 then some "person" else none) := by
  refine ⟨fun k x hx => ?_, rfl, fun snap hsnap => ?_⟩
  · have hmem := (OrderedMap.mem_entries_iff _ k x).mpr hx
    obtain ⟨rfl, rfl⟩ := Prod.mk.inj (List.mem_singleton.mp hmem)
    exact ⟨rfl, by decide⟩
  · rw [List.mem_singleton.mp hsnap]
    exact ⟨"person", rfl, by decide⟩

/-- The edit commits before the undo begins. -/
def editBeforeUndo : List (Input RestampJob Stamp) :=
  [.start 1 editAge6] ++ Input.steps 1 5 ⟨11, "second"⟩ ++
    [.start 2 (.undoJob 9)] ++ Input.steps 2 4 ⟨12, "third"⟩

/-- Control: the undo after an edit leaves a valid entity. -/
theorem restamp_rowsValid_editBeforeUndo :
    RowsValid peopleContext.validator.env
      (Transition.run (Sys.step (restampCode peopleContext)) (Sys.init peopleAfterJob)
        editBeforeUndo).store ∧
    (Transition.run (Sys.step (restampCode peopleContext)) (Sys.init peopleAfterJob)
        editBeforeUndo).store.rows.get? 7 = some (person 1 1 (.object []) 12 "third") :=
  ⟨restamp_rowsValid peopleContext peopleAfterJob _ peopleAfterJob_valid editBeforeUndo
    (by decide), by decide⟩

/-- The undo commits between the two statements of the edit. -/
def editDuringUndo : List (Input RestampJob Stamp) :=
  [.start 1 editAge6] ++ Input.steps 1 2 ⟨11, "second"⟩ ++
    [.start 2 (.undoJob 9)] ++ Input.steps 2 4 ⟨11, "second"⟩ ++ Input.steps 1 3 ⟨12, "third"⟩

/-- **An undo during an edit leaves an invalid entity.** -/
theorem not_rowsValid_editDuringUndo :
    peopleAfterJob.Within (validRows peopleContext.validator.env peopleAfterJob.tables.schemas
      fun k => if k = 7 then some "person" else none) ∧
    (Transition.run (Sys.step (restampCode peopleContext)) (Sys.init peopleAfterJob)
        editDuringUndo).txns.entries = [] ∧
    ¬ RowsValid peopleContext.validator.env
      (Transition.run (Sys.step (restampCode peopleContext)) (Sys.init peopleAfterJob)
        editDuringUndo).store := by
  refine ⟨peopleAfterJob_valid, by decide, fun h => ?_⟩
  -- the row is back on the first version, with data checked against the second
  have hrow := h 7 (person 1 1 (.object [("age", .number (.int 6))]) 12 "third") (by decide)
  revert hrow
  decide

end Yorishiro.Entity
