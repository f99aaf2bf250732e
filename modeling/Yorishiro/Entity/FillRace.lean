import Yorishiro.Entity.Rules
import Yorishiro.Lib.Versions

/-!
# Filling beside concurrent edits

`fill_defaults` reads all entities that are behind in its first statement and writes
whole data values row by row. An edit that commits in between is overwritten with
what the fill made of the older data (`not_keepsEdits_editDuringFill`). In every
interleaving in which each write of a fill still finds the data that the fill has
read, no edit is lost: `fill_keepsEdits`.
-/

set_option autoImplicit false

namespace Yorishiro.Entity

open Yorishiro.Lib Yorishiro.Lib.JsonSchema Yorishiro.Metaschema Yorishiro.Schema

/-! ## What is claimed -/

/-- The data of `new` is that of `old` with the required fields of the active version
filled in. -/
def FilledFrom (schemas : Schemas) (args : FillDefaultsArgs) (old new : EntityRow) : Prop :=
  ∃ active t, getActiveSchema schemas args.schemaName = .ok active ∧
    active.2.definition.entityTypes.get? old.entityType = some t ∧
    new.data = (fillFieldsInValue t.trees old.data).1

/-- **A fill loses no edit.** For every entity that a committed fill wrote, the version it
replaced is the one that the commits before it had left, and what it wrote is this
version's data with required fields added and nothing else changed. -/
def KeepsEdits (store : EntityStore) (s : EntitySys) : Prop :=
  ∀ before c after args, s.commits = before ++ c :: after → c.job = .fillDefaults args →
    ∀ k old o, (k, old, o) ∈ c.changes →
      (replay store.rows before).get? k = some old ∧
      ∃ new, o = some new ∧ FilledFrom store.tables.schemas args old new ∧ Grows old.data new.data

/-! ## The contract -/

/-- A fill finds, in the row it writes, the data that it has read. -/
def Job.findsReadData : Job → List (Uuid × EntityRow) → Uuid → EntityRow → Bool
  | .fillDefaults _, seen, k, row =>
      seen.all fun e => decide (e.1 ≠ k) || decide (e.2.data = row.data)
  | _, _, _, _ => true

/-- A fill that finds the data it has read fills in what it finds, once for each row. -/
def fillContract (schemas : Schemas) (job : Job) : EntityContract where
  calm := fun seen _ k x => job.findsReadData seen k x = true
  writes := fun _ wrote k _ x o => ∀ args, job = .fillDefaults args →
    k ∉ wrote ∧ ∃ new, o = some new ∧ FilledFrom schemas args x new

instance (schemas : Schemas) (job : Job) (seen : List (Uuid × EntityRow)) (wrote : List Uuid)
    (k : Uuid) (x : EntityRow) : Decidable ((fillContract schemas job).calm seen wrote k x) :=
  inferInstanceAs (Decidable (_ = true))

/-- Every entity keeps its type, and the schemas are fixed. -/
def typedRows (schemas : Schemas) (types : Uuid → String) : EntityWorld where
  row := fun k x => x.entityType = types k
  table := fun b => b.schemas = schemas

theorem Job.data_eq_of_findsReadData {args : FillDefaultsArgs} {seen : List (Uuid × EntityRow)}
    {k : Uuid} {record row : EntityRow}
    (h : (Job.fillDefaults args).findsReadData seen k row = true) (hread : (k, record) ∈ seen) :
    record.data = row.data := by
  have := List.all_eq_true.mp h (k, record) hread
  simpa using this

theorem fillContract_obeyed (cx : Context) (schemas : Schemas) (types : Uuid → String)
    (job : Job) :
    Obeys (typedRows schemas types) (fillContract schemas job) cx schemas job where
  update := by
    rintro input existing stamp x rfl _ hx _ _ _
    exact .intro (fun args hargs => by cases hargs) hx
  delete := by
    rintro id stamp x rfl _ _ args hargs
    cases hargs
  fill := by
    rintro args seen wrote k record active t stamp x rfl hfilling hrecord hx hcalm
    have hdata := Job.data_eq_of_findsReadData hcalm hfilling.read
    -- no job changes an entity's type, so the record and the row found agree on it
    have htype : record.entityType = x.entityType := Eq.trans hrecord (Eq.symm hx)
    refine .intro ?_ hx
    rintro args' hargs
    cases hargs
    refine ⟨hfilling.first, _, rfl, active, t, hfilling.resolved, htype ▸ hfilling.type, ?_⟩
    rw [← hdata]
    rfl
  undo := by
    rintro jobId b snap wrote stamp x rfl _ _ hx _
    exact .intro (fun args hargs => by cases hargs) hx
  confirm := by
    rintro jobId updatedBy seen wrote k existing target data t stamp x rfl _ _ _ hx _ _
    exact .intro (fun args hargs => by cases hargs) hx

theorem fillContract_verified (cx : Context) (schemas : Schemas) (types : Uuid → String) :
    Verified (typedRows schemas types) (fillContract schemas) JobPost (code cx) :=
  fun job => code_rule (KeepsTables.of_schemas _ schemas) (fun _ hb => hb)
    (fillContract_obeyed cx schemas types job)

theorem fillContract_once (schemas : Schemas) (args : FillDefaultsArgs) :
    (fillContract schemas (.fillDefaults args)).Once :=
  fun _ _ _ _ _ _ hwrites => (hwrites args rfl).1

/-! ## Runs -/

/-- The entity types of the first state. -/
def EntityStore.types (store : EntityStore) (k : Uuid) : String :=
  ((store.rows.get? k).map EntityRow.entityType).getD ""

theorem within_typedRows (store : EntityStore) :
    store.Within (typedRows store.tables.schemas (EntityStore.types store)) := by
  refine ⟨fun k x hx => ?_, rfl⟩
  simp [typedRows, EntityStore.types, hx]

theorem keepsEdits_of_sound {store : EntityStore} {types : Uuid → String} {s : EntitySys}
    (hsound : s.Sound (typedRows store.tables.schemas types)
      (fillContract store.tables.schemas) JobPost) (hreplays : s.Replays store.rows) :
    KeepsEdits store s := by
  intro before c after args hcommits hjob k old o hmem
  -- what the fill replaced is what the commits before it had left; what it wrote is its contract's
  refine ⟨hreplays.changed before c after hcommits k old o hmem, ?_⟩
  have hc : c ∈ s.commits := hcommits ▸ List.mem_append_right _ List.mem_cons_self
  have hrelated := (hsound.commits c hc).related
  rw [hjob] at hrelated
  obtain ⟨_, _, _, _, hwrites⟩ := hrelated (fillContract_once _ args) k old o hmem
  obtain ⟨-, new, ho, hfilled⟩ := hwrites args rfl
  refine ⟨new, ho, hfilled, ?_⟩
  obtain ⟨_, t, _, _, hdata⟩ := hfilled
  rw [hdata]
  exact grows_fillFieldsInValue t old.data

/-- **Fills beside edits.** In every run in which each write of a fill finds the data that
the fill has read, no fill loses an edit. -/
theorem fill_keepsEdits (cx : Context) (store : EntityStore) (is : List EntityInput)
    (hcalm : Transition.StepsMeet (Sys.step (code cx))
      (Sys.Calm (fillContract store.tables.schemas)) (Sys.init store) is) :
    KeepsEdits store (Transition.run (Sys.step (code cx)) (Sys.init store) is) := by
  have hverified := fillContract_verified cx store.tables.schemas (EntityStore.types store)
  have hinv := @Transition.run_invariant _ _ (Sys.step (code cx)) _
    (fun s : EntitySys => s.Sound (typedRows store.tables.schemas (EntityStore.types store))
      (fillContract store.tables.schemas) JobPost ∧ s.Replays store.rows)
    (fun _ _ h hstep => ⟨Sys.sound_step hverified h.1 hstep, Sys.replays_step h.1 h.2⟩) _ is
    ⟨Sys.sound_init (within_typedRows store), Sys.replays_init store⟩ hcalm
  exact keepsEdits_of_sound hinv.1 hinv.2

/-! ## A fill and an edit -/

/-- An edit of person 7. -/
def editPerson (data : Json) : Job :=
  .update { id := 7, data := data, updatedBy := none, expectedUpdatedAt := none }

/-- The edit commits before the fill begins. -/
def editBeforeFill (data : Json) : List EntityInput :=
  [.start 2 (editPerson data)] ++ Input.steps 2 5 ⟨11, "second"⟩ ++
    [.start 1 (.fillDefaults fillPeople)] ++ Input.steps 1 6 ⟨12, "third"⟩

/-- Control: filling after an edit adds to what the edit left. -/
theorem fill_keepsEdits_editBeforeFill :
    KeepsEdits (peopleStore (person 1 1 (.object []) 10 "first") [])
      (Transition.run (Sys.step (code peopleContext))
        (Sys.init (peopleStore (person 1 1 (.object []) 10 "first") []))
        (editBeforeFill (.object [("nick", .string "Bo")]))) ∧
    ((Transition.run (Sys.step (code peopleContext))
        (Sys.init (peopleStore (person 1 1 (.object []) 10 "first") []))
        (editBeforeFill (.object [("nick", .string "Bo")]))).store.rows.get? 7).map
      EntityRow.data = some (.object [("age", .number (.int 0)), ("nick", .string "Bo")]) :=
  ⟨fill_keepsEdits peopleContext _ _ (by decide), by decide⟩

/-- The edit commits after the first two statements of the fill. -/
def editDuringFill (data : Json) : List EntityInput :=
  [.start 1 (.fillDefaults fillPeople)] ++ Input.steps 1 2 ⟨11, "second"⟩ ++
    [.start 2 (editPerson data)] ++ Input.steps 2 5 ⟨11, "second"⟩ ++ Input.steps 1 4 ⟨12, "third"⟩

/-- The two commits of such a run: the fill replaces the edited row. -/
theorem commits_editDuringFill :
    (Transition.run (Sys.step (code peopleContext))
      (Sys.init (peopleStore (person 1 1 (.object []) 10 "first") []))
      (editDuringFill (.object [("age", .string "forty")]))).commits =
    [ { job := editPerson (.object [("age", .string "forty")])
        result := .record (person 1 1 (.object [("age", .string "forty")]) 11 "second")
        changes := [(7, person 1 1 (.object []) 10 "first",
          some (person 1 1 (.object [("age", .string "forty")]) 11 "second"))] },
      { job := .fillDefaults fillPeople
        result := .filled
          { schemaName := "people", jobId := 9, entitiesUpdated := 1, fieldsFilled := 1 }
        changes := [(7, person 1 1 (.object [("age", .string "forty")]) 11 "second",
          some (person 1 1 (.object [("age", .number (.int 0))]) 12 "third"))] } ] := by
  decide

/-- **An edit during a fill is lost.** -/
theorem not_keepsEdits_editDuringFill :
    ¬ KeepsEdits (peopleStore (person 1 1 (.object []) 10 "first") [])
      (Transition.run (Sys.step (code peopleContext))
        (Sys.init (peopleStore (person 1 1 (.object []) 10 "first") []))
        (editDuringFill (.object [("age", .string "forty")]))) := by
  intro h
  obtain ⟨-, new, hnew, -, hgrows⟩ :=
    h [_] _ [] fillPeople commits_editDuringFill rfl 7 _ _ List.mem_cons_self
  obtain rfl := Option.some.inj hnew
  -- the edit's value is not among the members any more
  cases hgrows with
  | object ms ns grown hkept hgrows =>
      have hage := hkept "age" (.string "forty") (by decide)
      have hgrown := hgrows "age" (.string "forty") (by decide)
      obtain hzero : Json.number (.int 0) = grown "age" := Option.some.inj hage
      rw [← hzero] at hgrown
      cases hgrown

end Yorishiro.Entity
