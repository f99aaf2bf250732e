import Yorishiro.Entity.Rules
import Yorishiro.Lib.Versions

/-!
# Guarded updates

An `update` with an expected time compares the time of the row it reads and, when it
writes, the token of the row it finds. All other writers of an entity move both
columns: the clock gives the time and the trigger the token. `guarded_updates` says
that no guarded update is lost or loses another one, for every interleaving of the
jobs of a workspace in which no write gets a time or a token that the entity has had
before.
-/

set_option autoImplicit false

namespace Yorishiro.Entity

open Yorishiro.Lib Yorishiro.Lib.JsonSchema Yorishiro.Metaschema Yorishiro.Schema
open Yorishiro.Queue (Instant)

/-! ## What is claimed -/

/-- The job is an update of entity `id` by a client that has read the version of time
`expected`. -/
def Job.Guards (job : Job) (id : Uuid) (expected : Instant) : Prop :=
  ∃ input, job = .update input ∧ input.id = id ∧ input.expectedUpdatedAt = some expected

/-- **Guarded updates lose no update.** A guarded update that has committed replaced one
row, which is the version its client had read: the only version that the entity ever had
with the expected time. Of the guarded updates with the same expected time, at most one
has committed. -/
structure LosesNoUpdate (s : EntitySys) : Prop where
  replaced : ∀ c ∈ s.commits, ∀ input expected, c.job = .update input →
    input.expectedUpdatedAt = some expected →
    ∃ old new, (input.id, old, some new) ∈ c.changes ∧
      (∀ k x o, (k, x, o) ∈ c.changes → k = input.id ∧ x = old) ∧
      (input.id, old) ∈ s.written ∧ old.updatedAt = expected ∧
      (∀ read, (input.id, read) ∈ s.written → read.updatedAt = expected → read = old) ∧
      new.data = input.data
  atMostOne : s.commits.Pairwise fun a b =>
    ∀ id expected, a.job.Guards id expected → ¬ b.job.Guards id expected

/-- A write of this step gets neither a time nor a token that its entity has had. -/
def FreshStamps (s : EntitySys) (i : EntityInput) : Prop :=
  s.Fresh EntityRow.updatedAt Stamp.now i ∧ s.Fresh EntityRow.embeddingSyncToken Stamp.token i

instance (s : EntitySys) (i : EntityInput) : Decidable (FreshStamps s i) :=
  inferInstanceAs (Decidable (_ ∧ _))

/-! ## The contract -/

/-- Every write is stamped, and a guarded update writes only its own entity, once, and
only over a row that has the token of the row it read. -/
def guardedContract (job : Job) : EntityContract where
  -- nothing is assumed of the row a write finds: the result holds in every interleaving
  calm := fun _ _ _ _ => True
  writes := fun seen wrote k stamp x o =>
    (∀ y, o = some y → y.updatedAt = stamp.now ∧ y.embeddingSyncToken = stamp.token) ∧
    ∀ input expected, job = .update input → input.expectedUpdatedAt = some expected →
      k = input.id ∧ k ∉ wrote ∧
      (∃ read, (k, read) ∈ seen ∧ read.updatedAt = expected ∧
        x.embeddingSyncToken = read.embeddingSyncToken) ∧
      o = some (x.withData input.data input.updatedBy stamp)

/-- Nothing is known of the rows; the schemas are fixed. -/
def anyRows (schemas : Schemas) : EntityWorld where
  row := fun _ _ => True
  table := fun b => b.schemas = schemas

/-- The other jobs only owe the stamp. -/
theorem guardedContract_leaves {schemas : Schemas} {job : Job} {seen : List (Uuid × EntityRow)}
    {wrote : List Uuid} {k : Uuid} {stamp : Stamp} {x y : EntityRow}
    (hjob : ∀ input, job ≠ .update input) (htime : y.updatedAt = stamp.now)
    (htoken : y.embeddingSyncToken = stamp.token) :
    Leaves (anyRows schemas) (guardedContract job) seen wrote k stamp x (some y) := by
  refine .intro ⟨?_, fun input expected hinput => absurd hinput (hjob input)⟩ trivial
  rintro z hz
  cases hz
  exact ⟨htime, htoken⟩

theorem guardedContract_obeyed (cx : Context) (schemas : Schemas) (job : Job) :
    Obeys (anyRows schemas) (guardedContract job) cx schemas job where
  update := by
    rintro input existing stamp x rfl _ _ hguard _ _
    refine .intro ⟨?_, ?_⟩ trivial
    · rintro y hy
      cases hy
      exact ⟨rfl, rfl⟩
    · rintro input' expected hinput hexpected
      cases hinput
      obtain ⟨htime, htoken⟩ := hguard expected hexpected
      exact ⟨rfl, List.not_mem_nil, ⟨existing, List.mem_cons_self, htime, htoken⟩, rfl⟩
  delete := by
    rintro id stamp x rfl _ _
    exact ⟨fun y hy => (by cases hy), fun input expected hinput => (by cases hinput)⟩
  fill := by
    rintro args seen wrote k record active t stamp x rfl _ _ _ _
    exact guardedContract_leaves (by simp) rfl rfl
  undo := by
    rintro jobId b snap wrote stamp x rfl _ _ _ _
    exact guardedContract_leaves (by simp) rfl rfl
  confirm := by
    rintro jobId updatedBy seen wrote k existing target data t stamp x rfl _ _ _ _ _ _
    exact guardedContract_leaves (by simp) rfl rfl

theorem guardedContract_verified (cx : Context) (schemas : Schemas) :
    Verified (anyRows schemas) guardedContract JobPost (code cx) :=
  fun job => code_rule (KeepsTables.of_schemas _ schemas) (fun _ hb => hb)
    (guardedContract_obeyed cx schemas job)

theorem guardedContract_once {input : UpdateEntityInput} {expected : Instant}
    (h : input.expectedUpdatedAt = some expected) : (guardedContract (.update input)).Once :=
  fun _ _ _ _ _ _ hwrites => (hwrites.2 input expected rfl h).2.1

theorem guardedContract_calm (s : EntitySys) (i : EntityInput) : s.Calm guardedContract i := by
  cases i with
  | start t job => trivial
  | step t stamp =>
      simp only [Sys.Calm]
      split <;> trivial

/-! ## Runs -/

/-- What holds in every state of a run with fresh stamps. -/
structure GuardedInv (schemas : Schemas) (s : EntitySys) : Prop where
  sound : s.Sound (anyRows schemas) guardedContract JobPost
  times : s.Unique EntityRow.updatedAt
  tokens : s.Unique EntityRow.embeddingSyncToken
  retired : s.Retired

theorem guardedInv_init (store : EntityStore) :
    GuardedInv store.tables.schemas (Sys.init store : EntitySys) where
  sound := Sys.sound_init ⟨fun _ _ _ => trivial, rfl⟩
  times := Sys.unique_init store
  tokens := Sys.unique_init store
  retired := Sys.retired_init store

theorem guardedInv_step {cx : Context} {schemas : Schemas} {s : EntitySys} {i : EntityInput}
    (h : GuardedInv schemas s) (hfresh : FreshStamps s i) :
    GuardedInv schemas (s.step (code cx) i) := by
  have hcalm := guardedContract_calm s i
  have htimes : Stamped EntityRow.updatedAt Stamp.now guardedContract :=
    fun _ _ _ _ _ _ y hwrites => (hwrites.1 y rfl).1
  have htokens : Stamped EntityRow.embeddingSyncToken Stamp.token guardedContract :=
    fun _ _ _ _ _ _ y hwrites => (hwrites.1 y rfl).2
  exact
    { sound := Sys.sound_step (guardedContract_verified cx schemas) h.sound hcalm
      times := Sys.unique_step h.sound htimes hcalm hfresh.1 h.times
      tokens := Sys.unique_step h.sound htokens hcalm hfresh.2 h.tokens
      retired := Sys.retired_step h.sound htimes hcalm hfresh.1 h.retired }

/-- Every row that a committed guarded update replaced is its own entity, in the version
with the expected time. -/
theorem GuardedInv.replaced_eq {schemas : Schemas} {s : EntitySys} (h : GuardedInv schemas s)
    {c : Commit Job Uuid EntityRow Reply} (hc : c ∈ s.commits) {input : UpdateEntityInput}
    {expected : Instant} (hjob : c.job = .update input)
    (hexpected : input.expectedUpdatedAt = some expected) {k : Uuid} {old : EntityRow}
    {o : Option EntityRow} (hmem : (k, old, o) ∈ c.changes) :
    k = input.id ∧ old.updatedAt = expected ∧
      ∃ stamp, o = some (old.withData input.data input.updatedBy stamp) := by
  have hrelated := (h.sound.commits c hc).related
  rw [hjob] at hrelated
  obtain ⟨seen, wrote, stamp, hseen, hwrites⟩ :=
    hrelated (guardedContract_once hexpected) k old o hmem
  obtain ⟨hk, -, ⟨read, hread, htime, htoken⟩, ho⟩ := hwrites.2 input expected rfl hexpected
  -- the row it replaced has the token of the row it read, so it is that row
  have hsame : old = read :=
    h.tokens k old read (h.retired.known c hc k old o hmem) (hseen _ hread) htoken
  exact ⟨hk, hsame ▸ htime, stamp, ho⟩

theorem GuardedInv.losesNoUpdate {schemas : Schemas} {s : EntitySys} (h : GuardedInv schemas s) :
    LosesNoUpdate s := by
  -- a committed guarded update changed its entity
  have hchanged : ∀ c ∈ s.commits, ∀ input, c.job = .update input →
      ∃ old o, (input.id, old, o) ∈ c.changes := by
    intro c hc input hjob
    obtain ⟨seen, wrote, hpost, -, hwrote⟩ := (h.sound.commits c hc).out
    exact (hwrote input.id).mp (hpost input hjob ▸ List.mem_cons_self)
  constructor
  case replaced =>
    intro c hc input expected hjob hexpected
    obtain ⟨old, o, hmem⟩ := hchanged c hc input hjob
    obtain ⟨-, htime, stamp, rfl⟩ := h.replaced_eq hc hjob hexpected hmem
    have hknown := h.retired.known c hc _ _ _ hmem
    -- times tell versions apart, so any version of the expected time is `old`
    refine ⟨old, _, hmem, ?_, hknown, htime, ?_, rfl⟩
    · intro k x o' hmem'
      obtain ⟨rfl, htime', -⟩ := h.replaced_eq hc hjob hexpected hmem'
      exact ⟨rfl, h.times _ x old (h.retired.known c hc _ _ _ hmem') hknown
        (htime'.trans htime.symm)⟩
    · intro read hread hreadTime
      exact h.times _ read old hread hknown (hreadTime.trans htime.symm)
  case atMostOne =>
    -- no version is replaced twice, so two commits replaced different versions
    refine h.retired.once.imp_of_mem ?_
    rintro a b ha hb hab id expected ⟨input, hjob, rfl, hexpected⟩ ⟨input', hjob', hid, hexpected'⟩
    obtain ⟨old, o, hmem⟩ := hchanged a ha input hjob
    obtain ⟨old', o', hmem'⟩ := hchanged b hb input' hjob'
    obtain ⟨-, htime, -⟩ := h.replaced_eq ha hjob hexpected hmem
    obtain ⟨-, htime', -⟩ := h.replaced_eq hb hjob' hexpected' hmem'
    rw [hid] at hmem'
    -- both would have replaced the one version of that time
    obtain rfl : old = old' := h.times _ old old' (h.retired.known a ha _ _ _ hmem)
      (h.retired.known b hb _ _ _ hmem') (htime.trans htime'.symm)
    exact hab input.id old o o' hmem hmem'

/-- **Guarded updates, in every run.** -/
theorem guarded_updates (cx : Context) (store : EntityStore) (is : List EntityInput)
    (hfresh : Transition.StepsMeet (Sys.step (code cx)) FreshStamps (Sys.init store) is) :
    LosesNoUpdate (Transition.run (Sys.step (code cx)) (Sys.init store) is) := by
  have hinv : GuardedInv store.tables.schemas
      (Transition.run (Sys.step (code cx)) (Sys.init store) is) :=
    Transition.run_invariant (GuardedInv store.tables.schemas)
      (fun _ _ h hstep => guardedInv_step h hstep) (guardedInv_init store) hfresh
  exact hinv.losesNoUpdate

/-- An edit of person 7 by a client that read the version of time 10. -/
def editAge (age : String) : Job :=
  .update
    { id := 7
      data := .object [("age", .string age)]
      updatedBy := none
      expectedUpdatedAt := some 10 }

/-- Two clients edit the version of time 10; both read it before the first one writes. -/
def editRace : List EntityInput :=
  [ .start 1 (editAge "forty"), .start 2 (editAge "fifty") ] ++
    [1, 2, 1, 2, 1, 1, 1, 2, 2].map fun t => .step t { now := 11, token := "second" }

/-- Control: the race is a run of the theorem, and one of the two edits commits. -/
theorem guarded_updates_editRace :
    LosesNoUpdate (Transition.run (Sys.step (code peopleContext))
      (Sys.init (peopleStore (person 1 1 (.object []) 10 "first") [])) editRace) ∧
    (Transition.run (Sys.step (code peopleContext))
      (Sys.init (peopleStore (person 1 1 (.object []) 10 "first") [])) editRace).commits.map
        Commit.job = [editAge "forty"] :=
  ⟨guarded_updates peopleContext _ editRace (by decide), by decide⟩

end Yorishiro.Entity
