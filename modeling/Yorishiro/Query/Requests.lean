import Yorishiro.Embedding.Vector
import Yorishiro.Queue.Lifecycle

/-!
# Query embedding requests

The statements of `query_embedding_requests`. A server opens a pending row, a
worker completes or fails it, the server expires it when it stops waiting, and
whoever reads a finished row deletes it in the same statement. `take` is two
statements, and others may run between them: `takeFinished` deletes a finished row
and decodes it, `takeWaiting` looks whether an unfinished one is there.

`record_eq_ok` reads the three transitions back: one that wins found the row
pending and wrote its answer, one that loses changed nothing. `complete` stores
whatever vector it is given, and one with a component that is not finite would not
read back (`outcome_completeRow`); an `Answer` has the vector of a provider, which is
finite.
-/

set_option autoImplicit false

namespace Yorishiro.Query

open Yorishiro.Lib Yorishiro.Embedding Yorishiro.Queue

/-- `QueryEmbeddingStatus`. -/
inductive QueryEmbeddingStatus where
  | pending
  | succeeded
  | failed
  | expired
deriving DecidableEq

/-- `QueryOutcome`. -/
inductive QueryOutcome where
  | pending
  | ready (vector : Vector32) (model : String)
  | failed (message : String)
  | expired
deriving DecidableEq

/-- A row of `query_embedding_requests` (its primary key is the table's key). -/
structure Request where
  workspaceId : Uuid
  queryText : String
  status : QueryEmbeddingStatus
  resultVector : Option Json
  dimensions : Option Int
  model : Option String
  error : Option String
  expiresAt : Instant
  deadlineAt : Option Instant
  completedAt : Option Instant
deriving DecidableEq

/-- The table `query_embedding_requests`; it has no unique index besides its key. -/
abbrev Requests := Table Uuid Request fun _ _ => false

/-! ## Statements -/

/-- The retention `open` can represent, in seconds. -/
def retention (retentionSeconds : Nat) : Nat :=
  if retentionSeconds ≤ 9223372036854775807 then retentionSeconds else 9223372036854775807 / 1000

/-- `open`: inserts a pending row. -/
def openRequest (t : Requests) (id workspaceId : Uuid) (queryText : String)
    (retentionSeconds : Nat) (deadlineAt now : Instant) : Except DbErr Requests :=
  t.insert id
    { workspaceId, queryText
      status := .pending
      resultVector := none
      dimensions := none
      model := none
      error := none
      expiresAt := now + retention retentionSeconds * 1000000
      deadlineAt := some deadlineAt
      completedAt := none }

/-- `find_pending`. -/
def findPending (t : Requests) (workspaceId id : Uuid) (now : Instant) : Option Request :=
  (t.get? id).filter fun row =>
    decide (row.workspaceId = workspaceId) && decide (row.status = .pending) &&
      decide (now < row.expiresAt) && row.deadlineAt.any fun deadline => decide (now < deadline)

/-- An update of a pending row of the workspace: whether there was one. -/
def transition (t : Requests) (workspaceId id : Uuid) (active : Bool) (f : Request → Request) :
    Except DbErr (Requests × Bool) :=
  (t.updateRow id
    (fun row => decide (row.workspaceId = workspaceId) && active && decide (row.status = .pending))
    f).map fun r => (r.1, decide (r.2 = 1))

/-- The row `complete` writes. -/
def completeRow (vector : Vector32) (model : String) (now : Instant) (row : Request) : Request :=
  { row with
    status := .succeeded
    resultVector := some (vectorToJson vector)
    dimensions := some (vector.length : Int)
    model := some model
    completedAt := some now }

/-- `complete`; `active` tells which workspaces belong to tenants that are not disabled. -/
def complete (t : Requests) (workspaceId id : Uuid) (vector : Vector32) (model : String)
    (active : Uuid → Bool) (now : Instant) : Except DbErr (Requests × Bool) :=
  if i32Max < vector.length then .error (.custom "query vector is too wide to store")
  else transition t workspaceId id (active workspaceId) (completeRow vector model now)

/-- `fail`. -/
def fail (t : Requests) (workspaceId id : Uuid) (error : String) (now : Instant) :
    Except DbErr (Requests × Bool) :=
  transition t workspaceId id true fun row =>
    { row with status := .failed, error := some error, completedAt := some now }

/-- `expire`. -/
def expire (t : Requests) (workspaceId id : Uuid) : Except DbErr (Requests × Bool) :=
  transition t workspaceId id true fun row => { row with status := .expired }

/-- `outcome`: what a finished row says. -/
def outcome (row : Request) : Except YorishiroError QueryOutcome :=
  match row.status with
  | .succeeded =>
      match (row.resultVector.bind vectorOfJson).filter fun vector =>
          row.dimensions.any fun width => decide (width = vector.length) with
      | some vector => .ok (.ready vector (row.model.getD ""))
      | none => .error (.internal (.custom "the stored query embedding is malformed"))
  | .failed => .ok (.failed (row.error.getD "query embedding failed"))
  | .expired => .ok .expired
  | .pending => .ok .pending

/-- The rows the first statement of `take` deletes. -/
def finished (workspaceId : Uuid) (row : Request) : Bool :=
  decide (row.workspaceId = workspaceId) && decide (row.status ≠ .pending)

/-- The first statement of `take`: the outcome of the row it deleted, if there was one. A
row that does not decode is an error, and the reader's transaction rolls back. -/
def takeFinished (t : Requests) (workspaceId id : Uuid) :
    Except YorishiroError (Requests × Option QueryOutcome) :=
  match (t.get? id).filter (finished workspaceId) with
  | some row => (outcome row).map fun o => (t.delete id, some o)
  | none => .ok (t, none)

/-- The second statement of `take`, when the first deleted nothing. -/
def takeWaiting (t : Requests) (workspaceId id : Uuid) : Option QueryOutcome :=
  ((t.get? id).filter fun row => decide (row.workspaceId = workspaceId)).map fun _ => .pending

/-- `purge_expired`. -/
def purgeExpired (t : Requests) (now : Instant) : Requests :=
  t.deleteWhere fun _ row => decide (row.expiresAt < now)

/-! ## Answers -/

/-- A transition out of pending, with what it records. -/
inductive Answer where
  | complete (vector : ProviderVector) (model : String)
  | fail (error : String)
  | expire
deriving DecidableEq

/-- What a reader of the answer gets. -/
def Answer.outcome : Answer → QueryOutcome
  | .complete vector model => .ready vector.components model
  | .fail error => .failed error
  | .expire => .expired

/-- More components than the `dimensions` column can count. -/
def Answer.tooWide : Answer → Bool
  | .complete vector _ => decide (i32Max < vector.components.length)
  | _ => false

/-- The statement of an answer. -/
def record (t : Requests) (workspaceId id : Uuid) (active : Uuid → Bool) (now : Instant) :
    Answer → Except DbErr (Requests × Bool)
  | .complete vector model => complete t workspaceId id vector.components model active now
  | .fail error => fail t workspaceId id error now
  | .expire => expire t workspaceId id

/-- A row that holds the answer `a`. -/
def Request.Holds (row : Request) : Answer → Prop
  | .complete vector model =>
      row.status = .succeeded ∧ row.resultVector = some (vectorToJson vector.components) ∧
        row.dimensions = some (vector.components.length : Int) ∧ row.model = some model
  | .fail error => row.status = .failed ∧ row.error = some error
  | .expire => row.status = .expired

theorem Request.Holds.status_ne {row : Request} {a : Answer} (h : row.Holds a) :
    row.status ≠ .pending := by
  intro hs
  cases a with
  | complete v m => simp [Request.Holds, hs] at h
  | fail e => simp [Request.Holds, hs] at h
  | expire => simp [Request.Holds, hs] at h

/-- An answer is read back as it was recorded. -/
theorem outcome_of_holds {row : Request} {a : Answer} (h : row.Holds a) :
    Yorishiro.Query.outcome row = .ok a.outcome := by
  cases a with
  | complete v m =>
      obtain ⟨hs, hv, hd, hm⟩ := h
      have hread : ((some (vectorToJson v.components)).bind vectorOfJson).filter
          (fun vector => (some (v.components.length : Int)).any fun width =>
            decide (width = vector.length)) = some v.components := by
        rw [Option.bind_some, vectorOfJson_toJson v.finite]
        simp [Option.filter]
      simp only [Yorishiro.Query.outcome, hs, hv, hd, hm, hread, Answer.outcome, Option.getD_some]
  | fail e =>
      obtain ⟨hs, he⟩ := h
      simp [Yorishiro.Query.outcome, hs, he, Answer.outcome]
  | expire =>
      have hs : row.status = .expired := h
      simp [Yorishiro.Query.outcome, hs, Answer.outcome]

/-- A vector with a component that is not finite would not be read back at all. -/
theorem outcome_completeRow {vector : Vector32} (h : finiteVector vector = false) (model : String)
    (now : Instant) (row : Request) :
    outcome (completeRow vector model now row) =
      .error (.internal (.custom "the stored query embedding is malformed")) := by
  simp [outcome, completeRow, vectorOfJson_eq_none h]

/-- Whatever a reader gets of an answered row is the answer. -/
theorem outcome_eq_of_holds {row : Request} {a : Answer} {o : QueryOutcome} (h : row.Holds a)
    (ho : Yorishiro.Query.outcome row = .ok o) : o = a.outcome := by
  rw [outcome_of_holds h] at ho
  exact (Except.ok.inj ho).symm

/-! ## What a transition does -/

section Effects

variable {t t' : Requests} {workspaceId id : Uuid}

/-- A pending row of the workspace is replaced, or nothing happens. -/
theorem transition_eq_ok {active : Bool} {f : Request → Request} {won : Bool}
    (h : transition t workspaceId id active f = .ok (t', won)) :
    (won = true ∧ ∃ row, t.get? id = some row ∧ row.workspaceId = workspaceId ∧
        row.status = .pending ∧ Table.Replaces t t' id (f row)) ∨
      (won = false ∧ t' = t) := by
  obtain ⟨⟨t₁, n⟩, hu, hr⟩ := Except.map_eq_ok h
  cases hr
  rcases Table.updateRow_eq_ok hu with ⟨row, hrow, hp, hn, hrep⟩ | ⟨-, hn, ht⟩
  · subst hn
    simp only [Bool.and_eq_true, decide_eq_true_eq] at hp
    exact Or.inl ⟨rfl, row, hrow, hp.1.1, hp.2, hrep⟩
  · subst hn
    exact Or.inr ⟨rfl, ht⟩

/-- A transition that loses found no pending row it could write. -/
theorem transition_lost {f : Request → Request}
    (h : transition t workspaceId id true f = .ok (t', false)) :
    ∀ row, t.get? id = some row → row.workspaceId = workspaceId → row.status ≠ .pending := by
  obtain ⟨⟨t₁, n⟩, hu, hr⟩ := Except.map_eq_ok h
  intro row hrow hws hs
  rcases Table.updateRow_eq_ok hu with ⟨-, -, -, hn, -⟩ | ⟨hany, -⟩
  · subst hn
    cases hr
  · simp [hrow, hws, hs] at hany

theorem transition_total (t : Requests) (workspaceId id : Uuid) (active : Bool)
    (f : Request → Request) : ∃ r, transition t workspaceId id active f = .ok r := by
  obtain ⟨t', ht'⟩ := Table.updateWhere_of_no_clash (fun _ _ => rfl)
    (fun l (row : Request) => decide (l = id) &&
      (decide (row.workspaceId = workspaceId) && active && decide (row.status = .pending))) f t
  unfold transition Table.updateRow
  rw [ht']
  exact ⟨_, rfl⟩

/-- **Transitions.** One that wins found the row pending and left it holding the answer; one
that loses changed nothing. -/
theorem record_eq_ok {active : Uuid → Bool} {now : Instant} {a : Answer} {won : Bool}
    (h : record t workspaceId id active now a = .ok (t', won)) :
    (won = true ∧ ∃ row row', t.get? id = some row ∧ row.workspaceId = workspaceId ∧
        row.status = .pending ∧ row'.workspaceId = workspaceId ∧ row'.Holds a ∧
        Table.Replaces t t' id row') ∨
      (won = false ∧ t' = t) := by
  cases a with
  | complete v m =>
      simp only [record, complete] at h
      split_ifs at h
      rcases transition_eq_ok h with ⟨hwon, row, hrow, hws, hs, hrep⟩ | hlost
      · exact Or.inl ⟨hwon, row, completeRow v.components m now row, hrow, hws, hs, hws,
          ⟨rfl, rfl, rfl, rfl⟩, hrep⟩
      · exact Or.inr hlost
  | fail e =>
      rcases transition_eq_ok h with ⟨hwon, row, hrow, hws, hs, hrep⟩ | hlost
      · refine Or.inl ⟨hwon, row, _, hrow, hws, hs, ?_, ?_, hrep⟩
        · exact hws
        · exact ⟨rfl, rfl⟩
      · exact Or.inr hlost
  | expire =>
      rcases transition_eq_ok h with ⟨hwon, row, hrow, hws, hs, hrep⟩ | hlost
      · refine Or.inl ⟨hwon, row, _, hrow, hws, hs, ?_, ?_, hrep⟩
        · exact hws
        · exact (rfl : QueryEmbeddingStatus.expired = .expired)
      · exact Or.inr hlost

/-- A transition fails only on a vector too wide to store. -/
theorem record_total (t : Requests) (workspaceId id : Uuid) (active : Uuid → Bool) (now : Instant)
    {a : Answer} (h : a.tooWide = false) : ∃ r, record t workspaceId id active now a = .ok r := by
  cases a with
  | complete v m =>
      have hw : ¬ i32Max < (v.components.length : Int) := by simpa [Answer.tooWide] using h
      simp only [record, complete, if_neg hw]
      exact transition_total ..
  | fail e => exact transition_total ..
  | expire => exact transition_total ..

/-- A transition on a row that is not there is refused and writes nothing. -/
theorem record_of_gone (active : Uuid → Bool) (now : Instant) (a : Answer)
    (hgone : t.get? id = none) :
    record t workspaceId id active now a = .ok (t, false) ∨
      (a.tooWide = true ∧ ∃ e, record t workspaceId id active now a = .error e) := by
  cases hr : record t workspaceId id active now a with
  | ok r =>
      obtain ⟨t', won⟩ := r
      rcases record_eq_ok hr with ⟨-, row, -, hrow, -⟩ | ⟨hwon, ht⟩
      · rw [hgone] at hrow
        cases hrow
      · subst hwon ht
        exact Or.inl rfl
  | error e =>
      refine Or.inr ⟨?_, e, rfl⟩
      by_contra hw
      obtain ⟨r, hok⟩ := record_total t workspaceId id active now (Bool.not_eq_true _ ▸ hw)
      rw [hr] at hok
      cases hok

/-- A read that gets an outcome found a finished row of the workspace and deleted it. -/
theorem takeFinished_some {found : QueryOutcome}
    (h : takeFinished t workspaceId id = .ok (t', some found)) :
    ∃ row, t.get? id = some row ∧ row.workspaceId = workspaceId ∧ row.status ≠ .pending ∧
      outcome row = .ok found ∧ t' = t.delete id := by
  unfold takeFinished at h
  split at h
  · next row hrow =>
      obtain ⟨hget, hp⟩ := Option.filter_eq_some_iff.mp hrow
      simp only [finished, Bool.and_eq_true, decide_eq_true_eq] at hp
      obtain ⟨o, ho, hr⟩ := Except.map_eq_ok h
      cases hr
      exact ⟨row, hget, hp.1, hp.2, ho, rfl⟩
  · cases h

/-- A read that gets nothing found no finished row of the workspace. -/
theorem takeFinished_none (h : takeFinished t workspaceId id = .ok (t', none)) :
    t' = t ∧ ∀ row, t.get? id = some row → row.workspaceId = workspaceId →
      row.status = .pending := by
  unfold takeFinished at h
  split at h
  · obtain ⟨o, -, hr⟩ := Except.map_eq_ok h
    cases hr
  · next hnone =>
      cases h
      refine ⟨rfl, ?_⟩
      intro row hrow hws
      by_contra hs
      simp [hrow, Option.filter, finished, hws, hs] at hnone

/-- A read fails only on a finished row that does not decode. -/
theorem takeFinished_error {e : YorishiroError} (h : takeFinished t workspaceId id = .error e) :
    ∃ row, t.get? id = some row ∧ row.status ≠ .pending ∧ outcome row = .error e := by
  unfold takeFinished at h
  split at h
  · next row hrow =>
      obtain ⟨hget, hp⟩ := Option.filter_eq_some_iff.mp hrow
      simp only [finished, Bool.and_eq_true, decide_eq_true_eq] at hp
      cases hout : outcome row with
      | ok o =>
          rw [hout] at h
          cases h
      | error e' =>
          rw [hout] at h
          cases h
          exact ⟨row, hget, hp.2, hout⟩
  · cases h

end Effects

end Yorishiro.Query
