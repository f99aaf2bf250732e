import Yorishiro.Entity.Review
import Yorishiro.Schema.Forks

/-!
# The operations on a graph

What can happen to the schemas, entities and relations of a workspace. Besides the transactions of
`Yorishiro.Entity.Review`, relations are made, moved to another status and deleted one by one,
forks leave their heads among the schema versions, and archived versions that nothing refers to are
deleted. An infer-fill worker reads the entities on outdated versions in one transaction
(`readOutdated`) and records what was proposed for them in another (`recordAnswers`), with other
transactions in between; the state keeps what each worker has read.

A graph is reached from an empty workspace by a run of all of these (`GraphOp.step`).
-/

set_option autoImplicit false

namespace Yorishiro.Transfer

open Yorishiro.Lib Yorishiro.Metaschema Yorishiro.Entity
open Yorishiro.Schema hiding archive deleteFork

/-! ## Relations -/

/-- The refusal of a relation that is not there. -/
def relationNotFound (id : Uuid) : YorishiroError :=
  .notFound ("relation '" ++ id.toString ++ "' was not found")

/-- `set_status`: moves a relation to another state. -/
def setStatus (s : WorkspaceState) (id : Uuid) (status : RelationStatus) :
    Except YorishiroError WorkspaceState :=
  if (s.relations.get? id).isNone then .error (relationNotFound id)
  else do
    let (relations, _) ← (s.relations.updateRow id (fun _ => true) fun row =>
      { row with status := status }).mapError .internal
    pure { s with relations := relations }

/-- `delete` of a relation. -/
def deleteRelation (s : WorkspaceState) (id : Uuid) : Except YorishiroError WorkspaceState :=
  if (s.relations.get? id).isNone then .error (relationNotFound id)
  else .ok { s with relations := s.relations.delete id }

/-! ## Versions -/

/-- What the tables of forks say about a version. -/
structure ForkReferences where
  forks : Bool
  heads : Bool
deriving DecidableEq, Repr

/-- The kinds of rows that refer to a version, by the names `delete` gives them. -/
def blockers (s : WorkspaceState) (id : Uuid) (references : ForkReferences) : List String :=
  let kind (present : Bool) (name : String) : List String := if present then [name] else []
  kind (s.store.rows.entries.any fun e => decide (e.2.schemaId = id)) "entities" ++
    kind (s.store.tables.snapshots.any fun snap => decide (snap.schemaId = id))
      "entity snapshots" ++
    kind (s.store.tables.proposals.entries.any fun e => decide (e.2.schemaId = id))
      "inference proposals" ++
    kind (decide (s.store.tables.workspace.schemaId = some id)) "workspaces" ++
    kind references.forks "schema forks" ++ kind references.heads "schema fork heads"

/-- `delete` of a version. -/
def deleteSchema (s : WorkspaceState) (id : Uuid) (references : ForkReferences) :
    Except YorishiroError WorkspaceState := do
  let schema ← getById s.store.tables.schemas id
  let named := "schema '" ++ schema.name ++ "' version " ++ toString schema.version
  require (decide (schema.status = .archived))
    (.conflict (named ++ " is still active; archive it before deleting"))
  require (blockers s id references).isEmpty
    (.conflict (named ++ " is still referenced by: " ++
      ", ".intercalate (blockers s id references)))
  pure (s.withSchemas (s.store.tables.schemas.delete id) s.store.tables.workspace)

/-! ## Proposals -/

/-- What the first transaction of `perform_infer_fill` has read: the active version of the named
schema, and the entities on other versions of it. -/
structure InferReading where
  schemaName : String
  target : Target
  entityIds : List Uuid

/-- The database of a workspace, and what its infer-fill workers have read. -/
structure GraphState where
  review : ReviewState
  readings : List InferReading

abbrev GraphState.workspace (s : GraphState) : WorkspaceState := s.review.workspace

/-- A workspace before its first schema, and no workers. -/
def GraphState.empty (maxEntities : Option Int) : GraphState where
  review := { workspace := .empty maxEntities, filled := [] }
  readings := []

/-- The state with another workspace. -/
def GraphState.withWorkspace (s : GraphState) (workspace : WorkspaceState) : GraphState :=
  { s with review := { s.review with workspace := workspace } }

/-- `entities_on_outdated_schema`. -/
def entitiesOnOutdatedSchema (store : EntityStore) (schemaName : String) (activeId : Uuid) :
    List Uuid :=
  (store.rows.entries.filter fun e =>
    (store.tables.schemas.get? e.2.schemaId).any (fun schema => decide (schema.name = schemaName)) &&
      decide (e.2.schemaId ≠ activeId)).map Prod.fst

/-- The first transaction of `perform_infer_fill`. -/
def readOutdated (s : GraphState) (jobId : Uuid) (schemaName : String) :
    Except YorishiroError GraphState := do
  let active ← getActiveSchema s.workspace.store.tables.schemas schemaName
  pure { s with
    readings := s.readings ++
      [{ schemaName := schemaName
         target := { jobId := jobId, schemaId := active.1, schemaVersion := active.2.version }
         entityIds := entitiesOnOutdatedSchema s.workspace.store schemaName active.1 }] }

/-- The second transaction of `perform_infer_fill`. There is a batch only for an entity that was
read. -/
def recordAnswers (cx : Context) (backend : Backend) (s : GraphState) (reading : Nat)
    (attempt : Attempt) : Except YorishiroError GraphState :=
  match s.readings[reading]? with
  | none => .ok s
  | some read =>
      if attempt.batches.all fun batch => decide (batch.entityId ∈ read.entityIds) then do
        let tables ← recordProposals cx backend s.review.tables read.schemaName read.target attempt
        pure { s with review := s.review.withTables tables }
      else .ok s

/-! ## Runs -/

/-- The transactions of a review that record no proposals. -/
def ReviewOp.recordsNone : ReviewOp → Bool
  | .record _ _ _ => false
  | _ => true

/-- An operation on the graph, with what the database gives it. -/
inductive GraphOp where
  | review (op : { op : ReviewOp // ReviewOp.recordsNone op = true })
  | readOutdated (jobId : Uuid) (schemaName : String)
  | recordAnswers (reading : Nat) (attempt : Attempt)
  | relate (sourceId targetId : Uuid) (relationType : String) (properties : Json) (id : Uuid)
  | setStatus (id : Uuid) (status : RelationStatus)
  | unrelate (id : Uuid)
  | forkHead (tenantId : Uuid) (definition : MetaSchemaDefinition) (id : Uuid)
  | deleteSchema (id : Uuid) (references : ForkReferences)

/-- What an operation does, if it succeeds. -/
def GraphOp.apply (cx : Context) (backend : Backend) (s : GraphState) :
    GraphOp → Except YorishiroError GraphState
  | .review op => do
      let review ← op.1.apply cx backend s.review
      pure { s with review := review }
  | .readOutdated jobId schemaName => Transfer.readOutdated s jobId schemaName
  | .recordAnswers reading attempt => Transfer.recordAnswers cx backend s reading attempt
  | .relate sourceId targetId relationType properties id => do
      let workspace ← createRelation s.workspace sourceId targetId relationType properties id
      pure (s.withWorkspace workspace)
  | .setStatus id status => do
      let workspace ← Transfer.setStatus s.workspace id status
      pure (s.withWorkspace workspace)
  | .unrelate id => do
      let workspace ← deleteRelation s.workspace id
      pure (s.withWorkspace workspace)
  | .forkHead tenantId definition id => do
      let (schemas, _) ← insertForkHead cx.validator.env cx.showBound
        s.workspace.store.tables.schemas tenantId definition id
      pure (s.withWorkspace (s.workspace.withSchemas schemas s.workspace.store.tables.workspace))
  | .deleteSchema id references => do
      let workspace ← Transfer.deleteSchema s.workspace id references
      pure (s.withWorkspace workspace)

/-- One operation; a failed one leaves the graph as it was. -/
def GraphOp.step (cx : Context) (backend : Backend) (s : GraphState) (op : GraphOp) : GraphState :=
  match op.apply cx backend s with
  | .ok s' => s'
  | .error _ => s

end Yorishiro.Transfer
