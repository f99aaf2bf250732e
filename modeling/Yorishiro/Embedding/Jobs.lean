import Yorishiro.Embedding.Runs
import Yorishiro.Queue.Lifecycle

/-!
# The embedding jobs of a workspace

`embedding_sync` jobs over the rows of a workspace: the writers of entities, of which
some enqueue a job in their transaction and some do not, the deliveries of the jobs,
statement by statement, and the reindexes and provider keys of `Embedding.Runs`.

`import` enqueues for every entity it creates, and `fill_defaults` and `undo_job`
rewrite several entities in one transaction. They are taken here entity by entity:
what they commit is what the labels of their entities reach in a row.

Only `dispatch` records an `embedding_sync` job, and only `perform` starts and
finishes one, so the other operations of the queue do not occur.
-/

set_option autoImplicit false

namespace Yorishiro.Embedding

open Yorishiro.Lib Yorishiro.Lib.Transition Yorishiro.Schema
open Yorishiro.Queue (Instant Lifecycle Lifecycles LifecycleStatus Enqueue recordEnqueue startAt
  finish)

/-- A provider whose vectors depend on its model and the text alone, and whose failures are
not conflicts. -/
structure ModelProvider (vectorOf : String → String → Vector32) extends Provider where
  computes : ∀ n text vector, embed n text = .ok vector → vector = vectorOf modelName text
  fails : ∀ n text message, embed n text ≠ .error (.conflict message)

/-! ## One delivery -/

/-- `EmbeddingSyncOutcome`. -/
inductive EmbeddingSyncOutcome where
  | persisted
  | noop (diagnostic : String)
  | superseded
deriving DecidableEq

/-- `classify_embedding_error`. -/
def classifyEmbeddingError : YorishiroError → Except YorishiroError EmbeddingSyncOutcome
  | .conflict _ => .ok .superseded
  | error => .error error

/-- What `embedding_provider` and `availability` say. The generation is read before and after
the key, so an enabled provider is the one of the generation it was assigned under. -/
inductive Resolution (vectorOf : String → String → Vector32) where
  | failed (error : YorishiroError)
  | missing
  | disabled
  | enabled (provider : ModelProvider vectorOf)

/-- Where a delivery of `embedding_sync` stands. -/
inductive AttemptPhase (vectorOf : String → String → Vector32) where
  | admitted
  | syncing (provider : ModelProvider vectorOf) (phase : SyncPhase)
  | decided (result : Except YorishiroError EmbeddingSyncOutcome)
  | finished

/-- A delivery that was admitted as an attempt of a job. -/
structure Attempt (vectorOf : String → String → Vector32) where
  job : Uuid
  attempt : Int
  entityId : Uuid
  phase : AttemptPhase vectorOf

/-- The result of a sync that has come to its end. -/
def AttemptPhase.ofSync {vectorOf : String → String → Vector32} (p : ModelProvider vectorOf) :
    SyncPhase → AttemptPhase vectorOf
  | .gone => .decided (.ok (.noop "entity deleted after enqueue"))
  | .ended (.ok .persisted) => .decided (.ok .persisted)
  | .ended (.ok .noop) => .decided (.ok (.noop "entity has no x-embed content"))
  | .ended (.error e) => .decided (classifyEmbeddingError e)
  | phase => .syncing p phase

/-- The provider was assigned under the current generation. -/
def assigned (db : EmbeddingDb) (p : Provider) : Bool :=
  decide (p.workspaceRevision = some db.workspace.revision) && db.key.all fun key =>
    decide (key.model = p.modelName) && decide (key.dimensions = (p.dimensions : Int))

/-- The status and the diagnostic a delivery ends with; `describe` is how an error is printed. -/
def finishOf (describe : YorishiroError → String) :
    Except YorishiroError EmbeddingSyncOutcome → LifecycleStatus × Option String
  | .ok .persisted => (.completed, none)
  | .ok (.noop diagnostic) => (.completed, some diagnostic)
  | .ok .superseded => (.cancelled, some "superseded by a newer entity update")
  | .error e => (.failed, some (describe e))

/-! ## The workspace -/

/-- The rows of a workspace and its reindexes, the jobs with the entities they are for, the
deliveries, and the tokens drawn so far. -/
structure JobState (vectorOf : String → String → Vector32) where
  space : EmbeddingState
  lifecycles : Lifecycles
  entityOf : OrderedMap Uuid Uuid
  attempts : List (Attempt vectorOf)
  tokens : List String

/-- The rows of the workspace. -/
def JobState.db {vectorOf : String → String → Vector32} (s : JobState vectorOf) : EmbeddingDb :=
  s.space.db

/-- A new workspace of a tenant. -/
def JobState.new {vectorOf : String → String → Vector32} (tenant : TenantEmbedding) :
    JobState vectorOf :=
  ⟨.new tenant, Table.empty, OrderedMap.empty, [], []⟩

/-- One transaction or statement of one party. `rewrite` is the write of `fill_defaults`,
`undo_job` and the confirmation of a proposal. -/
inductive JobLabel (vectorOf : String → String → Vector32) where
  | create (id : Uuid) (content : EntityContent) (job : Enqueue) (now : Instant)
  | update (id : Uuid) (content : EntityContent) (job : Enqueue) (now : Instant)
  | rewrite (id : Uuid) (content : EntityContent)
  | delete (id : Uuid)
  | resync (id : Uuid) (job : Enqueue) (now : Instant)
  | setKey (key : EmbeddingKey)
  | clearKey
  | tenant (tenant : TenantEmbedding)
  | deliver (job : Uuid) (now : Instant)
  | attempt (k : Nat) (resolution : Resolution vectorOf)
  | finish (k : Nat) (now : Instant)
  | startReindex (provider : ModelProvider vectorOf)
  | reindex (k : Nat)

section Steps

variable {vectorOf : String → String → Vector32} (schemas : Schemas) (display : Json → String)
  (describe : YorishiroError → String)

/-- The next step of a delivery. -/
def attemptNext (db : EmbeddingDb) (a : Attempt vectorOf) (resolution : Resolution vectorOf) :
    EmbeddingDb × AttemptPhase vectorOf :=
  match a.phase with
  | .admitted =>
      match resolution with
      | .failed e => (db, .decided (.error e))
      | .missing => (db, .decided (.ok (.noop "no embedding provider configured")))
      | .disabled => (db, .decided (.ok (.noop "embedding provider explicitly disabled")))
      | .enabled p => (db, if assigned db p.toProvider then .syncing p .started else .admitted)
  | .syncing p phase =>
      ((syncNext schemas display db ⟨p.toProvider, a.entityId, phase⟩).1,
        .ofSync p (syncNext schemas display db ⟨p.toProvider, a.entityId, phase⟩).2)
  | .decided result => (db, .decided result)
  | .finished => (db, .finished)

/-- The job `dispatch_embedding` records. -/
def syncJob (job : Enqueue) : Enqueue :=
  { job with jobName := "embedding_sync", concurrencyKey := none, concurrencyLimit := none }

/-- A transaction that writes a version of an entity, without its job. A token is drawn anew
for every version. -/
def JobState.write (s : JobState vectorOf) (l : EmbeddingLabel) (content : EntityContent) :
    JobState vectorOf :=
  { s with
    space := embeddingStep schemas display s.space l
    tokens := content.embeddingSyncToken :: s.tokens }

/-- The recording of a job in the transaction that leads to `s'`; when it fails, the
transaction is rolled back. -/
def JobState.enqueue (s s' : JobState vectorOf) (id : Uuid) (job : Enqueue) (now : Instant) :
    JobState vectorOf :=
  match recordEnqueue s.lifecycles (syncJob job) now with
  | .ok t => { s' with lifecycles := t, entityOf := s.entityOf.insert job.id id }
  | .error _ => s

/-- A transaction of the rows alone. -/
def JobState.onSpace (s : JobState vectorOf) (l : EmbeddingLabel) : JobState vectorOf :=
  { s with space := embeddingStep schemas display s.space l }

/-- A delivery of a job. -/
def JobState.deliver (s : JobState vectorOf) (job : Uuid) (now : Instant) : JobState vectorOf :=
  match s.entityOf.get? job, startAt s.lifecycles job now with
  | some entityId, .ok (admission, t) =>
      match admission.granted with
      | some k => { s with lifecycles := t, attempts := s.attempts ++ [⟨job, k, entityId, .admitted⟩] }
      | none => s
  | _, _ => s

/-- The state after a step of the delivery `k`. -/
def JobState.attempted (s : JobState vectorOf) (k : Nat) (a : Attempt vectorOf)
    (resolution : Resolution vectorOf) : JobState vectorOf :=
  { s with
    space := { s.space with db := (attemptNext schemas display s.db a resolution).1 }
    attempts := s.attempts.set k
      { a with phase := (attemptNext schemas display s.db a resolution).2 } }

/-- The end of a delivery; a `finish` that is refused changes nothing. -/
def JobState.finishAttempt (s : JobState vectorOf) (k : Nat) (a : Attempt vectorOf)
    (result : Except YorishiroError EmbeddingSyncOutcome) (now : Instant) : JobState vectorOf :=
  match finish s.lifecycles a.job (some a.attempt) (finishOf describe result).1
      (finishOf describe result).2 now with
  | .ok t => { s with lifecycles := t, attempts := s.attempts.set k { a with phase := .finished } }
  | .error _ => s

/-- The state after a label; one that is not enabled changes nothing. -/
def jobStep (s : JobState vectorOf) : JobLabel vectorOf → JobState vectorOf
  | .create id content job now =>
      if s.tokens.contains content.embeddingSyncToken || (s.db.entities.get? id).isSome then s
      else s.enqueue (s.write schemas display (.create id content) content) id job now
  | .update id content job now =>
      if s.tokens.contains content.embeddingSyncToken || (s.db.entities.get? id).isNone then s
      else s.enqueue (s.write schemas display (.update id content) content) id job now
  | .rewrite id content =>
      if s.tokens.contains content.embeddingSyncToken || (s.db.entities.get? id).isNone then s
      else s.write schemas display (.update id content) content
  | .delete id => s.onSpace schemas display (.delete id)
  | .resync id job now => s.enqueue s id job now
  | .setKey key => s.onSpace schemas display (.setKey key)
  | .clearKey => s.onSpace schemas display .clearKey
  | .tenant tenant => s.onSpace schemas display (.tenant tenant)
  | .deliver job now => s.deliver job now
  | .attempt k resolution =>
      match s.attempts[k]? with
      | some a => s.attempted schemas display k a resolution
      | none => s
  | .finish k now =>
      match s.attempts[k]? with
      | some a =>
          match a.phase with
          | .decided result => s.finishAttempt describe k a result now
          | _ => s
      | none => s
  | .startReindex provider => s.onSpace schemas display (.startReindex provider.toProvider)
  | .reindex k => s.onSpace schemas display (.reindex k)

end Steps

/-! ## Freshness -/

section Freshness

variable {vectorOf : String → String → Vector32} (schemas : Schemas) (display : Json → String)

/-- The vector of an entity, or that there is none, is what its text determines. -/
def upToDate (vectorOf : String → String → Vector32) (db : EmbeddingDb) (id : Uuid)
    (content : EntityContent) : Bool :=
  match textOf schemas display content with
  | .ok none => (db.vectors.get? id).isNone
  | .ok (some text) => db.workspace.model.any fun model =>
      decide (db.vectors.get? id = some ⟨vectorOf model text, model⟩)
  | .error _ => false

/-- A job of the entity is queued, running, retrying or failed. -/
def Pending (s : JobState vectorOf) (id : Uuid) : Prop :=
  ∃ job row, s.entityOf.get? job = some id ∧ s.lifecycles.get? job = some row ∧
    (row.status = .queued ∨ row.status = .running ∨ row.status = .retrying ∨ row.status = .failed)

/-- While the gate is down, every entity has a job to come or the vector its text determines. -/
def Fresh (s : JobState vectorOf) : Prop :=
  s.db.workspace.reindexing = false → ∀ id content, s.db.entities.get? id = some content →
    Pending s id ∨ upToDate schemas display vectorOf s.db id content = true

end Freshness

end Yorishiro.Embedding
