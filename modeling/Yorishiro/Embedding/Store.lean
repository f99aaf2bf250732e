import Yorishiro.Embedding.Vector
import Yorishiro.Entity.Validation
import Yorishiro.Schema.Store

/-!
# Embeddings of one workspace

The rows of `entity_embeddings`, the columns of a workspace that guard them, and the
transactions that write them. `publishSync` is the transaction of `sync_embedding`,
`beginReindex` and `publishReindex` are the two of `reindex_workspace`. Each takes
the lock on the workspace row first, as the triggers of every writer of entities or
provider keys do, so each is one function here: it returns the database it commits,
or an error and no database.

A stored vector carries the model that produced it, which the table does not record.
-/

set_option autoImplicit false

namespace Yorishiro.Embedding

open Yorishiro.Lib Yorishiro.Metaschema Yorishiro.Schema Yorishiro.Entity
open Yorishiro.Queue (i32Max)

/-! ## Data -/

/-- An entity as the embedding code reads it, without its id. -/
structure EntityContent where
  schemaId : Uuid
  entityType : String
  data : Json
  embeddingSyncToken : String
deriving DecidableEq

/-- `EmbeddingSnapshot`. -/
structure EmbeddingSnapshot where
  id : Uuid
  content : EntityContent
deriving DecidableEq

/-- A provider, and what its `n`-th call for a document returns; its vectors have the
declared width. -/
structure Provider where
  workspaceRevision : Option Int
  dimensions : Nat
  modelName : String
  embed : Nat → String → Except YorishiroError Vector32
  width : ∀ n text vector, embed n text = .ok vector → vector.length = dimensions

/-- The embedding columns of a row of `workspace_workspaces`. -/
structure WorkspaceEmbedding where
  model : Option String
  dimensions : Option Int
  contentRevision : Int
  revision : Int
  reindexing : Bool
deriving DecidableEq

/-- The columns of the tenant that the embedding code reads. -/
structure TenantEmbedding where
  active : Bool
  model : Option String
  dimensions : Option Int
deriving DecidableEq

/-- What a row of `workspace_embedding_keys` says about its provider. -/
structure EmbeddingKey where
  model : String
  dimensions : Int
deriving DecidableEq

/-- A row of `entity_embeddings`, with the model that produced the vector. -/
structure StoredVector where
  vector : Vector32
  model : String
deriving DecidableEq

/-- The rows of one workspace. -/
structure EmbeddingDb where
  workspace : WorkspaceEmbedding
  tenant : TenantEmbedding
  key : Option EmbeddingKey
  entities : OrderedMap Uuid EntityContent
  vectors : OrderedMap Uuid StoredVector

/-- A new workspace of a tenant. -/
def EmbeddingDb.new (tenant : TenantEmbedding) : EmbeddingDb where
  workspace := ⟨none, none, 0, 0, false⟩
  tenant := tenant
  key := none
  entities := OrderedMap.empty
  vectors := OrderedMap.empty

/-! ## Text -/

/-- The line of one field, if its value is not null. -/
def embeddingPart (display : Json → String) (data : Json) (name : String) : Option String :=
  match data.get? name with
  | some (.string s) => some (name ++ ": " ++ s)
  | some .null | none => none
  | some other => some (name ++ ": " ++ display other)

/-- `compose_embedding_text`; `display` is how `serde_json` prints a value. -/
def composeEmbeddingText (display : Json → String) (t : EntityTypeDef) (data : Json) :
    Option String :=
  match (t.fields.entries.filter fun e => e.2.val.attrs.xEmbed).filterMap
      fun e => embeddingPart display data e.1 with
  | [] => none
  | parts => some ("\n".intercalate parts)

/-- The text of an entity under the schema version it names. -/
def textOf (schemas : Schemas) (display : Json → String) (content : EntityContent) :
    Except YorishiroError (Option String) := do
  let schema ← getById schemas content.schemaId
  let t ← resolveEntityType schema.definition content.entityType
  .ok (composeEmbeddingText display t content.data)

/-! ## Guards -/

/-- `require_active`. -/
def requireActive (tenant : TenantEmbedding) : Except YorishiroError Unit :=
  if tenant.active then .ok () else .error .unauthenticated

/-- `fence_embedding`. -/
def fenceEmbedding (db : EmbeddingDb) (revision : Int) : Except YorishiroError Unit := do
  requireActive db.tenant
  if db.workspace.revision = revision then .ok ()
  else .error (.conflict
    "workspace changed while embeddings were being computed; retry the operation")

/-- `check_embedding_assignment`. -/
def checkEmbeddingAssignment (db : EmbeddingDb) (p : Provider) : Except YorishiroError Unit :=
  if p.workspaceRevision.any fun expected => decide (db.workspace.revision ≠ expected) then
    .error (.conflict "workspace changed since provider resolution")
  else if db.key.any fun key =>
      decide (key.model ≠ p.modelName) || decide (key.dimensions ≠ (p.dimensions : Int)) then
    .error (.conflict "embedding provider assignment changed; resolve the provider again")
  else .ok ()

/-- `DEFAULT_EMBEDDING_DIMENSIONS`. -/
def defaultEmbeddingDimensions : Int := 768

/-- The width a vector of the workspace must have: `i32` settings, cast to `usize`. -/
def expectedDimensions (db : EmbeddingDb) (p : Provider) : Nat :=
  (((db.workspace.dimensions.or db.tenant.dimensions).getD
    (if (p.dimensions : Int) ≤ i32Max then p.dimensions else defaultEmbeddingDimensions)) %
      2 ^ 64).toNat

/-- The model the workspace or its tenant expects is the provider's. -/
def checkEffectiveModel (db : EmbeddingDb) (p : Provider) : Except YorishiroError Unit :=
  match db.workspace.model.or db.tenant.model with
  | some expected =>
      if expected = p.modelName then .ok ()
      else .error (.validationFailed
        ("this workspace expects model " ++ expected.quote ++
          ", but the configured embedding provider is " ++ p.modelName.quote) []
        ("point the deployment at the workspace's effective model, or run " ++
          "reindex_embeddings to switch it over"))
  | none => .ok ()

/-! ## Writes -/

/-- `embed_and_write`: whether the entity was there; one that has changed since the
snapshot is a conflict. -/
def embedAndWrite (db : EmbeddingDb) (model : String) (snapshot : EmbeddingSnapshot)
    (vector : Vector32) : Except YorishiroError (EmbeddingDb × Bool) := do
  validateVector vector vector.length
  match db.entities.get? snapshot.id with
  | some content =>
      if content.embeddingSyncToken = snapshot.content.embeddingSyncToken then
        .ok ({ db with vectors := db.vectors.insert snapshot.id ⟨vector, model⟩ }, true)
      else .error (.conflict ("entity '" ++ snapshot.id.toString ++
        "' was modified while its embedding was being computed"))
  | none => .ok (db, false)

/-- A provider's width as the `i32` column stores it. -/
def dimensionsColumn (p : Provider) : Except YorishiroError Int :=
  if (p.dimensions : Int) ≤ i32Max then .ok p.dimensions
  else .error (.internal
    (.custom s!"provider dimensions {p.dimensions} do not fit in an i32 column"))

/-- `stamp_embedding_if_missing`. -/
def stampIfMissing (db : EmbeddingDb) (model : String) (dimensions : Int) : EmbeddingDb :=
  if db.workspace.model.isNone then
    { db with workspace := { db.workspace with model := some model, dimensions := some dimensions } }
  else db

/-- `restamp_workspace_embedding`. -/
def restamp (db : EmbeddingDb) (model : String) (dimensions : Int) : EmbeddingDb :=
  { db with
    workspace := { db.workspace with
      model := some model, dimensions := some dimensions, reindexing := false } }

/-- `EmbeddingWriteOutcome`. -/
inductive EmbeddingWriteOutcome where
  | persisted
  | noop
deriving DecidableEq

/-- The end of the transaction of `sync_embedding`: the first vector stamps the workspace. -/
def stampFirst (db : EmbeddingDb) (p : Provider) (written : Bool) :
    Except YorishiroError (EmbeddingDb × EmbeddingWriteOutcome) :=
  if written then
    if db.workspace.model.isNone then
      (dimensionsColumn p).map fun dimensions =>
        (stampIfMissing db p.modelName dimensions, .persisted)
    else .ok (db, .persisted)
  else .ok (db, .noop)

/-- The transaction of `sync_embedding`. -/
def publishSync (db : EmbeddingDb) (p : Provider) (snapshot : EmbeddingSnapshot) (revision : Int)
    (vector : Vector32) : Except YorishiroError (EmbeddingDb × EmbeddingWriteOutcome) := do
  fenceEmbedding db revision
  checkEmbeddingAssignment db p
  if db.workspace.reindexing then .error (.conflict "workspace reindex is in progress")
  else do
    validateVector vector (expectedDimensions db p)
    checkEffectiveModel db p
    let (db', written) ← embedAndWrite db p.modelName snapshot vector
    stampFirst db' p written

/-! ## Reindex -/

/-- `ReindexFailure`. -/
structure ReindexFailure where
  entityId : Uuid
  error : YorishiroError
deriving DecidableEq

/-- The first transaction of `reindex_workspace`: the generation it publishes under, and the
content revision it reads. -/
def beginReindex (db : EmbeddingDb) (p : Provider) :
    Except YorishiroError (EmbeddingDb × Int × Int) :=
  if p.dimensions = 0 ∨ i32Max < (p.dimensions : Int) then
    .error (.validationFailed "provider dimensions must be a positive i32" []
      "configure the provider output width")
  else do
    fenceEmbedding db db.workspace.revision
    checkEmbeddingAssignment db p
    .ok ({ db with
      workspace := { db.workspace with revision := db.workspace.revision + 1, reindexing := true } },
      db.workspace.revision + 1, db.workspace.contentRevision)

/-- `reindex_embedding_for_record`; `n` is the number of the call. -/
def reindexEmbeddingForRecord (schemas : Schemas) (display : Json → String) (p : Provider) (n : Nat)
    (snapshot : EmbeddingSnapshot) : Except YorishiroError (Option Vector32) := do
  match ← textOf schemas display snapshot.content with
  | none => .ok none
  | some text => do
      let vector ← p.embed n text
      validateVector vector p.dimensions
      .ok (some vector)

/-- The loop that prepares the vectors of the candidates. -/
def prepare (schemas : Schemas) (display : Json → String) (p : Provider)
    (records : OrderedMap Uuid EntityContent) :
    Nat → List Uuid → List (EmbeddingSnapshot × Option Vector32) × List ReindexFailure
  | _, [] => ([], [])
  | n, id :: ids =>
      let (prepared, failures) := prepare schemas display p records (n + 1) ids
      match records.get? id with
      | none =>
          (prepared, ⟨id, .notFound ("entity " ++ id.toString ++ " no longer exists")⟩ :: failures)
      | some content =>
          match reindexEmbeddingForRecord schemas display p n ⟨id, content⟩ with
          | .ok vector => ((⟨id, content⟩, vector) :: prepared, failures)
          | .error error => (prepared, ⟨id, error⟩ :: failures)

/-- The loop that writes the prepared vectors. -/
def writePrepared (model : String) :
    List (EmbeddingSnapshot × Option Vector32) → EmbeddingDb → Except YorishiroError EmbeddingDb
  | [], db => .ok db
  | (_, none) :: prepared, db => writePrepared model prepared db
  | (snapshot, some vector) :: prepared, db => do
      let (db', written) ← embedAndWrite db model snapshot vector
      if written then writePrepared model prepared db'
      else .error (.conflict "entity disappeared during reindex publication")

/-- The second transaction of `reindex_workspace`, when nothing failed. -/
def publishReindex (db : EmbeddingDb) (p : Provider) (revision contentRevision : Int)
    (prepared : List (EmbeddingSnapshot × Option Vector32)) : Except YorishiroError EmbeddingDb := do
  fenceEmbedding db revision
  if db.workspace.contentRevision ≠ contentRevision then
    .error (.conflict "workspace entities changed during reindex; retry the operation")
  else do
    let cleared := { db with
      vectors := db.vectors.filter fun id _ => (db.entities.get? id).isNone }
    let db' ← writePrepared p.modelName prepared cleared
    let dimensions ← dimensionsColumn p
    .ok (restamp db' p.modelName dimensions)

/-! ## Other writers -/

/-- The insertion of an entity, with its trigger. -/
def insertEntity (db : EmbeddingDb) (id : Uuid) (content : EntityContent) : EmbeddingDb :=
  { db with
    workspace := { db.workspace with contentRevision := db.workspace.contentRevision + 1 }
    entities := db.entities.insert id content }

/-- The update of an entity's content, with its trigger. -/
def updateEntity (db : EmbeddingDb) (id : Uuid) (content : EntityContent) : EmbeddingDb :=
  if (db.entities.get? id).isSome then insertEntity db id content else db

/-- The deletion of an entity, with its trigger and the cascade to its vector. -/
def deleteEntity (db : EmbeddingDb) (id : Uuid) : EmbeddingDb :=
  if (db.entities.get? id).isSome then
    { db with
      workspace := { db.workspace with contentRevision := db.workspace.contentRevision + 1 }
      entities := db.entities.erase id
      vectors := db.vectors.erase id }
  else db

/-- A write of the workspace's provider key fires the trigger once for each row operation: an
upsert of an existing key counts as an insertion and an update. -/
def touchKey (db : EmbeddingDb) (times : Int) (key : Option EmbeddingKey) : EmbeddingDb :=
  { db with
    workspace := { db.workspace with revision := db.workspace.revision + times, reindexing := true }
    key := key }

/-- `set`. -/
def setKey (db : EmbeddingDb) (key : EmbeddingKey) : EmbeddingDb :=
  touchKey db (if db.key.isSome then 2 else 1) (some key)

/-- `clear`. -/
def clearKey (db : EmbeddingDb) : EmbeddingDb :=
  if db.key.isSome then touchKey db 1 none else db

/-! ## What the transactions do -/

theorem fenceEmbedding_eq_ok {db : EmbeddingDb} {revision : Int}
    (h : fenceEmbedding db revision = .ok ()) : db.workspace.revision = revision := by
  obtain ⟨_, -, h⟩ := Except.bind_eq_ok.mp h
  split_ifs at h with hr
  exact hr

theorem checkEmbeddingAssignment_eq_ok {db : EmbeddingDb} {p : Provider}
    (h : checkEmbeddingAssignment db p = .ok ()) :
    (∀ expected, p.workspaceRevision = some expected → db.workspace.revision = expected) ∧
      ∀ key, db.key = some key → key.model = p.modelName ∧ key.dimensions = p.dimensions := by
  unfold checkEmbeddingAssignment at h
  split_ifs at h with hr hk
  refine ⟨?_, ?_⟩
  · intro expected he
    simpa [he] using hr
  · intro key hkey
    simpa [hkey] using hk

theorem embedAndWrite_eq_ok {db db' : EmbeddingDb} {model : String} {snapshot : EmbeddingSnapshot}
    {vector : Vector32} {written : Bool}
    (h : embedAndWrite db model snapshot vector = .ok (db', written)) :
    (written = true ∧
        (∃ content, db.entities.get? snapshot.id = some content ∧
          content.embeddingSyncToken = snapshot.content.embeddingSyncToken) ∧
        db' = { db with vectors := db.vectors.insert snapshot.id ⟨vector, model⟩ }) ∨
      (written = false ∧ db.entities.get? snapshot.id = none ∧ db' = db) := by
  obtain ⟨_, -, h⟩ := Except.bind_eq_ok.mp h
  cases he : db.entities.get? snapshot.id with
  | none =>
      simp only [he] at h
      cases h
      exact Or.inr ⟨rfl, rfl, rfl⟩
  | some content =>
      simp only [he] at h
      split_ifs at h with htoken
      cases h
      exact Or.inl ⟨rfl, ⟨content, rfl, htoken⟩, rfl⟩

/-- What a transaction of `sync_embedding` that stores a vector commits. -/
structure Persists (db db' : EmbeddingDb) (p : Provider) (snapshot : EmbeddingSnapshot)
    (vector : Vector32) : Prop where
  current : ∃ content, db.entities.get? snapshot.id = some content ∧
    content.embeddingSyncToken = snapshot.content.embeddingSyncToken
  vectors : db'.vectors = db.vectors.insert snapshot.id ⟨vector, p.modelName⟩
  entities : db'.entities = db.entities
  key : db'.key = db.key
  model : db'.workspace.model = some p.modelName
  revision : db'.workspace.revision = db.workspace.revision
  contentRevision : db'.workspace.contentRevision = db.workspace.contentRevision
  reindexing : db'.workspace.reindexing = db.workspace.reindexing
  /-- The first vector stamps the workspace; a later one has the width of the stamp. -/
  stamp : (db.workspace.model = none ∧ db'.workspace.dimensions = some (p.dimensions : Int) ∧
      (p.dimensions : Int) ≤ i32Max) ∨
    (db.workspace.model = some p.modelName ∧ db'.workspace.dimensions = db.workspace.dimensions ∧
      vector.length = expectedDimensions db p)

/-- **Sync.** A transaction that commits found its generation current and the gate down. -/
theorem publishSync_eq_ok {db db' : EmbeddingDb} {p : Provider} {snapshot : EmbeddingSnapshot}
    {revision : Int} {vector : Vector32} {outcome : EmbeddingWriteOutcome}
    (h : publishSync db p snapshot revision vector = .ok (db', outcome)) :
    db.workspace.revision = revision ∧ db.workspace.reindexing = false ∧
      ((outcome = .persisted ∧ Persists db db' p snapshot vector) ∨
        (outcome = .noop ∧ db.entities.get? snapshot.id = none ∧ db' = db)) := by
  obtain ⟨_, hfence, h⟩ := Except.bind_eq_ok.mp h
  obtain ⟨_, -, h⟩ := Except.bind_eq_ok.mp h
  split_ifs at h with hgate
  obtain ⟨_, hvalid, h⟩ := Except.bind_eq_ok.mp h
  obtain ⟨_, hmodel, h⟩ := Except.bind_eq_ok.mp h
  obtain ⟨⟨db₁, written⟩, hwrite, hstamp⟩ := Except.bind_eq_ok.mp h
  refine ⟨fenceEmbedding_eq_ok hfence, Bool.not_eq_true _ ▸ hgate, ?_⟩
  rcases embedAndWrite_eq_ok hwrite with ⟨rfl, hcurrent, rfl⟩ | ⟨rfl, hgone, hsame⟩
  · have hlen := (validateVector_eq_ok hvalid).2.1
    simp only [stampFirst, if_true] at hstamp
    cases hm : db.workspace.model with
    | none =>
        simp only [hm, Option.isNone_none, if_true] at hstamp
        obtain ⟨dimensions, hdim, hr⟩ := Except.map_eq_ok hstamp
        unfold dimensionsColumn at hdim
        split_ifs at hdim with hfit
        cases hdim
        cases hr
        refine Or.inl ⟨rfl, hcurrent, ?_, ?_, ?_, ?_, ?_, ?_, ?_, Or.inl ⟨hm, ?_, hfit⟩⟩
        all_goals simp [stampIfMissing, hm]
    | some m =>
        simp only [hm, Option.isNone_some] at hstamp
        cases hstamp
        simp only [checkEffectiveModel, hm, Option.some_or] at hmodel
        split_ifs at hmodel with heq
        subst heq
        exact Or.inl ⟨rfl, hcurrent, rfl, rfl, rfl, hm, rfl, rfl, rfl, Or.inr ⟨hm, rfl, hlen⟩⟩
  · cases hstamp
    exact Or.inr ⟨rfl, hgone, hsame⟩

theorem beginReindex_eq_ok {db db' : EmbeddingDb} {p : Provider} {revision contentRevision : Int}
    (h : beginReindex db p = .ok (db', revision, contentRevision)) :
    db' = { db with
        workspace := { db.workspace with
          revision := db.workspace.revision + 1, reindexing := true } } ∧
      revision = db.workspace.revision + 1 ∧ contentRevision = db.workspace.contentRevision ∧
      0 < p.dimensions ∧ (p.dimensions : Int) ≤ i32Max := by
  unfold beginReindex at h
  split_ifs at h with hdim
  obtain ⟨_, -, h⟩ := Except.bind_eq_ok.mp h
  obtain ⟨_, -, h⟩ := Except.bind_eq_ok.mp h
  cases h
  refine ⟨rfl, rfl, rfl, ?_, ?_⟩
  · omega
  · omega

/-- The vector a list of prepared records has for an entity. -/
def preparedVector (prepared : List (EmbeddingSnapshot × Option Vector32)) (id : Uuid) :
    Option Vector32 :=
  (prepared.find? fun e => decide (e.1.id = id)).bind Prod.snd

theorem preparedVector_cons (e : EmbeddingSnapshot × Option Vector32)
    (prepared : List (EmbeddingSnapshot × Option Vector32)) (id : Uuid) :
    preparedVector (e :: prepared) id =
      if e.1.id = id then e.2 else preparedVector prepared id := by
  simp only [preparedVector, List.find?_cons]
  by_cases h : e.1.id = id
  · simp [h]
  · simp [h]

theorem preparedVector_eq_none {prepared : List (EmbeddingSnapshot × Option Vector32)} {id : Uuid}
    (h : id ∉ prepared.map fun e => e.1.id) : preparedVector prepared id = none := by
  unfold preparedVector
  rw [List.find?_eq_none.mpr]
  · rfl
  · intro e he heq
    exact h (List.mem_map.mpr ⟨e, he, of_decide_eq_true heq⟩)

/-- The loop writes the prepared vectors of entities that have not changed, and nothing else. -/
theorem writePrepared_eq_ok {model : String} {db db' : EmbeddingDb}
    {prepared : List (EmbeddingSnapshot × Option Vector32)}
    (hnodup : (prepared.map fun e => e.1.id).Nodup) (h : writePrepared model prepared db = .ok db') :
    (∃ vectors, db' = { db with vectors }) ∧
      (∀ id, db'.vectors.get? id =
        ((preparedVector prepared id).map fun v => ⟨v, model⟩).or (db.vectors.get? id)) ∧
      ∀ e ∈ prepared, e.2 ≠ none → ∃ content, db.entities.get? e.1.id = some content ∧
        content.embeddingSyncToken = e.1.content.embeddingSyncToken := by
  induction prepared generalizing db with
  | nil =>
      cases h
      exact ⟨⟨_, rfl⟩, fun id => by simp [preparedVector], fun e he => by cases he⟩
  | cons e prepared ih =>
      obtain ⟨snapshot, vector⟩ := e
      simp only [List.map_cons, List.nodup_cons] at hnodup
      -- the entries that follow are about other entities
      have hlater : preparedVector prepared snapshot.id = none := preparedVector_eq_none hnodup.1
      cases vector with
      | none =>
          simp only [writePrepared] at h
          obtain ⟨hrest, hget, hcurrent⟩ := ih hnodup.2 h
          refine ⟨hrest, ?_, ?_⟩
          · intro id
            rw [hget id, preparedVector_cons]
            by_cases hid : snapshot.id = id
            · subst hid
              simp [hlater]
            · simp [hid]
          · intro e he hsome
            rcases List.mem_cons.mp he with rfl | he
            · exact absurd rfl hsome
            · exact hcurrent e he hsome
      | some vector =>
          simp only [writePrepared] at h
          obtain ⟨⟨db₁, written⟩, hwrite, h⟩ := Except.bind_eq_ok.mp h
          rcases embedAndWrite_eq_ok hwrite with ⟨rfl, hentity, rfl⟩ | ⟨rfl, -, -⟩
          · simp only [if_true] at h
            obtain ⟨⟨vectors, rfl⟩, hget, hcurrent⟩ := ih hnodup.2 h
            refine ⟨⟨vectors, rfl⟩, ?_, ?_⟩
            · intro id
              rw [hget id, preparedVector_cons]
              by_cases hid : snapshot.id = id
              · subst hid
                simp [hlater]
              · simp [hid, Ne.symm hid]
            · intro e he hsome
              rcases List.mem_cons.mp he with rfl | he
              · exact hentity
              · exact hcurrent e he hsome
          · cases h

/-- What a publication commits. -/
structure Publishes (db db' : EmbeddingDb) (p : Provider)
    (prepared : List (EmbeddingSnapshot × Option Vector32)) : Prop where
  vectors : ∀ id, db'.vectors.get? id = ((preparedVector prepared id).map fun v =>
    ⟨v, p.modelName⟩).or ((db.vectors.get? id).filter fun _ => (db.entities.get? id).isNone)
  current : ∀ e ∈ prepared, e.2 ≠ none → ∃ content, db.entities.get? e.1.id = some content ∧
    content.embeddingSyncToken = e.1.content.embeddingSyncToken
  entities : db'.entities = db.entities
  key : db'.key = db.key
  workspace : db'.workspace = { db.workspace with
    model := some p.modelName, dimensions := some (p.dimensions : Int), reindexing := false }
  fits : (p.dimensions : Int) ≤ i32Max

/-- **Reindex.** A publication that commits found its generation and the content it read
current. -/
theorem publishReindex_eq_ok {db db' : EmbeddingDb} {p : Provider} {revision contentRevision : Int}
    {prepared : List (EmbeddingSnapshot × Option Vector32)}
    (hnodup : (prepared.map fun e => e.1.id).Nodup)
    (h : publishReindex db p revision contentRevision prepared = .ok db') :
    db.workspace.revision = revision ∧ db.workspace.contentRevision = contentRevision ∧
      Publishes db db' p prepared := by
  obtain ⟨_, hfence, h⟩ := Except.bind_eq_ok.mp h
  split_ifs at h with hcontent
  obtain ⟨db₁, hwrite, h⟩ := Except.bind_eq_ok.mp h
  obtain ⟨dimensions, hdim, h⟩ := Except.bind_eq_ok.mp h
  unfold dimensionsColumn at hdim
  split_ifs at hdim with hfit
  cases hdim
  cases h
  obtain ⟨⟨vectors, rfl⟩, hget, hcurrent⟩ := writePrepared_eq_ok hnodup hwrite
  refine ⟨fenceEmbedding_eq_ok hfence, not_not.mp hcontent, ?_, hcurrent, rfl, rfl, rfl, hfit⟩
  intro id
  rw [show (restamp _ p.modelName _).vectors = vectors from rfl]
  simpa using hget id

/-- Preparation without failures read every candidate, in order. -/
theorem prepare_eq_nil {schemas : Schemas} {display : Json → String} {p : Provider}
    {records : OrderedMap Uuid EntityContent} {n : Nat} {ids : List Uuid}
    {prepared : List (EmbeddingSnapshot × Option Vector32)}
    (h : prepare schemas display p records n ids = (prepared, [])) :
    (prepared.map fun e => e.1.id) = ids ∧
      ∀ e ∈ prepared, records.get? e.1.id = some e.1.content ∧
        ∃ k, reindexEmbeddingForRecord schemas display p k e.1 = .ok e.2 := by
  induction ids generalizing n prepared with
  | nil =>
      cases h
      exact ⟨rfl, fun e he => by cases he⟩
  | cons id ids ih =>
      cases hrest : prepare schemas display p records (n + 1) ids with
      | mk rest failures =>
          simp only [prepare, hrest] at h
          split at h
          · cases h
          · next content hrow =>
            split at h
            · next vector hvector =>
              cases h
              obtain ⟨hids, hall⟩ := ih hrest
              refine ⟨by simp [hids], ?_⟩
              intro e he
              rcases List.mem_cons.mp he with rfl | he
              · exact ⟨hrow, n, hvector⟩
              · exact hall e he
            · cases h

/-- What is prepared for an entity with text is a vector of the provider's width; without
text it is none. -/
theorem reindexEmbeddingForRecord_eq_ok {schemas : Schemas} {display : Json → String} {p : Provider}
    {n : Nat} {snapshot : EmbeddingSnapshot} {vector : Option Vector32}
    (h : reindexEmbeddingForRecord schemas display p n snapshot = .ok vector) :
    (textOf schemas display snapshot.content = .ok none ∧ vector = none) ∨
      ∃ text v, textOf schemas display snapshot.content = .ok (some text) ∧ vector = some v ∧
        p.embed n text = .ok v ∧ v.length = p.dimensions := by
  obtain ⟨text, htext, h⟩ := Except.bind_eq_ok.mp h
  cases text with
  | none =>
      cases h
      exact Or.inl ⟨htext, rfl⟩
  | some text =>
      obtain ⟨v, hv, h⟩ := Except.bind_eq_ok.mp h
      obtain ⟨_, -, h⟩ := Except.bind_eq_ok.mp h
      cases h
      exact Or.inr ⟨text, v, htext, rfl, hv, p.width n text v hv⟩

end Yorishiro.Embedding
