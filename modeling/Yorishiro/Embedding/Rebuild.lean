import Yorishiro.Embedding.Runs

/-!
# Vectors kept up one by one, and rebuilt

A workspace whose entities are written one after the other, each write followed by a
sync of the entity that succeeds, and a reindex of the outcome. Both compose the text
of the entity's current version; they differ when there is none. A sync then leaves the
vector of the last version that had a text, a reindex has deleted it.

`rebuild_agrees`: the two agree exactly when no entity has lost its text.
-/

set_option autoImplicit false

namespace Yorishiro.Embedding

open Yorishiro.Lib Yorishiro.Metaschema Yorishiro.Schema

/-- A provider that returns the same for the same text. -/
def Provider.Deterministic (p : Provider) : Prop :=
  ∀ n text, p.embed n text = p.embed 0 text

/-- A write of an entity. -/
inductive EntityWrite where
  | create (id : Uuid) (content : EntityContent)
  | update (id : Uuid) (content : EntityContent)
  | delete (id : Uuid)

section Definitions

variable (schemas : Schemas) (display : Json → String) (p : Provider)

/-! ## Uninterrupted runs -/

/-- `sync_embedding_for_snapshot` of the entity as it is, with no other party in between. -/
def syncEmbedding (db : EmbeddingDb) (id : Uuid) : EmbeddingDb × SyncPhase :=
  let read := syncNext schemas display db ⟨p, id, .started⟩
  let ready := syncNext schemas display read.1 ⟨p, id, read.2⟩
  syncNext schemas display ready.1 ⟨p, id, ready.2⟩

/-- `reindex_workspace` with no other party in between. -/
def reindexWorkspace (db : EmbeddingDb) : EmbeddingDb × ReindexPhase :=
  let fenced := reindexNext schemas display db ⟨p, .started, false⟩
  let listed := reindexNext schemas display fenced.1 ⟨p, fenced.2, false⟩
  let loaded := reindexNext schemas display listed.1 ⟨p, listed.2, false⟩
  reindexNext schemas display loaded.1 ⟨p, loaded.2, false⟩

/-- The database after a successful sync. -/
def synced (db : EmbeddingDb) (id : Uuid) : Option EmbeddingDb :=
  match syncEmbedding schemas display p db id with
  | (db', .ended (.ok _)) => some db'
  | _ => none

/-- A write that is possible, and the sync after it, if that succeeds. -/
def syncedWrite (db : EmbeddingDb) : EntityWrite → Option EmbeddingDb
  | .create id content =>
      if (db.entities.get? id).isSome then none
      else synced schemas display p (insertEntity db id content) id
  | .update id content =>
      if (db.entities.get? id).isSome then
        synced schemas display p (updateEntity db id content) id
      else none
  | .delete id => if (db.entities.get? id).isSome then some (deleteEntity db id) else none

/-- Writes one after the other, each followed by its sync. -/
def syncedWrites : EmbeddingDb → List EntityWrite → Option EmbeddingDb
  | db, [] => some db
  | db, w :: ws => (syncedWrite schemas display p db w).bind fun db' => syncedWrites db' ws

/-! ## Versions -/

/-- The versions of an entity after a write. -/
def versionStep (id : Uuid) (vs : List EntityContent) : EntityWrite → List EntityContent
  | .create l content => if id = l then [content] else vs
  | .update l content => if id = l then content :: vs else vs
  | .delete l => if id = l then [] else vs

/-- The versions of an entity since it was created, the current one first. -/
def versionsOf (ws : List EntityWrite) (id : Uuid) : List EntityContent :=
  ws.foldl (versionStep id) []

/-- The text of a version. -/
def versionText (content : EntityContent) : Option String :=
  (textOf schemas display content).toOption.join

/-- Whether the current version of an entity has no text although an earlier one had. -/
def TextLost (ws : List EntityWrite) (id : Uuid) : Prop :=
  ∃ content older, versionsOf ws id = content :: older ∧
    versionText schemas display content = none ∧
    ∃ earlier ∈ older, (versionText schemas display earlier).isSome

/-- The row of `entity_embeddings` that the provider makes of a text. -/
def rowOf (text : String) : Option StoredVector :=
  (p.embed 0 text).toOption.map fun v => ⟨v, p.modelName⟩

/-- The version can be embedded: its schema is there, and its text, if it has one, gets a
vector that can be stored. -/
def Embeds (content : EntityContent) : Prop :=
  ∃ text, textOf schemas display content = .ok text ∧
    ∀ t, text = some t → ∃ v, p.embed 0 t = .ok v ∧ validateVector v p.dimensions = .ok ()

/-- What the rows of a workspace are in terms of the versions of its entities. -/
structure KeptUp (db : EmbeddingDb) (vs : Uuid → List EntityContent) : Prop where
  entities : ∀ id, db.entities.get? id = (vs id).head?
  vectors : ∀ id, db.vectors.get? id =
    ((vs id).findSome? (versionText schemas display)).bind (rowOf p)
  embeds : ∀ id, ∀ content ∈ vs id, Embeds schemas display p content

end Definitions

/-! ## One by one -/

section Sync

variable {schemas : Schemas} {display : Json → String} {p : Provider} {db db' : EmbeddingDb}

theorem publishSync_valid {snapshot : EmbeddingSnapshot} {revision : Int} {vector : Vector32}
    {r : EmbeddingDb × EmbeddingWriteOutcome}
    (h : publishSync db p snapshot revision vector = .ok r) :
    validateVector vector (expectedDimensions db p) = .ok () := by
  obtain ⟨_, -, h⟩ := Except.bind_eq_ok.mp h
  obtain ⟨_, -, h⟩ := Except.bind_eq_ok.mp h
  split_ifs at h
  obtain ⟨_, hvalid, -⟩ := Except.bind_eq_ok.mp h
  exact hvalid

/-- A vector that is valid at some width is valid at its provider's. -/
theorem validateVector_of_width {v : Vector32} {n m : Nat} (h : validateVector v n = .ok ())
    (hm : v.length = m) : validateVector v m = .ok () := by
  have hlen := (validateVector_eq_ok h).2.1
  rw [← hm, hlen]
  exact h

/-- **Sync.** A sync that succeeds stores the vector of the entity's text; without a text it
leaves the vector there is. -/
theorem synced_eq_some {id : Uuid} {content : EntityContent}
    (hrow : db.entities.get? id = some content) (h : synced schemas display p db id = some db') :
    Embeds schemas display p content ∧ db'.entities = db.entities ∧
      ∀ l, db'.vectors.get? l =
        if l = id then ((versionText schemas display content).bind (rowOf p)).or (db.vectors.get? l)
        else db.vectors.get? l := by
  unfold synced at h
  split at h
  · next db₁ outcome hsync =>
    cases h
    simp only [syncEmbedding, syncNext, hrow] at hsync
    cases htext : textOf schemas display content with
    | error e =>
        simp only [htext] at hsync
        cases hsync
    | ok text =>
        cases text with
        | none =>
            simp only [htext] at hsync
            cases hsync
            refine ⟨⟨none, htext, fun t ht => by cases ht⟩, rfl, fun l => ?_⟩
            simp [versionText, htext, Except.toOption]
        | some text =>
            simp only [htext] at hsync
            cases hv : p.embed 0 text with
            | error e =>
                simp only [hv] at hsync
                cases hsync
            | ok v =>
                simp only [hv] at hsync
                split at hsync
                · next db₂ outcome' hpub =>
                  cases hsync
                  have hvalid := validateVector_of_width (publishSync_valid hpub)
                    (p.width 0 text v hv)
                  refine ⟨⟨some text, htext, fun t ht => ?_⟩, ?_⟩
                  · obtain rfl := Option.some.inj ht
                    exact ⟨v, hv, hvalid⟩
                  · obtain ⟨-, -, ⟨-, hp⟩ | ⟨-, hgone, -⟩⟩ := publishSync_eq_ok hpub
                    · refine ⟨hp.entities, fun l => ?_⟩
                      rw [hp.vectors]
                      simp [versionText, rowOf, htext, hv, Except.toOption]
                    · rw [hrow] at hgone
                      cases hgone
                · cases hsync
  · cases h

/-- A version's text has a row. -/
theorem Embeds.rowOf {content : EntityContent} (h : Embeds schemas display p content)
    {text : String} (ht : versionText schemas display content = some text) :
    ∃ row, rowOf p text = some row := by
  obtain ⟨text', htext, hall⟩ := h
  have heq : text' = some text := by simpa [versionText, htext, Except.toOption] using ht
  obtain ⟨v, hv, -⟩ := hall text heq
  exact ⟨⟨v, p.modelName⟩, by simp [Embedding.rowOf, hv, Except.toOption]⟩

variable {vs : Uuid → List EntityContent}

/-- A synced write of a version keeps the rows up. -/
theorem KeptUp.synced (h : KeptUp schemas display p db vs) {id : Uuid} {content : EntityContent}
    (hsync : synced schemas display p (insertEntity db id content) id = some db') :
    KeptUp schemas display p db' fun l => if l = id then content :: vs l else vs l := by
  have hrow : (insertEntity db id content).entities.get? id = some content := by
    simp [insertEntity]
  obtain ⟨hembeds, hentities, hvectors⟩ := synced_eq_some hrow hsync
  refine ⟨?_, ?_, ?_⟩
  · intro l
    rw [hentities]
    by_cases hl : l = id
    · simp [insertEntity, hl]
    · simp [insertEntity, hl, h.entities l]
  · intro l
    rw [hvectors l]
    by_cases hl : l = id
    · simp only [hl, if_true, insertEntity, h.vectors id, List.findSome?_cons]
      cases ht : versionText schemas display content with
      | none => rfl
      | some text =>
          obtain ⟨row, hr⟩ := hembeds.rowOf ht
          simp [hr]
    · simpa [hl, insertEntity] using h.vectors l
  · intro l c hc
    split_ifs at hc with hl
    · rcases List.mem_cons.mp hc with rfl | hc
      · exact hembeds
      · exact h.embeds l c hc
    · exact h.embeds l c hc

theorem KeptUp.step (h : KeptUp schemas display p db vs) {w : EntityWrite}
    (hw : syncedWrite schemas display p db w = some db') :
    KeptUp schemas display p db' fun id => versionStep id (vs id) w := by
  cases w with
  | create id content =>
      simp only [syncedWrite] at hw
      split_ifs at hw with hrow
      -- an entity that is not there has no version
      have hnone : vs id = [] := by
        rw [h.entities id] at hrow
        simpa using hrow
      have hvs : (fun l => versionStep l (vs l) (.create id content)) =
          fun l => if l = id then content :: vs l else vs l := by
        funext l
        by_cases hl : l = id
        · simp [versionStep, hl, hnone]
        · simp [versionStep, hl]
      rw [hvs]
      exact h.synced hw
  | update id content =>
      simp only [syncedWrite] at hw
      split_ifs at hw with hrow
      rw [updateEntity, if_pos hrow] at hw
      exact h.synced hw
  | delete id =>
      simp only [syncedWrite] at hw
      split_ifs at hw with hrow
      cases hw
      simp only [versionStep]
      refine ⟨?_, ?_, ?_⟩
      · intro l
        by_cases hl : l = id
        · simp [deleteEntity, hrow, hl]
        · simp [deleteEntity, hrow, hl, h.entities l]
      · intro l
        by_cases hl : l = id
        · simp [deleteEntity, hrow, hl]
        · simp [deleteEntity, hrow, hl, h.vectors l]
      · intro l c hc
        split_ifs at hc with hl
        · cases hc
        · exact h.embeds l c hc

theorem KeptUp.run {ws : List EntityWrite} (h : KeptUp schemas display p db vs)
    (hws : syncedWrites schemas display p db ws = some db') :
    KeptUp schemas display p db' fun id => ws.foldl (versionStep id) (vs id) := by
  induction ws generalizing db vs with
  | nil =>
      cases hws
      exact h
  | cons w ws ih =>
      obtain ⟨db₁, hw, hws⟩ := Option.bind_eq_some_iff.mp hws
      exact ih (h.step hw) hws

end Sync

/-! ## At once -/

section Reindex

variable {schemas : Schemas} {display : Json → String} {p : Provider} {db db' : EmbeddingDb}

/-- What a reindex prepares for a version that can be embedded. -/
theorem reindexEmbeddingForRecord_of_embeds (hp : p.Deterministic) {content : EntityContent}
    (h : Embeds schemas display p content) (id : Uuid) (n : Nat) :
    ∃ vector, reindexEmbeddingForRecord schemas display p n ⟨id, content⟩ = .ok vector ∧
      (vector.map fun v => (⟨v, p.modelName⟩ : StoredVector)) =
        (versionText schemas display content).bind (rowOf p) ∧
      ∀ v, vector = some v → validateVector v v.length = .ok () := by
  obtain ⟨text, htext, hall⟩ := h
  cases text with
  | none =>
      refine ⟨none, ?_, ?_, fun v hv => by cases hv⟩
      · simp [reindexEmbeddingForRecord, htext, bind, Except.bind]
      · simp [versionText, htext, Except.toOption]
  | some text =>
      obtain ⟨v, hv, hvalid⟩ := hall text rfl
      refine ⟨some v, ?_, ?_, ?_⟩
      · simp [reindexEmbeddingForRecord, htext, hp n text, hv, hvalid, bind, Except.bind]
      · simp [versionText, rowOf, htext, hv, Except.toOption]
      · intro w hw
        obtain rfl := Option.some.inj hw
        exact validateVector_of_width hvalid rfl

/-- When every candidate can be embedded, preparation fails for none. -/
theorem prepare_of_embeds (hp : p.Deterministic) {records : OrderedMap Uuid EntityContent}
    (n : Nat) {ids : List Uuid}
    (h : ∀ id ∈ ids, ∃ content, records.get? id = some content ∧ Embeds schemas display p content) :
    ∃ prepared, prepare schemas display p records n ids = (prepared, []) := by
  induction ids generalizing n with
  | nil => exact ⟨[], rfl⟩
  | cons id ids ih =>
      obtain ⟨prepared, hrest⟩ := ih (n + 1) fun l hl => h l (List.mem_cons_of_mem _ hl)
      obtain ⟨content, hrow, hembeds⟩ := h id List.mem_cons_self
      obtain ⟨vector, hvector, -⟩ := reindexEmbeddingForRecord_of_embeds hp hembeds id n
      exact ⟨(⟨id, content⟩, vector) :: prepared, by simp [prepare, hrest, hrow, hvector]⟩

/-- Valid vectors of current versions can be written. -/
theorem writePrepared_of_current (model : String) (db : EmbeddingDb)
    {prepared : List (EmbeddingSnapshot × Option Vector32)}
    (h : ∀ e ∈ prepared, db.entities.get? e.1.id = some e.1.content ∧
      ∀ v, e.2 = some v → validateVector v v.length = .ok ()) :
    ∃ db', writePrepared model prepared db = .ok db' := by
  induction prepared generalizing db with
  | nil => exact ⟨db, rfl⟩
  | cons e prepared ih =>
      obtain ⟨snapshot, vector⟩ := e
      obtain ⟨hrow, hvalid⟩ := h _ List.mem_cons_self
      cases vector with
      | none => exact ih db fun e he => h e (List.mem_cons_of_mem _ he)
      | some v =>
          obtain ⟨db', hrest⟩ := ih
            { db with vectors := db.vectors.insert snapshot.id ⟨v, model⟩ }
            fun e he => h e (List.mem_cons_of_mem _ he)
          refine ⟨db', ?_⟩
          simp only at hrow
          simp [writePrepared, embedAndWrite, hvalid v rfl, hrow, bind, Except.bind, hrest]

theorem requireActive_of_beginReindex {x : EmbeddingDb × Int × Int}
    (h : beginReindex db p = .ok x) : requireActive db.tenant = .ok () := by
  unfold beginReindex at h
  split_ifs at h
  obtain ⟨_, hfence, -⟩ := Except.bind_eq_ok.mp h
  obtain ⟨_, hactive, -⟩ := Except.bind_eq_ok.mp hfence
  exact hactive

/-- A publication of valid vectors of current versions commits. -/
theorem publishReindex_of_current (db : EmbeddingDb) (p : Provider)
    {prepared : List (EmbeddingSnapshot × Option Vector32)}
    (hactive : requireActive db.tenant = .ok ()) (hfit : (p.dimensions : Int) ≤ Queue.i32Max)
    (h : ∀ e ∈ prepared, db.entities.get? e.1.id = some e.1.content ∧
      ∀ v, e.2 = some v → validateVector v v.length = .ok ()) :
    ∃ db', publishReindex db p db.workspace.revision db.workspace.contentRevision prepared =
      .ok db' := by
  obtain ⟨db₁, hwrite⟩ := writePrepared_of_current p.modelName
    { db with vectors := db.vectors.filter fun id _ => (db.entities.get? id).isNone } h
  refine ⟨restamp db₁ p.modelName p.dimensions, ?_⟩
  simp [publishReindex, fenceEmbedding, hactive, hwrite, dimensionsColumn, hfit, bind, Except.bind]

/-- What was prepared for the versions, in terms of their texts. -/
theorem prepare_row (hp : p.Deterministic) {records : OrderedMap Uuid EntityContent}
    (hembeds : ∀ id content, records.get? id = some content → Embeds schemas display p content)
    {prepared : List (EmbeddingSnapshot × Option Vector32)} {ids : List Uuid}
    (h : prepare schemas display p records 0 ids = (prepared, [])) :
    ∀ e ∈ prepared, records.get? e.1.id = some e.1.content ∧
      (e.2.map fun v => (⟨v, p.modelName⟩ : StoredVector)) =
        (versionText schemas display e.1.content).bind (rowOf p) ∧
      ∀ v, e.2 = some v → validateVector v v.length = .ok () := by
  intro e he
  obtain ⟨hrow, k, hk⟩ := (prepare_eq_nil h).2 e he
  obtain ⟨vector, hvector, hfacts⟩ :=
    reindexEmbeddingForRecord_of_embeds hp (hembeds _ _ hrow) e.1.id k
  obtain rfl : vector = e.2 := Except.ok.inj (hvector.symm.trans hk)
  exact ⟨hrow, hfacts⟩

theorem preparedVector_of_mem {prepared : List (EmbeddingSnapshot × Option Vector32)} {id : Uuid}
    (h : id ∈ prepared.map fun e => e.1.id) :
    ∃ e ∈ prepared, e.1.id = id ∧ preparedVector prepared id = e.2 := by
  obtain ⟨e₀, he₀, hid₀⟩ := List.mem_map.mp h
  have hfind : (prepared.find? fun e => decide (e.1.id = id)).isSome :=
    List.find?_isSome.mpr ⟨e₀, he₀, by simpa using hid₀⟩
  obtain ⟨e, he⟩ := Option.isSome_iff_exists.mp hfind
  exact ⟨e, List.mem_of_find?_eq_some he, by simpa using List.find?_some he,
    by simp [preparedVector, he]⟩

/-- **Reindex.** A reindex of entities that can be embedded publishes the vectors of their
texts, and nothing else. -/
theorem reindexWorkspace_of_embeds (hp : p.Deterministic)
    (howned : ∀ id v, db.vectors.get? id = some v → db.entities.get? id ≠ none)
    (hembeds : ∀ id content, db.entities.get? id = some content → Embeds schemas display p content)
    {x : EmbeddingDb × Int × Int} (hbegin : beginReindex db p = .ok x) :
    ∃ db', reindexWorkspace schemas display p db = (db', .published) ∧
      ∀ id, db'.vectors.get? id = (db.entities.get? id).bind fun content =>
        (versionText schemas display content).bind (rowOf p) := by
  have hactive := requireActive_of_beginReindex hbegin
  obtain ⟨fenced, revision, contentRevision⟩ := x
  obtain ⟨rfl, rfl, rfl, -, hfit⟩ := beginReindex_eq_ok hbegin
  obtain ⟨prepared, hprep⟩ : ∃ prepared,
      prepare schemas display p db.entities 0 db.entities.keys = (prepared, []) := by
    apply prepare_of_embeds hp
    intro id hid
    obtain ⟨content, hrow⟩ := Option.isSome_iff_exists.mp
      ((OrderedMap.mem_keys_iff db.entities id).mp hid)
    exact ⟨content, hrow, hembeds id content hrow⟩
  have hids := (prepare_eq_nil hprep).1
  have hrows := prepare_row hp hembeds hprep
  obtain ⟨db', hpub⟩ := publishReindex_of_current
    { db with
      workspace := { db.workspace with
        revision := db.workspace.revision + 1, reindexing := true } } p
    hactive hfit fun e he => ⟨(hrows e he).1, (hrows e he).2.2⟩
  refine ⟨db', ?_, ?_⟩
  · simp only [reindexWorkspace, reindexNext, hbegin, OrderedMap.filter_keys, hprep]
    simp only at hpub
    rw [hpub]
  · intro id
    obtain ⟨-, -, hpublishes⟩ :=
      publishReindex_eq_ok (hids ▸ OrderedMap.nodup_keys db.entities) hpub
    rw [hpublishes.vectors id]
    by_cases hid : id ∈ prepared.map fun e => e.1.id
    · obtain ⟨e, he, rfl, hvector⟩ := preparedVector_of_mem hid
      obtain ⟨hrow, hvec, -⟩ := hrows e he
      simp [hvector, hvec, hrow]
    · have hrow : db.entities.get? id = none := by
        rw [hids, OrderedMap.mem_keys_iff] at hid
        simpa using hid
      cases hold : db.vectors.get? id with
      | none => simp [preparedVector_eq_none hid, hrow]
      | some v => exact absurd hrow (howned id v hold)

end Reindex

/-! ## Agreement -/

section Agreement

variable (schemas : Schemas) (display : Json → String) (p : Provider)

/-- The rows of a current version with a text are the same in both ways; without one they
are when no earlier version had a text. -/
theorem row_current_eq_iff {ws : List EntityWrite} {id : Uuid}
    (hembeds : ∀ content ∈ versionsOf ws id, Embeds schemas display p content) :
    ((versionsOf ws id).head?.bind fun content =>
        (versionText schemas display content).bind (rowOf p)) =
      ((versionsOf ws id).findSome? (versionText schemas display)).bind (rowOf p) ↔
      ¬ TextLost schemas display ws id := by
  unfold TextLost
  cases hvs : versionsOf ws id with
  | nil => simp
  | cons content older =>
      cases ht : versionText schemas display content with
      | some text => simp [ht]
      | none =>
          simp only [List.head?_cons, Option.bind_some, ht, Option.bind_none, List.findSome?_cons]
          constructor
          · rintro hnone ⟨_, _, hcons, -, earlier, hmem, hsome⟩
            cases hcons
            -- the newest earlier version with a text has a row
            cases hfind : older.findSome? (versionText schemas display) with
            | none =>
                rw [List.findSome?_eq_none_iff.mp hfind earlier hmem] at hsome
                cases hsome
            | some text =>
                obtain ⟨c, hc, htext⟩ := List.exists_of_findSome?_eq_some hfind
                obtain ⟨row, hrow⟩ :=
                  (hembeds c (hvs ▸ List.mem_cons_of_mem _ hc)).rowOf htext
                rw [hfind, Option.bind_some, hrow] at hnone
                cases hnone
          · intro hlost
            have hnone : older.findSome? (versionText schemas display) = none := by
              rw [List.findSome?_eq_none_iff]
              intro c hc
              by_contra hsome
              exact hlost ⟨content, older, rfl, ht, c, hc, Option.isSome_iff_ne_none.mpr hsome⟩
            simp [hnone]

/-- **Agreement.** After writes that were each followed by a successful sync, a reindex with
the same provider that the workspace lets begin is published, and it publishes the vectors
there are exactly when no entity has lost its text. -/
theorem rebuild_agrees (hp : p.Deterministic) (workspace : WorkspaceEmbedding)
    (tenant : TenantEmbedding) (key : Option EmbeddingKey) (ws : List EntityWrite)
    (db : EmbeddingDb)
    (hws : syncedWrites schemas display p
      ⟨workspace, tenant, key, OrderedMap.empty, OrderedMap.empty⟩ ws = some db)
    (hbegin : (beginReindex db p).isOk = true) :
    ∃ db', reindexWorkspace schemas display p db = (db', .published) ∧
      (db'.vectors = db.vectors ↔ ∀ id, ¬ TextLost schemas display ws id) := by
  have hstart : KeptUp schemas display p
      ⟨workspace, tenant, key, OrderedMap.empty, OrderedMap.empty⟩ fun _ => [] :=
    ⟨fun _ => rfl, fun _ => rfl, fun _ _ hc => by cases hc⟩
  have hkept : KeptUp schemas display p db (versionsOf ws) := hstart.run hws
  obtain ⟨x, hx⟩ : ∃ x, beginReindex db p = .ok x := by
    cases hb : beginReindex db p with
    | error e =>
        rw [hb] at hbegin
        cases hbegin
    | ok x => exact ⟨x, rfl⟩
  obtain ⟨db', hpub, hget⟩ := reindexWorkspace_of_embeds hp
    (by
      intro id v hv hnone
      rw [hkept.entities id, List.head?_eq_none_iff] at hnone
      rw [hkept.vectors id, hnone] at hv
      cases hv)
    (by
      intro id content hrow
      rw [hkept.entities id] at hrow
      exact hkept.embeds id content (List.mem_of_head? hrow)) hx
  refine ⟨db', hpub, ?_⟩
  have hrow : ∀ id, db'.vectors.get? id = db.vectors.get? id ↔
      ¬ TextLost schemas display ws id := by
    intro id
    rw [hget id, hkept.entities id, hkept.vectors id]
    exact row_current_eq_iff schemas display p (hkept.embeds id)
  constructor
  · intro heq id
    exact (hrow id).mp (by rw [heq])
  · intro hlost
    exact OrderedMap.ext_get? fun id => (hrow id).mpr (hlost id)

end Agreement

/-! ## A note that loses its text -/

/-- Notes with a body that is embedded. -/
def notes : MetaSchemaDefinition where
  name := "notes"
  description := none
  entityTypes := OrderedMap.ofList
    [ ("note",
        { description := none
          fields := OrderedMap.ofList
            [("body", ⟨.mk { FieldAttrs.ofType .string with xEmbed := true } none none, rfl⟩)] }) ]
  relationTypes := OrderedMap.empty

def noteSchemas : Schemas where
  rows := OrderedMap.ofList
    [ (1,
        { tenantId := 0
          name := "notes"
          version := 1
          definition := notes
          status := .active
          originTemplateId := none
          originStatus := .detached
          originSnapshot := none
          originUpdatedAt := none }) ]
  unique := by decide

/-- A note with the given members. -/
def noteOf (members : List (String × Json)) (token : String) : EntityContent where
  schemaId := 1
  entityType := "note"
  data := .object members
  embeddingSyncToken := token

/-- A note with a body. -/
def note (body : Json) (token : String) : EntityContent := noteOf [("body", body)] token

/-- A provider of one model that measures the length of a text. -/
def lengthProvider (model : String) : Provider where
  workspaceRevision := none
  dimensions := 1
  modelName := model
  embed := fun _ text => .ok [.finite text.length]
  width := by
    intro n text vector h
    cases h
    rfl

/-- A tenant without settings. -/
def plainTenant : TenantEmbedding := ⟨true, none, none⟩

/-- Bodies of notes are strings, which are never printed. -/
def noDisplay : Json → String := fun _ => ""

/-- A note is written, and rewritten without its body. -/
def bodyRemoved : List EntityWrite :=
  [.create 1 (note (.string "hello") "t1"), .update 1 (noteOf [] "t2")]

/-- The writes of the note that keeps its body, and what is published after them. -/
theorem rebuild_agrees_note :
    ∃ db, syncedWrites noteSchemas noDisplay (lengthProvider "m") (.new plainTenant)
        [.create 1 (note (.string "hello") "t1")] = some db ∧
      ∃ db', reindexWorkspace noteSchemas noDisplay (lengthProvider "m") db = (db', .published) ∧
        (db'.vectors = db.vectors ↔
          ∀ id, ¬ TextLost noteSchemas noDisplay [.create 1 (note (.string "hello") "t1")] id) :=
  ⟨_, rfl, rebuild_agrees noteSchemas noDisplay (lengthProvider "m") (fun _ _ => rfl)
    ⟨none, none, 0, 0, false⟩ plainTenant none _ _ rfl (by decide)⟩

/-- The vector of the removed body is still there after the sync, and gone after a reindex. -/
theorem not_rebuild_agrees_bodyRemoved :
    ¬ ∀ p : Provider, p.Deterministic → ∀ ws db,
      syncedWrites noteSchemas noDisplay p (.new plainTenant) ws = some db →
      ∀ db', reindexWorkspace noteSchemas noDisplay p db = (db', .published) →
        db'.vectors = db.vectors := by
  intro h
  have heq := h (lengthProvider "m") (fun _ _ => rfl) bodyRemoved _ rfl _ rfl
  revert heq
  decide

end Yorishiro.Embedding
