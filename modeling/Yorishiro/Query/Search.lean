import Yorishiro.Embedding.Jobs
import Yorishiro.Embedding.Rebuild
import Yorishiro.Query.Requests

/-!
# Searches and the model of their query vector

A search opens a request, a worker answers it with whatever provider it resolves, the
search takes the vector, and only then compares it with the stored vectors. Meanwhile
the provider key, the deployment's provider and the stored vectors change. All that is
carried to the comparison is the vector: its width is checked, its model is not.

A vector carries here the model that produced it, which the request's row records and
`wait` drops. `searches_one_model`: as long as no worker answers with another model of
the stamped width, and none is stamped while an answer is on its way, a search compares
vectors of one model.
-/

set_option autoImplicit false

namespace Yorishiro.Query

open Yorishiro.Lib Yorishiro.Lib.Transition Yorishiro.Schema Yorishiro.Embedding
open Yorishiro.Queue (Instant)

/-- A query vector and the model that produced it. -/
structure QueryVector where
  vector : Vector32
  model : String
deriving DecidableEq

/-! ## Statements -/

/-- `check_query_width`. -/
def checkQueryWidth (db : EmbeddingDb) (vectorLen : Nat) : Except YorishiroError Unit :=
  match db.workspace.dimensions.filter fun expected => decide (expected ≠ (vectorLen : Int)) with
  | some expected => .error (.validationFailed
      s!"workspace expects {expected} dimensions, query has {vectorLen}" []
      "reindex the workspace with the selected embedding provider")
  | none =>
      if vectorLen = 0 then
        .error (.validationFailed "query embedding must not be empty" []
          "configure a provider that returns a nonempty vector")
      else .ok ()

/-- `ensure_available`. -/
def ensureAvailable (db : EmbeddingDb) : Except YorishiroError Unit :=
  if db.workspace.reindexing then
    .error (.backendUnavailable ("semantic search is temporarily unavailable while workspace " ++
      "embeddings are being reindexed"))
  else .ok ()

/-- The statement that ranks stored vectors. The filters, the order by distance and the limit
choose the entities `ids`; a distance between vectors of different widths is an error. -/
def vectorHits (db : EmbeddingDb) (vector : Vector32) (ids : List Uuid) :
    Except YorishiroError (List (Uuid × StoredVector)) :=
  let rows := ids.filterMap fun id =>
    if db.workspace.reindexing || (db.entities.get? id).isNone then none
    else (db.vectors.get? id).map fun stored => (id, stored)
  if rows.any fun row => decide (row.2.vector.length ≠ vector.length) then
    .error (.internal (.custom "different vector dimensions"))
  else .ok rows

/-! ## Runs -/

/-- Where a delivery of a query job stands, between the statements of `answer` and `embed`. -/
inductive EmbedPhase where
  | started
  | found
  | resolved (provider : Provider)
  | embedded (query : QueryVector)
  | checked (query : QueryVector)
  | ended

/-- A delivery of a query job. -/
structure EmbedRun where
  requestId : Uuid
  phase : EmbedPhase

/-- Where a search stands, between the statements of `search_text` and `search_by_vector`. -/
inductive SearchPhase where
  | waiting
  | embedded (query : QueryVector)
  | checked (query : QueryVector)
  | begun (query : QueryVector)
  | available (query : QueryVector)
  | returned (query : QueryVector) (hits : List (Uuid × StoredVector))
  | ended

/-- A search. -/
structure SearchRun where
  requestId : Uuid
  phase : SearchPhase

/-- The rows of a workspace, the requests, the deliveries and the searches. -/
structure SearchState where
  space : EmbeddingState
  requests : Requests
  embeds : List EmbedRun
  searches : List SearchRun

/-- The rows of the workspace. -/
def SearchState.db (s : SearchState) : EmbeddingDb := s.space.db

/-- A new workspace of a tenant. -/
def SearchState.new (tenant : TenantEmbedding) : SearchState := ⟨.new tenant, Table.empty, [], []⟩

/-- What the parties around a delivery decide: the time, the provider that is resolved, what it
returns for the query, and how an error is printed. -/
structure EmbedInput where
  now : Instant
  provider : Option Provider
  vector : Option Vector32
  message : String

/-- One transaction or statement of one party. -/
inductive SearchLabel where
  | space (l : EmbeddingLabel)
  | openSearch (id : Uuid) (text : String) (retentionSeconds : Nat) (deadlineAt now : Instant)
  | deliver (requestId : Uuid)
  | embed (k : Nat) (input : EmbedInput)
  | search (k : Nat) (ids : List Uuid)
  | expire (k : Nat)
  | purge (now : Instant)

section Steps

variable (schemas : Schemas) (display : Json → String) (workspaceId : Uuid) (active : Uuid → Bool)

/-- The requests after an answer. -/
def recorded (t : Requests) (id : Uuid) (now : Instant) (a : Answer) : Requests :=
  match record t workspaceId id active now a with
  | .ok (t', _) => t'
  | .error _ => t

/-- The requests after a query's vector is stored. -/
def completed (t : Requests) (id : Uuid) (now : Instant) (q : QueryVector) : Requests :=
  match complete t workspaceId id q.vector q.model active now with
  | .ok (t', _) => t'
  | .error _ => t

/-- The next step of a delivery; whatever fails is recorded on the row. -/
def embedNext (s : SearchState) (x : EmbedRun) (i : EmbedInput) : Requests × EmbedPhase :=
  let failed := (recorded workspaceId active s.requests x.requestId i.now (.fail i.message), .ended)
  match x.phase with
  | .started =>
      match findPending s.requests workspaceId x.requestId i.now with
      | some _ => (s.requests, .found)
      | none => (s.requests, .ended)
  | .found =>
      match i.provider with
      | some p => if assigned s.db p then (s.requests, .resolved p) else (s.requests, .found)
      | none => failed
  | .resolved p =>
      match requireActive s.db.tenant, i.vector with
      | .ok _, some vector => (s.requests, .embedded ⟨vector, p.modelName⟩)
      | _, _ => failed
  | .embedded q =>
      match checkQueryWidth s.db q.vector.length with
      | .ok _ => (s.requests, .checked q)
      | .error _ => failed
  | .checked q =>
      (completed workspaceId active s.requests x.requestId i.now q, .ended)
  | .ended => (s.requests, .ended)

/-- The next step of a search; its request may not be answered yet. -/
def searchNext (s : SearchState) (x : SearchRun) (ids : List Uuid) : Requests × SearchPhase :=
  match x.phase with
  | .waiting =>
      match takeFinished s.requests workspaceId x.requestId with
      | .ok (t, some (.ready vector model)) => (t, .embedded ⟨vector, model⟩)
      | .ok (t, some _) => (t, .ended)
      | .ok (t, none) => (t, .waiting)
      | .error _ => (s.requests, .ended)
  | .embedded q =>
      match checkQueryWidth s.db q.vector.length with
      | .ok _ => (s.requests, .checked q)
      | .error _ => (s.requests, .ended)
  | .checked q =>
      match validateVector q.vector q.vector.length, checkQueryWidth s.db q.vector.length with
      | .ok _, .ok _ => (s.requests, .begun q)
      | _, _ => (s.requests, .ended)
  | .begun q =>
      match ensureAvailable s.db with
      | .ok _ => (s.requests, .available q)
      | .error _ => (s.requests, .ended)
  | .available q =>
      match vectorHits s.db q.vector ids with
      | .ok hits => (s.requests, .returned q hits)
      | .error _ => (s.requests, .ended)
  | .returned q hits => (s.requests, .returned q hits)
  | .ended => (s.requests, .ended)

/-- The state after a label; one that is not enabled changes nothing. -/
def searchStep (s : SearchState) : SearchLabel → SearchState
  | .space l => { s with space := embeddingStep schemas display s.space l }
  | .openSearch id text retentionSeconds deadlineAt now =>
      match openRequest s.requests id workspaceId text retentionSeconds deadlineAt now with
      | .ok t => { s with requests := t, searches := s.searches ++ [⟨id, .waiting⟩] }
      | .error _ => s
  | .deliver requestId => { s with embeds := s.embeds ++ [⟨requestId, .started⟩] }
  | .embed k i =>
      match s.embeds[k]? with
      | some x =>
          { s with
            requests := (embedNext workspaceId active s x i).1
            embeds := s.embeds.set k { x with phase := (embedNext workspaceId active s x i).2 } }
      | none => s
  | .search k ids =>
      match s.searches[k]? with
      | some x =>
          { s with
            requests := (searchNext workspaceId s x ids).1
            searches := s.searches.set k { x with phase := (searchNext workspaceId s x ids).2 } }
      | none => s
  | .expire k =>
      match s.searches[k]? with
      | some x =>
          { s with requests := recorded workspaceId active s.requests x.requestId 0 .expire }
      | none => s
  | .purge now => { s with requests := purgeExpired s.requests now }

/-- The provider whose vectors a step stores. -/
def publisher (s : EmbeddingState) : EmbeddingLabel → Option Provider
  | .sync k => (s.syncs[k]?).bind fun r =>
      match r.phase, (syncNext schemas display s.db r).2 with
      | .ready _ _ _, .ended (.ok .persisted) => some r.provider
      | _, _ => none
  | .reindex k => (s.reindexes[k]?).bind fun r =>
      match r.phase, (reindexNext schemas display s.db r).2 with
      | .loaded _ _ _ _, .published => some r.provider
      | _, _ => none
  | _ => none

end Steps

/-! ## One model -/

/-- The query vector a search holds. -/
def SearchPhase.query? : SearchPhase → Option QueryVector
  | .embedded q => some q
  | .checked q => some q
  | .begun q => some q
  | .available q => some q
  | _ => none

/-- The query vector a delivery is about to store. -/
def EmbedPhase.query? : EmbedPhase → Option QueryVector
  | .checked q => some q
  | _ => none

/-- The query vector a reader of the row gets. -/
def Request.query? (row : Request) : Option QueryVector :=
  match outcome row with
  | .ok (.ready vector model) => some ⟨vector, model⟩
  | _ => none

/-- The query vectors that are on their way to a comparison. -/
def SearchState.outstanding (s : SearchState) : List QueryVector :=
  s.embeds.filterMap (fun x => x.phase.query?) ++
    s.requests.rows.entries.filterMap (fun e => e.2.query?) ++
    s.searches.filterMap fun x => x.phase.query?

/-- The step brings two models of one width together: a worker answers with one the workspace
is not stamped with, or vectors of another are stored while an answer is on its way. -/
def mixes (schemas : Schemas) (display : Json → String) (s : SearchState) : SearchLabel → Bool
  | .space l => (publisher schemas display s.space l).any fun p => s.outstanding.any fun q =>
      decide (q.model ≠ p.modelName) && decide (q.vector.length = p.dimensions)
  | .embed k _ =>
      match (s.embeds[k]?).map EmbedRun.phase with
      | some (.embedded q) =>
          (s.db.workspace.model.any fun model => decide (model ≠ q.model)) &&
            decide (s.db.workspace.dimensions = some (q.vector.length : Int))
      | _ => false
  | _ => false

/-- Searches have compared vectors of one model. -/
def OneModel (s : SearchState) : Prop :=
  ∀ x ∈ s.searches, ∀ q hits, x.phase = .returned q hits → ∀ hit ∈ hits, hit.2.model = q.model

/-! ## What changes the stamp -/

section Stamp

variable (schemas : Schemas) (display : Json → String) {s : EmbeddingState}

/-- The stamp is as it was, or is that of the provider whose vectors were stored. -/
def StampFollows (schemas : Schemas) (display : Json → String) (s : EmbeddingState)
    (l : EmbeddingLabel) : Prop :=
  ((embeddingStep schemas display s l).db.workspace.model = s.db.workspace.model ∧
      (embeddingStep schemas display s l).db.workspace.dimensions = s.db.workspace.dimensions) ∨
    ∃ p, publisher schemas display s l = some p ∧
      (embeddingStep schemas display s l).db.workspace.model = some p.modelName ∧
      (embeddingStep schemas display s l).db.workspace.dimensions = some (p.dimensions : Int)

theorem stampFollows_sync (k : Nat) : StampFollows schemas display s (.sync k) := by
  simp only [StampFollows, embeddingStep, publisher]
  cases hk : s.syncs[k]? with
  | none => exact Or.inl ⟨rfl, rfl⟩
  | some r =>
      simp only [Option.bind_some]
      rcases syncNext_rows schemas display s.db r with
        ⟨snapshot, text, revision, vector, hphase, -, hended, -, hp⟩ | heq
      · rcases hp.stamp with ⟨-, hdims, -⟩ | ⟨hsome, hdims, -⟩
        · exact Or.inr ⟨r.provider, by rw [hphase, hended], hp.model, hdims⟩
        · exact Or.inl ⟨hp.model.trans hsome.symm, hdims⟩
      · rw [heq]
        exact Or.inl ⟨rfl, rfl⟩

/-- Of the transactions of a reindex, the one that publishes writes the stamp. -/
theorem stampFollows_reindex (h : EmbeddingInv s) (k : Nat) :
    StampFollows schemas display s (.reindex k) := by
  simp only [StampFollows, embeddingStep, publisher]
  cases hk : s.reindexes[k]? with
  | none => exact Or.inl ⟨rfl, rfl⟩
  | some r =>
      simp only [Option.bind_some]
      have hruns := h.runs r (List.mem_of_getElem? hk)
      obtain ⟨p, phase, flag⟩ := r
      cases phase with
      | started =>
          refine Or.inl ?_
          rcases reindexStep_started schemas display s k p flag with
            ⟨e, heq⟩ | ⟨db, revision, contentRevision, hbegin, heq⟩
          · rw [heq]
            exact ⟨rfl, rfl⟩
          · rw [heq]
            obtain ⟨rfl, -⟩ := beginReindex_eq_ok hbegin
            exact ⟨rfl, rfl⟩
      | loaded revision contentRevision ids records =>
          rw [reindexStep_later schemas display (by simp)]
          cases hprep : prepare schemas display p records 0 ids with
          | mk prepared failures =>
              cases failures with
              | cons failure failures =>
                  refine Or.inl ?_
                  simp [reindexNext, hprep]
              | nil =>
                  cases hpub : publishReindex s.db p revision contentRevision prepared with
                  | error e =>
                      refine Or.inl ?_
                      simp [reindexNext, hprep, hpub]
                  | ok db' =>
                      have hids := (prepare_eq_nil hprep).1
                      obtain ⟨-, -, hp⟩ := publishReindex_eq_ok (hids ▸ hruns.nodup) hpub
                      refine Or.inr ⟨p, ?_⟩
                      simp [reindexNext, hprep, hpub, hp.workspace]
      | fenced revision contentRevision => exact Or.inl ⟨rfl, rfl⟩
      | listed revision contentRevision ids => exact Or.inl ⟨rfl, rfl⟩
      | published => exact Or.inl ⟨rfl, rfl⟩
      | failed failures => exact Or.inl ⟨rfl, rfl⟩
      | aborted e => exact Or.inl ⟨rfl, rfl⟩

/-- Only what publishes vectors writes the stamp. -/
theorem embeddingStep_stamp (h : EmbeddingInv s) (l : EmbeddingLabel) :
    StampFollows schemas display s l := by
  cases l with
  | create id content =>
      refine Or.inl ?_
      simp only [embeddingStep]
      split <;> exact ⟨rfl, rfl⟩
  | update id content =>
      refine Or.inl ?_
      simp only [embeddingStep, updateEntity]
      split
      · simp [EmbeddingState.changed, insertEntity]
      · exact ⟨rfl, rfl⟩
  | delete id =>
      refine Or.inl ?_
      simp only [embeddingStep, deleteEntity]
      split
      · simp [EmbeddingState.changed]
      · exact ⟨rfl, rfl⟩
  | setKey key => exact Or.inl ⟨rfl, rfl⟩
  | clearKey =>
      refine Or.inl ?_
      simp only [embeddingStep, clearKey]
      split
      · simp [EmbeddingState.changed, touchKey]
      · exact ⟨rfl, rfl⟩
  | tenant tenant => exact Or.inl ⟨rfl, rfl⟩
  | startSync p id => exact Or.inl ⟨rfl, rfl⟩
  | startReindex p => exact Or.inl ⟨rfl, rfl⟩
  | sync k => exact stampFollows_sync schemas display k
  | reindex k => exact stampFollows_reindex schemas display h k

end Stamp

/-! ## The invariant -/

/-- Vectors of the stamp have the model of the query, or another width. -/
def Compatible (db : EmbeddingDb) (q : QueryVector) : Prop :=
  ∀ model, db.workspace.model = some model →
    model = q.model ∨ db.workspace.dimensions ≠ some (q.vector.length : Int)

/-- Every query vector on its way may be compared with the vectors of the stamp. -/
structure SearchInv (s : SearchState) : Prop where
  space : EmbeddingInv s.space
  embeds : ∀ x ∈ s.embeds, ∀ q, x.phase.query? = some q → Compatible s.db q
  requests : ∀ id row q, s.requests.get? id = some row → row.query? = some q → Compatible s.db q
  searches : ∀ x ∈ s.searches, ∀ q, x.phase.query? = some q → Compatible s.db q
  returned : OneModel s

section Invariant

variable {schemas : Schemas} {display : Json → String} {workspaceId : Uuid} {active : Uuid → Bool}
  {s : SearchState}

theorem searchInv_new (tenant : TenantEmbedding) : SearchInv (.new tenant) where
  space := embeddingInv_new tenant
  embeds := fun _ hx => by cases hx
  requests := fun _ _ _ hrow => by cases hrow
  searches := fun _ hx => by cases hx
  returned := fun _ hx => by cases hx

/-- A row after an answer is as it was, or holds the answer. -/
theorem recorded_row {t : Requests} {id l : Uuid} {now : Instant} {a : Answer} {row : Request}
    (h : (recorded workspaceId active t id now a).get? l = some row) :
    t.get? l = some row ∨ row.Holds a := by
  unfold recorded at h
  split at h
  · next t' won hrec =>
    rcases record_eq_ok hrec with ⟨-, _, row', -, -, -, -, hholds, hrep⟩ | ⟨-, rfl⟩
    · by_cases hl : l = id
      · subst hl
        rw [hrep.get?_self] at h
        cases h
        exact Or.inr hholds
      · exact Or.inl ((hrep.get?_ne hl) ▸ h)
    · exact Or.inl h
  · exact Or.inl h

/-- A row after a `complete` is as it was, or is the one that it writes. -/
theorem completed_row {t : Requests} {id l : Uuid} {now : Instant} {q : QueryVector}
    {row : Request} (h : (completed workspaceId active t id now q).get? l = some row) :
    t.get? l = some row ∨ ∃ old, row = completeRow q.vector q.model now old := by
  unfold completed complete at h
  split at h
  · next t' won hcomplete =>
    split_ifs at hcomplete
    rcases transition_eq_ok hcomplete with ⟨-, old, -, -, -, hrep⟩ | ⟨-, rfl⟩
    · by_cases hl : l = id
      · subst hl
        rw [hrep.get?_self] at h
        cases h
        exact Or.inr ⟨old, rfl⟩
      · exact Or.inl ((hrep.get?_ne hl) ▸ h)
    · exact Or.inl h
  · exact Or.inl h

/-- The query vector of a row that holds an answer is the answer's. -/
theorem query?_of_holds {row : Request} {a : Answer} {q : QueryVector} (h : row.Holds a)
    (hq : row.query? = some q) : a.outcome = .ready q.vector q.model := by
  unfold Request.query? at hq
  split at hq
  · next vector model hout =>
    cases hq
    exact (outcome_eq_of_holds h hout).symm
  · cases hq

/-- A completed row gives the vector back, or no vector if it is not finite. -/
theorem query?_completeRow {q q' : QueryVector} {now : Instant} {row : Request}
    (h : (completeRow q.vector q.model now row).query? = some q') : q' = q := by
  by_cases hfinite : finiteVector q.vector = true
  · have hholds : (completeRow q.vector q.model now row).Holds
        (.complete ⟨q.vector, hfinite⟩ q.model) := ⟨rfl, rfl, rfl, rfl⟩
    obtain ⟨vector, model⟩ := q'
    cases query?_of_holds hholds h
    rfl
  · rw [Request.query?, outcome_completeRow (Bool.not_eq_true _ ▸ hfinite)] at h
    cases h

theorem pending_query? {row : Request} (h : row.status = .pending) : row.query? = none := by
  simp [Request.query?, outcome, h]

/-- A step of the rows. -/
theorem searchInv_space (h : SearchInv s) (l : EmbeddingLabel)
    (hmix : mixes schemas display s (.space l) = false) :
    SearchInv { s with space := embeddingStep schemas display s.space l } := by
  have hkeeps : ∀ q ∈ s.outstanding, Compatible s.db q →
      Compatible (embeddingStep schemas display s.space l).db q := by
    intro q hq hold model hmodel
    rcases embeddingStep_stamp schemas display h.space l with ⟨hm, hd⟩ | ⟨p, hp, hm, hd⟩
    · rw [hd]
      exact hold model (hm ▸ hmodel)
    · simp only [mixes, hp, Option.any_some, List.any_eq_false, Bool.and_eq_true,
        decide_eq_true_eq, not_and] at hmix
      obtain rfl : p.modelName = model := Option.some.inj (hm.symm.trans hmodel)
      by_cases heq : p.modelName = q.model
      · exact Or.inl heq
      · refine Or.inr ?_
        rw [hd]
        intro hwidth
        have hlen : (p.dimensions : Int) = q.vector.length := Option.some.inj hwidth
        exact hmix q hq (Ne.symm heq) (by omega)
  refine ⟨embeddingInv_step schemas display h.space l, ?_, ?_, ?_, h.returned⟩
  · intro x hx q hq
    apply hkeeps q _ (h.embeds x hx q hq)
    exact List.mem_append_left _ (List.mem_append_left _ (List.mem_filterMap.mpr ⟨x, hx, hq⟩))
  · intro id row q hrow hq
    apply hkeeps q _ (h.requests id row q hrow hq)
    refine List.mem_append_left _ (List.mem_append_right _ (List.mem_filterMap.mpr ⟨(id, row), ?_, hq⟩))
    exact (OrderedMap.mem_entries_iff _ _ _).mpr hrow
  · intro x hx q hq
    apply hkeeps q _ (h.searches x hx q hq)
    exact List.mem_append_right _ (List.mem_filterMap.mpr ⟨x, hx, hq⟩)

/-- What a delivery leaves in the table and holds afterwards. -/
theorem embedNext_queries (h : SearchInv s) {x : EmbedRun} (hx : x ∈ s.embeds) (i : EmbedInput)
    (hmix : ∀ q, x.phase = .embedded q → (s.db.workspace.model.any fun model =>
        decide (model ≠ q.model)) = true →
      s.db.workspace.dimensions ≠ some (q.vector.length : Int)) :
    (∀ id row q, (embedNext workspaceId active s x i).1.get? id = some row →
        row.query? = some q → Compatible s.db q) ∧
      ∀ q, (embedNext workspaceId active s x i).2.query? = some q → Compatible s.db q := by
  have hsame : ∀ id row q, s.requests.get? id = some row → row.query? = some q →
      Compatible s.db q := h.requests
  have hfailed : ∀ id row q, (recorded workspaceId active s.requests x.requestId i.now
      (.fail i.message)).get? id = some row → row.query? = some q → Compatible s.db q := by
    intro id row q hrow hq
    rcases recorded_row hrow with hold | hholds
    · exact h.requests id row q hold hq
    · cases query?_of_holds hholds hq
  have hidle : ∀ (phase : EmbedPhase), phase.query? = none → ∀ q, phase.query? = some q →
      Compatible s.db q := by
    intro phase hnone q hq
    rw [hnone] at hq
    cases hq
  obtain ⟨requestId, phase⟩ := x
  cases phase with
  | started =>
      simp only [embedNext]
      split
      · exact ⟨hsame, hidle _ rfl⟩
      · exact ⟨hsame, hidle _ rfl⟩
  | found =>
      simp only [embedNext]
      split
      · split
        · exact ⟨hsame, hidle _ rfl⟩
        · exact ⟨hsame, hidle _ rfl⟩
      · exact ⟨hfailed, hidle _ rfl⟩
  | resolved p =>
      simp only [embedNext]
      split
      · exact ⟨hsame, hidle _ rfl⟩
      · exact ⟨hfailed, hidle _ rfl⟩
  | embedded q =>
      simp only [embedNext]
      split
      · refine ⟨hsame, ?_⟩
        intro q' hq'
        cases hq'
        intro model hmodel
        by_cases heq : model = q.model
        · exact Or.inl heq
        · exact Or.inr (hmix q rfl (by simp [hmodel, heq]))
      · exact ⟨hfailed, hidle _ rfl⟩
  | checked q =>
      refine ⟨?_, hidle _ rfl⟩
      intro id row q' hrow hq'
      rcases completed_row hrow with hold | ⟨old, rfl⟩
      · exact h.requests id row q' hold hq'
      · obtain rfl := query?_completeRow hq'
        exact h.embeds _ hx q' rfl
  | ended => exact ⟨hsame, hidle _ rfl⟩

/-- What a comparison returns is of the stamped model and of the query's width. -/
theorem vectorHits_eq_ok (h : SpaceInv s.db) {q : QueryVector} {ids : List Uuid}
    {hits : List (Uuid × StoredVector)} (hcompatible : Compatible s.db q)
    (hhits : vectorHits s.db q.vector ids = .ok hits) : ∀ hit ∈ hits, hit.2.model = q.model := by
  unfold vectorHits at hhits
  simp only at hhits
  split_ifs at hhits with hwidth
  cases hhits
  intro hit hmem
  obtain ⟨id, -, hrow⟩ := List.mem_filterMap.mp hmem
  split_ifs at hrow with hgone
  simp only [Bool.or_eq_true, not_or, Bool.not_eq_true] at hgone
  obtain ⟨stored, hstored, rfl⟩ := Option.map_eq_some_iff.mp hrow
  have hlen : stored.vector.length = q.vector.length := by
    by_contra hne
    exact hwidth (List.any_eq_true.mpr ⟨_, hmem, by simpa using hne⟩)
  rcases h.uniform hgone.1 with hempty | ⟨model, dimensions, hmodel, hdims, hall⟩
  · rw [hempty id] at hstored
    cases hstored
  · obtain ⟨hwide, rfl⟩ := hall id stored hstored
    rcases hcompatible stored.model hmodel with heq | hne
    · exact heq
    · exact absurd (by rw [hdims, ← hwide, hlen]) hne

/-- What a search leaves in the table, holds and has returned afterwards. -/
theorem searchNext_queries (h : SearchInv s) {x : SearchRun} (hx : x ∈ s.searches)
    (ids : List Uuid) :
    (∀ id row q, (searchNext workspaceId s x ids).1.get? id = some row →
        row.query? = some q → Compatible s.db q) ∧
      (∀ q, (searchNext workspaceId s x ids).2.query? = some q → Compatible s.db q) ∧
      ∀ q hits, (searchNext workspaceId s x ids).2 = .returned q hits →
        ∀ hit ∈ hits, hit.2.model = q.model := by
  have hsame : ∀ id row q, s.requests.get? id = some row → row.query? = some q →
      Compatible s.db q := h.requests
  have hended : (∀ q, SearchPhase.ended.query? = some q → Compatible s.db q) ∧
      ∀ q hits, SearchPhase.ended = .returned q hits → ∀ hit ∈ hits, hit.2.model = q.model :=
    ⟨fun q hq => (by cases hq), fun q hits hr => (by cases hr)⟩
  obtain ⟨requestId, phase⟩ := x
  have hheld := h.searches _ hx
  cases phase with
  | waiting =>
      simp only [searchNext]
      have hdeleted : ∀ id row q, (s.requests.delete requestId).get? id = some row →
          row.query? = some q → Compatible s.db q := by
        intro id row q hrow hq
        rw [Table.get?_delete] at hrow
        split_ifs at hrow
        exact h.requests id row q hrow hq
      split
      · next t vector model htake =>
        obtain ⟨row, hrow, -, -, hout, rfl⟩ := takeFinished_some htake
        refine ⟨hdeleted, ?_, fun q hits hr => by cases hr⟩
        intro q hq
        cases hq
        exact h.requests requestId row _ hrow (by simp [Request.query?, hout])
      · next t o _ htake =>
        obtain ⟨row, hrow, -, -, hout, rfl⟩ := takeFinished_some htake
        exact ⟨hdeleted, hended⟩
      · next t htake =>
        obtain ⟨rfl, -⟩ := takeFinished_none htake
        exact ⟨hsame, fun q hq => (by cases hq), fun q hits hr => (by cases hr)⟩
      · exact ⟨hsame, hended⟩
  | embedded q =>
      simp only [searchNext]
      split
      · exact ⟨hsame, hheld, fun q hits hr => (by cases hr)⟩
      · exact ⟨hsame, hended⟩
  | checked q =>
      simp only [searchNext]
      split
      · exact ⟨hsame, hheld, fun q hits hr => (by cases hr)⟩
      · exact ⟨hsame, hended⟩
  | begun q =>
      simp only [searchNext]
      split
      · exact ⟨hsame, hheld, fun q hits hr => (by cases hr)⟩
      · exact ⟨hsame, hended⟩
  | available q =>
      simp only [searchNext]
      split
      · next hits hhits =>
        refine ⟨hsame, fun q hq => (by cases hq), ?_⟩
        intro q' hits' hr
        cases hr
        exact vectorHits_eq_ok h.space.space (hheld q rfl) hhits
      · exact ⟨hsame, hended⟩
  | returned q hits => exact ⟨hsame, fun q hq => (by cases hq), h.returned _ hx⟩
  | ended => exact ⟨hsame, hended⟩

/-- Every step that mixes no models keeps the searches to one. -/
theorem searchInv_step (h : SearchInv s) (l : SearchLabel)
    (hmix : mixes schemas display s l = false) :
    SearchInv (searchStep schemas display workspaceId active s l) := by
  cases l with
  | space l => exact searchInv_space h l hmix
  | openSearch id text retentionSeconds deadlineAt now =>
      simp only [searchStep]
      split
      · next t ht =>
        obtain ⟨-, hrows⟩ := Table.insert_eq_ok ht
        refine ⟨h.space, h.embeds, ?_, ?_, ?_⟩
        · intro l row q hrow hq
          rw [Table.get?, hrows] at hrow
          rcases OrderedMap.get?_insert_eq_some hrow with ⟨-, rfl⟩ | ⟨-, hold⟩
          · rw [pending_query? rfl] at hq
            cases hq
          · exact h.requests l row q hold hq
        · intro x hx q hq
          rcases List.mem_append.mp hx with hold | hnew
          · exact h.searches x hold q hq
          · obtain rfl := List.mem_singleton.mp hnew
            cases hq
        · intro x hx q hits hr
          rcases List.mem_append.mp hx with hold | hnew
          · exact h.returned x hold q hits hr
          · obtain rfl := List.mem_singleton.mp hnew
            cases hr
      · exact h
  | deliver requestId =>
      refine ⟨h.space, ?_, h.requests, h.searches, h.returned⟩
      intro x hx q hq
      rcases List.mem_append.mp hx with hold | hnew
      · exact h.embeds x hold q hq
      · obtain rfl := List.mem_singleton.mp hnew
        cases hq
  | embed k i =>
      simp only [searchStep]
      split
      · next x hk =>
        obtain ⟨hrows, hheld⟩ := embedNext_queries h (List.mem_of_getElem? hk) i (by
          intro q hphase hany
          simp only [mixes, hk, Option.map_some, hphase, hany, Bool.true_and,
            decide_eq_false_iff_not] at hmix
          exact hmix)
        refine ⟨h.space, ?_, hrows, h.searches, h.returned⟩
        intro y hy q hq
        rcases List.mem_or_eq_of_mem_set hy with hold | rfl
        · exact h.embeds y hold q hq
        · exact hheld q hq
      · exact h
  | search k ids =>
      simp only [searchStep]
      split
      · next x hk =>
        obtain ⟨hrows, hheld, hreturned⟩ := searchNext_queries h (List.mem_of_getElem? hk) ids
        refine ⟨h.space, h.embeds, hrows, ?_, ?_⟩
        · intro y hy q hq
          rcases List.mem_or_eq_of_mem_set hy with hold | rfl
          · exact h.searches y hold q hq
          · exact hheld q hq
        · intro y hy q hits hr
          rcases List.mem_or_eq_of_mem_set hy with hold | rfl
          · exact h.returned y hold q hits hr
          · exact hreturned q hits hr
      · exact h
  | expire k =>
      simp only [searchStep]
      split
      · next x hk =>
        refine ⟨h.space, h.embeds, ?_, h.searches, h.returned⟩
        intro id row q hrow hq
        rcases recorded_row hrow with hold | hholds
        · exact h.requests id row q hold hq
        · cases query?_of_holds hholds hq
      · exact h
  | purge now =>
      refine ⟨h.space, h.embeds, ?_, h.searches, h.returned⟩
      intro id row q hrow hq
      rw [searchStep, purgeExpired, Table.get?_deleteWhere] at hrow
      exact h.requests id row q (Option.filter_eq_some_iff.mp hrow).1 hq

end Invariant

/-- **One model.** In every run in which no worker answers with another model of the stamped
width, and none is stamped while an answer is on its way, every hit with a distance is of the
model that produced the query vector. -/
theorem searches_one_model (schemas : Schemas) (display : Json → String) (workspaceId : Uuid)
    (active : Uuid → Bool) (tenant : TenantEmbedding) (labels : List SearchLabel)
    (hmeet : StepsMeet (searchStep schemas display workspaceId active)
      (fun s l => mixes schemas display s l = false) (.new tenant) labels) :
    OneModel (run (searchStep schemas display workspaceId active) (.new tenant) labels) := by
  have h := run_invariant SearchInv (fun s l hs hl => searchInv_step hs l hl)
    (searchInv_new tenant) hmeet
  exact h.returned

/-! ## A reindex in between -/

/-- The provider of a model under a generation. -/
def providerAt (model : String) (revision : Int) : Provider :=
  { lengthProvider model with workspaceRevision := some revision }

/-- A note is stored and embedded with the model `a`. -/
def noteEmbedded : List SearchLabel :=
  [.space (.create 1 (note (.string "hello") "t1")), .space (.startSync (providerAt "a" 0) 1),
    .space (.sync 0), .space (.sync 0), .space (.sync 0)]

def queryInput : EmbedInput := ⟨0, some (providerAt "a" 0), some [.finite 1], ""⟩

/-- A search is opened, and a worker answers it with the model `a`. -/
def queryAnswered : List SearchLabel :=
  [.openSearch 5 "greeting" 60 10 0, .deliver 5, .embed 0 queryInput, .embed 0 queryInput,
    .embed 0 queryInput, .embed 0 queryInput, .embed 0 queryInput]

/-- The workspace moves to the model `b`, which has the same width. -/
def keyChanged : List SearchLabel :=
  [.space (.setKey ⟨"b", 1⟩), .space (.startReindex (providerAt "b" 1)), .space (.reindex 0),
    .space (.reindex 0), .space (.reindex 0), .space (.reindex 0)]

/-- The search takes its vector and compares it. -/
def noteSearched : List SearchLabel :=
  [.search 0 [1], .search 0 [1], .search 0 [1], .search 0 [1], .search 0 [1]]

/-- The state after the labels in a workspace of notes. -/
def searched (labels : List SearchLabel) : SearchState :=
  run (searchStep noteSchemas noDisplay 7 fun _ => true) (.new plainTenant) labels

theorem searches_one_model_note :
    (∃ x ∈ (searched (noteEmbedded ++ queryAnswered ++ noteSearched)).searches,
        ∃ q hits, x.phase = .returned q hits ∧ hits ≠ []) ∧
      OneModel (searched (noteEmbedded ++ queryAnswered ++ noteSearched)) :=
  ⟨⟨_, List.mem_singleton.mpr rfl, _, _, rfl, List.cons_ne_nil _ _⟩,
    searches_one_model noteSchemas noDisplay 7 (fun _ => true) plainTenant _ (by decide)⟩

/-- The query vector of `a` is compared with the stored vector of `b`. -/
theorem not_oneModel_keyChanged :
    ¬ OneModel (searched (noteEmbedded ++ queryAnswered ++ keyChanged ++ noteSearched)) := by
  intro h
  have hmodel := h _ (List.mem_singleton.mpr rfl) _ _ rfl _ (List.mem_singleton.mpr rfl)
  revert hmodel
  decide

end Yorishiro.Query
