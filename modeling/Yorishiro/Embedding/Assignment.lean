import Yorishiro.Embedding.OpenAi
import Yorishiro.Embedding.Rebuild
import Yorishiro.Metaschema.Validate

/-!
# Assigned providers

A workspace may have a provider of its own: an endpoint, a key for it, a model and its width. The
trigger on the table of assignments counts the generation of the workspace on with every write.
`embedding_provider` reads the generation, the assignment, and the generation again, in three
statements; the provider it gives carries the generation, and what is computed with it is only
published under that generation.

`vectors_of_assignment` is what this is for. The model a vector is stamped with does not tell two
endpoints apart that have one model name; yet while no reindex is due, every stored vector is one
that the provider assigned now has computed.
-/

set_option autoImplicit false

namespace Yorishiro.Embedding

open Yorishiro.Lib Yorishiro.Lib.Transition Yorishiro.Schema
open Yorishiro.Embedding.OpenAi (OpenAiCompatibleConfig)
open Yorishiro.Metaschema (isWhitespace)

/-! ## Assignments -/

/-- `SetEmbeddingKeyRequest`. -/
structure SetEmbeddingKeyRequest where
  baseUrl : String
  model : String
  apiKey : String
  dimensions : Int
  sendDimensionsParam : Bool
deriving DecidableEq, Repr

/-- `validate_credentials`. -/
def validateCredentials (baseUrl apiKey : String) : Except YorishiroError String :=
  if (Lines.trim isWhitespace apiKey.toList).isEmpty then
    .error (.validationFailed "api_key must not be empty" []
      "remove the configuration instead of storing an empty key")
  else
    let url := (Lines.trim isWhitespace baseUrl.toList).rdropWhile fun c => decide (c = '/')
    if "http://".toList.isPrefixOf url || "https://".toList.isPrefixOf url then
      .ok (String.ofList url)
    else .error (.validationFailed "base_url must start with http:// or https://" []
      "for example https://api.openai.com/v1")

/-- The checks of `set`, and the row that it writes. -/
def checkRequest (request : SetEmbeddingKeyRequest) :
    Except YorishiroError OpenAiCompatibleConfig := do
  let baseUrl ← validateCredentials request.baseUrl request.apiKey
  if request.dimensions ≤ 0 then
    .error (.validationFailed "dimensions must be a positive integer" []
      "set it to the embedding model's own output width")
  else .ok ⟨baseUrl, request.apiKey, request.model, request.dimensions.toNat,
    request.sendDimensionsParam⟩

/-- What the assignment says to the checks of a publication. -/
def keyOf (config : OpenAiCompatibleConfig) : EmbeddingKey := ⟨config.model, config.dimensions⟩

/-- `AssignedEmbeddingProvider`. -/
def assignedProvider (p : Provider) (revision : Int) : Provider :=
  { p with workspaceRevision := some revision }

/-! ## Resolutions -/

/-- Where a run of `embedding_provider` stands. -/
inductive ResolvePhase where
  | started
  | fenced (revision : Int)
  | looked (revision : Int) (provider : Option Provider)
  | resolved (provider : Option Provider)
  | failed (error : YorishiroError)

/-- A run of `embedding_provider`, in a process. -/
structure Resolving where
  process : Nat
  phase : ResolvePhase

/-- The rows of a workspace with its runs, its assignment, and the resolutions in progress. -/
structure AssignmentState where
  space : EmbeddingState
  assignment : Option OpenAiCompatibleConfig
  resolutions : List Resolving

/-- A new workspace of a tenant. -/
def AssignmentState.new (tenant : TenantEmbedding) : AssignmentState := ⟨.new tenant, none, []⟩

/-- The rows of the workspace. -/
def AssignmentState.db (s : AssignmentState) : EmbeddingDb := s.space.db

/-- One transaction or statement of one party. A delivery starts its sync or reindex with the
provider that its resolution has given. -/
inductive AssignmentLabel where
  | create (id : Uuid) (content : EntityContent)
  | update (id : Uuid) (content : EntityContent)
  | delete (id : Uuid)
  | tenant (tenant : TenantEmbedding)
  | configure (request : SetEmbeddingKeyRequest)
  | remove
  | resolve (process : Nat)
  | resolveNext (k : Nat)
  | startSync (k : Nat) (entityId : Uuid)
  | sync (k : Nat)
  | startReindex (k : Nat)
  | reindex (k : Nat)

section Steps

variable (schemas : Schemas) (display : Json → String)
  (build : OpenAiCompatibleConfig → Provider) (deployment : Nat → Option Provider)

/-- The next step of a resolution. `build` is what `OpenAiCompatibleProvider::new` makes of an
assignment, and `deployment` the provider each process has for a workspace without one. -/
def resolveNext (s : AssignmentState) (r : Resolving) : ResolvePhase :=
  match r.phase with
  | .started => .fenced s.db.workspace.revision
  | .fenced revision => .looked revision ((s.assignment.map build).or (deployment r.process))
  | .looked revision provider =>
      if s.db.workspace.revision = revision then
        .resolved (provider.map fun p => assignedProvider p revision)
      else .failed (.conflict "workspace changed during provider resolution")
  | phase => phase

/-- A transaction or a statement on the rows. -/
def AssignmentState.onSpace (s : AssignmentState) (l : EmbeddingLabel) : AssignmentState :=
  { s with space := embeddingStep schemas display s.space l }

/-- The provider that a resolution has given. -/
def AssignmentState.provider? (s : AssignmentState) (k : Nat) : Option Provider :=
  match s.resolutions[k]? with
  | some ⟨_, .resolved provider⟩ => provider
  | _ => none

/-- The state after a label; one that is not enabled changes nothing. -/
def assignmentStep (s : AssignmentState) : AssignmentLabel → AssignmentState
  | .create id content => s.onSpace schemas display (.create id content)
  | .update id content => s.onSpace schemas display (.update id content)
  | .delete id => s.onSpace schemas display (.delete id)
  | .tenant tenant => s.onSpace schemas display (.tenant tenant)
  | .configure request =>
      match checkRequest request with
      | .ok config =>
          { s.onSpace schemas display (.setKey (keyOf config)) with assignment := some config }
      | .error _ => s
  | .remove => { s.onSpace schemas display .clearKey with assignment := none }
  | .resolve process => { s with resolutions := s.resolutions ++ [⟨process, .started⟩] }
  | .resolveNext k =>
      match s.resolutions[k]? with
      | some r =>
          { s with
            resolutions := s.resolutions.set k
              { r with phase := resolveNext build deployment s r } }
      | none => s
  | .startSync k entityId =>
      match s.provider? k with
      | some p => s.onSpace schemas display (.startSync p entityId)
      | none => s
  | .sync k => s.onSpace schemas display (.sync k)
  | .startReindex k =>
      match s.provider? k with
      | some p => s.onSpace schemas display (.startReindex p)
      | none => s
  | .reindex k => s.onSpace schemas display (.reindex k)

end Steps

/-! ## What a provider is worth -/

section Invariant

variable (build : OpenAiCompatibleConfig → Provider) (deployment : Nat → Option Provider)

/-- The provider is the one assigned, or a process's own where none is. -/
def Effective : Option OpenAiCompatibleConfig → Provider → Prop
  | some config, p => p = build config
  | none, p => ∃ process, deployment process = some p

/-- While the generation is still the one it was captured under, the provider is the assigned
one. -/
structure Current (s : AssignmentState) (revision : Int) (p : Provider) : Prop where
  le : revision ≤ s.db.workspace.revision
  effective : revision = s.db.workspace.revision → Effective build deployment s.assignment p

/-- The provider carries the generation it was captured under. -/
def Carries (s : AssignmentState) (p : Provider) : Prop :=
  ∃ q revision, p = assignedProvider q revision ∧ Current build deployment s revision q

/-- What a resolution knows. -/
def ResolvePhase.Sound (s : AssignmentState) : ResolvePhase → Prop
  | .fenced revision => revision ≤ s.db.workspace.revision
  | .looked revision (some p) => Current build deployment s revision p
  | .resolved (some p) => Carries build deployment s p
  | _ => True

/-- What a reindex knows: since its first transaction, under the generation of its own. -/
def ReindexSound (s : AssignmentState) (r : ReindexRun) : Prop :=
  ∃ q revision, r.provider = assignedProvider q revision ∧
    Current build deployment s revision q ∧
      ∀ c, r.phase.captured = some c → Current build deployment s c.1 q

/-- While the gate is down, every vector is the work of the assigned provider. -/
def Assigned (assignment : Option OpenAiCompatibleConfig) (db : EmbeddingDb) : Prop :=
  db.workspace.reindexing = false → ∀ id v, db.vectors.get? id = some v →
    ∃ p, Effective build deployment assignment p ∧ v.model = p.modelName ∧
      ∃ n text, p.embed n text = .ok v.vector

/-- What holds in every reachable state. -/
structure AssignmentInv (s : AssignmentState) : Prop where
  embedding : EmbeddingInv s.space
  key : s.db.key = s.assignment.map keyOf
  resolutions : ∀ r ∈ s.resolutions, r.phase.Sound build deployment s
  syncs : ∀ r ∈ s.space.syncs, Carries build deployment s r.provider
  reindexes : ∀ r ∈ s.space.reindexes, ReindexSound build deployment s r
  vectors : Assigned build deployment s.assignment s.db

end Invariant

section Moves

variable {build : OpenAiCompatibleConfig → Provider} {deployment : Nat → Option Provider}
  {s s' : AssignmentState} {p : Provider}

/-- The generation only counts on, and a new assignment is a new generation. -/
structure Onward (s s' : AssignmentState) : Prop where
  le : s.db.workspace.revision ≤ s'.db.workspace.revision
  assignment : s'.db.workspace.revision = s.db.workspace.revision → s'.assignment = s.assignment

theorem Current.onward {revision : Int} (h : Current build deployment s revision p)
    (hmove : Onward s s') : Current build deployment s' revision p where
  le := h.le.trans hmove.le
  effective := by
    intro hrev
    have hle := h.le
    have hmoved := hmove.le
    rw [hmove.assignment (by omega)]
    exact h.effective (by omega)

theorem Carries.onward (h : Carries build deployment s p) (hmove : Onward s s') :
    Carries build deployment s' p := by
  obtain ⟨q, revision, rfl, hcurrent⟩ := h
  exact ⟨q, revision, rfl, hcurrent.onward hmove⟩

theorem ReindexSound.onward {r : ReindexRun} (h : ReindexSound build deployment s r)
    (hmove : Onward s s') : ReindexSound build deployment s' r := by
  obtain ⟨q, revision, hp, hcurrent, hcaptured⟩ := h
  exact ⟨q, revision, hp, hcurrent.onward hmove, fun c hc => (hcaptured c hc).onward hmove⟩

theorem ResolvePhase.Sound.onward {phase : ResolvePhase} (h : phase.Sound build deployment s)
    (hmove : Onward s s') : phase.Sound build deployment s' := by
  cases phase with
  | fenced revision => exact le_trans h hmove.le
  | looked revision provider =>
      cases provider with
      | none => trivial
      | some p => exact Current.onward h hmove
  | resolved provider =>
      cases provider with
      | none => trivial
      | some p => exact Carries.onward h hmove
  | started => trivial
  | failed error => trivial

end Moves

/-! ## What the steps write -/

section Writes

variable (schemas : Schemas) (display : Json → String) {db : EmbeddingDb}

/-- A sync that commits found the generation its provider carries. -/
theorem publishSync_assigned {db db' : EmbeddingDb} {p : Provider} {snapshot : EmbeddingSnapshot}
    {revision expected : Int} {vector : Vector32} {outcome : EmbeddingWriteOutcome}
    (h : publishSync db p snapshot revision vector = .ok (db', outcome))
    (hp : p.workspaceRevision = some expected) : db.workspace.revision = expected := by
  obtain ⟨_, -, h⟩ := Except.bind_eq_ok.mp h
  obtain ⟨_, hcheck, -⟩ := Except.bind_eq_ok.mp h
  exact (checkEmbeddingAssignment_eq_ok hcheck).1 expected hp

/-- A step of a sync that stores a vector stores what its provider has computed, under the
generation that the provider carries. -/
theorem syncNext_assigned (db : EmbeddingDb) (r : SyncRun) :
    (∃ snapshot text vector, r.provider.embed 0 text = .ok vector ∧
        (∀ expected, r.provider.workspaceRevision = some expected →
          db.workspace.revision = expected) ∧
        Persists db (syncNext schemas display db r).1 r.provider snapshot vector) ∨
      (syncNext schemas display db r).1 = db := by
  rcases syncNext_rows schemas display db r with
    ⟨snapshot, text, revision, vector, hphase, hv, hended, -, hp⟩ | hsame
  · refine .inl ⟨snapshot, text, vector, hv, ?_, hp⟩
    intro expected hexpected
    simp only [syncNext, hphase, hv] at hended
    split at hended
    · next db' outcome hpub => exact publishSync_assigned hpub hexpected
    · cases hended
  · exact .inr hsame

/-- A step of a reindex that is not its first leaves the rows, or replaces all vectors by what its
provider has computed, under the generation of its own. -/
theorem reindexNext_assigned (h : SpaceInv db) {r : ReindexRun} (hr : ReindexInv db r)
    (hstarted : r.phase ≠ .started) :
    (∃ c, r.phase.captured = some c ∧ db.workspace.revision = c.1 ∧
        (reindexNext schemas display db r).1.key = db.key ∧
        ∀ id v, (reindexNext schemas display db r).1.vectors.get? id = some v →
          v.model = r.provider.modelName ∧ ∃ n text, r.provider.embed n text = .ok v.vector) ∨
      (reindexNext schemas display db r).1 = db := by
  obtain ⟨p, phase, flag⟩ := r
  cases phase with
  | started => exact absurd rfl hstarted
  | loaded revision contentRevision ids records =>
      simp only [reindexNext]
      split
      · next prepared hprep =>
        obtain ⟨hids, hall⟩ := prepare_eq_nil hprep
        split
        · next db' hpub =>
          obtain ⟨hrev, -, hp⟩ := publishReindex_eq_ok (hids ▸ hr.nodup) hpub
          refine .inl ⟨(revision, contentRevision), rfl, hrev, hp.key, fun id v hv => ?_⟩
          rw [hp.vectors id] at hv
          rcases Option.or_eq_some_iff.mp hv with hnew | ⟨-, hold⟩
          · obtain ⟨w, hw, rfl⟩ := Option.map_eq_some_iff.mp hnew
            obtain ⟨e, he, hsome⟩ := Option.bind_eq_some_iff.mp hw
            obtain ⟨-, n, hn⟩ := hall e (List.mem_of_find?_eq_some he)
            rcases reindexEmbeddingForRecord_eq_ok hn with ⟨-, hnone⟩ | ⟨text, v, -, hv, hembed, -⟩
            · rw [hnone] at hsome
              cases hsome
            · obtain rfl : v = w := Option.some.inj (hv.symm.trans hsome)
              exact ⟨rfl, n, text, hembed⟩
          · -- a vector that was there belonged to an entity, and was cleared
            obtain ⟨hold, hgone⟩ := Option.filter_eq_some_iff.mp hold
            exact absurd (Option.isNone_iff_eq_none.mp hgone) (h.owned id v hold)
        · exact .inr rfl
      · exact .inr rfl
  | fenced revision contentRevision => exact .inr rfl
  | listed revision contentRevision ids => exact .inr rfl
  | published => exact .inr rfl
  | failed failures => exact .inr rfl
  | aborted e => exact .inr rfl

/-- A reindex that begins found the generation its provider carries. -/
theorem beginReindex_assigned {db db' : EmbeddingDb} {p : Provider}
    {revision contentRevision expected : Int}
    (h : beginReindex db p = .ok (db', revision, contentRevision))
    (hp : p.workspaceRevision = some expected) : db.workspace.revision = expected := by
  unfold beginReindex at h
  split_ifs at h
  obtain ⟨_, -, h⟩ := Except.bind_eq_ok.mp h
  obtain ⟨_, hcheck, -⟩ := Except.bind_eq_ok.mp h
  exact (checkEmbeddingAssignment_eq_ok hcheck).1 expected hp

/-- The generation of its own that a reindex works under stays the same. -/
theorem reindexNext_captured {schemas : Schemas} {display : Json → String} {db : EmbeddingDb}
    {r : ReindexRun} {c : Int × Int} (hstarted : r.phase ≠ .started)
    (h : (reindexNext schemas display db r).2.captured = some c) : r.phase.captured = some c := by
  obtain ⟨p, phase, flag⟩ := r
  cases phase with
  | started => exact absurd rfl hstarted
  | fenced revision contentRevision => exact h
  | listed revision contentRevision ids => exact h
  | loaded revision contentRevision ids records =>
      simp only [reindexNext] at h
      split at h
      · split at h
        · cases h
        · cases h
      · cases h
  | published => exact h
  | failed failures => exact h
  | aborted e => exact h

end Writes

/-! ## Every reachable state -/

section Reachable

variable {schemas : Schemas} {display : Json → String}
  {build : OpenAiCompatibleConfig → Provider} {deployment : Nat → Option Provider}
  {s : AssignmentState}

/-- A step on the rows that leaves the assignment. -/
theorem AssignmentInv.onSpace (h : AssignmentInv build deployment s) {l : EmbeddingLabel}
    (hrev : s.db.workspace.revision ≤
      (embeddingStep schemas display s.space l).db.workspace.revision)
    (hkey : (embeddingStep schemas display s.space l).db.key = s.db.key)
    (hsyncs : ∀ r ∈ (embeddingStep schemas display s.space l).syncs,
      Carries build deployment s r.provider)
    (hreindexes : ∀ r ∈ (embeddingStep schemas display s.space l).reindexes,
      ReindexSound build deployment (s.onSpace schemas display l) r)
    (hvectors : Assigned build deployment s.assignment
      (embeddingStep schemas display s.space l).db) :
    AssignmentInv build deployment (s.onSpace schemas display l) := by
  have hmove : Onward s (s.onSpace schemas display l) := ⟨hrev, fun _ => rfl⟩
  exact {
    embedding := embeddingInv_step schemas display h.embedding l
    key := hkey.trans h.key
    resolutions := fun r hr => (h.resolutions r hr).onward hmove
    syncs := fun r hr => (hsyncs r hr).onward hmove
    reindexes := hreindexes
    vectors := hvectors }

/-- A transaction on the entities. -/
theorem AssignmentInv.changed (h : AssignmentInv build deployment s) {l : EmbeddingLabel}
    {db : EmbeddingDb} (hstep : embeddingStep schemas display s.space l = s.space.changed db)
    (hrev : db.workspace.revision = s.db.workspace.revision) (hkey : db.key = s.db.key)
    (hvectors : Assigned build deployment s.assignment db) :
    AssignmentInv build deployment (s.onSpace schemas display l) := by
  have hmove : Onward s (s.onSpace schemas display l) :=
    ⟨by rw [AssignmentState.onSpace, AssignmentState.db, hstep]; exact le_of_eq hrev.symm,
      fun _ => rfl⟩
  apply h.onSpace
  · exact hmove.le
  · rw [hstep]
    exact hkey
  · rw [hstep]
    exact h.syncs
  · rw [hstep]
    intro r hr
    obtain ⟨r₀, hr₀, rfl⟩ := List.mem_map.mp hr
    exact (h.reindexes r₀ hr₀).onward hmove
  · rw [hstep]
    exact hvectors

/-- A step that leaves the rows and the runs. -/
theorem AssignmentInv.same (h : AssignmentInv build deployment s) {l : EmbeddingLabel}
    (hstep : embeddingStep schemas display s.space l = s.space) :
    AssignmentInv build deployment (s.onSpace schemas display l) := by
  have hsame : s.onSpace schemas display l = s := by rw [AssignmentState.onSpace, hstep]
  rw [hsame]
  exact h

/-- A write to the assignments begins a new generation, with the gate up. -/
theorem AssignmentInv.touched (h : AssignmentInv build deployment s) {l : EmbeddingLabel}
    {times : Int} {assignment : Option OpenAiCompatibleConfig} (htimes : 0 < times)
    (hstep : embeddingStep schemas display s.space l =
      s.space.changed (touchKey s.db times (assignment.map keyOf))) :
    AssignmentInv build deployment
      { s.onSpace schemas display l with assignment := assignment } := by
  have hmove : Onward s { s.onSpace schemas display l with assignment := assignment } := by
    have hdb : (s.onSpace schemas display l).db = touchKey s.db times (assignment.map keyOf) := by
      rw [AssignmentState.onSpace, AssignmentState.db, hstep]
      rfl
    constructor
    · change _ ≤ (s.onSpace schemas display l).db.workspace.revision
      rw [hdb]
      simp only [touchKey]
      omega
    · change (s.onSpace schemas display l).db.workspace.revision = _ → _
      rw [hdb]
      simp only [touchKey]
      intro hsame
      omega
  have hinv := embeddingInv_step schemas display h.embedding l
  refine ⟨hinv, ?_, ?_, ?_, ?_, ?_⟩
  · simp [AssignmentState.onSpace, AssignmentState.db, hstep, EmbeddingState.changed, touchKey]
  · exact fun r hr => (h.resolutions r hr).onward hmove
  · intro r hr
    simp only [AssignmentState.onSpace, hstep] at hr
    exact (h.syncs r hr).onward hmove
  · intro r hr
    simp only [AssignmentState.onSpace, hstep] at hr
    obtain ⟨r₀, hr₀, rfl⟩ := List.mem_map.mp hr
    exact (h.reindexes r₀ hr₀).onward hmove
  · intro hgate
    simp [AssignmentState.onSpace, AssignmentState.db, hstep, EmbeddingState.changed,
      touchKey] at hgate

theorem AssignmentInv.sync (h : AssignmentInv build deployment s) {k : Nat} {r : SyncRun}
    (hk : s.space.syncs[k]? = some r) :
    AssignmentInv build deployment (s.onSpace schemas display (.sync k)) := by
  have hcarries := h.syncs r (List.mem_of_getElem? hk)
  have hstep : embeddingStep schemas display s.space (.sync k) =
      { s.space with
        db := (syncNext schemas display s.db r).1
        syncs := s.space.syncs.set k
          { r with phase := (syncNext schemas display s.db r).2 } } := by
    simp only [embeddingStep, hk]
    rfl
  have hdb := syncNext_db schemas display h.embedding.space r
  have hmove : Onward s (s.onSpace schemas display (.sync k)) :=
    ⟨by rw [AssignmentState.onSpace, AssignmentState.db, hstep]; exact le_of_eq hdb.2.1.symm,
      fun _ => rfl⟩
  apply h.onSpace
  · exact hmove.le
  · rw [hstep]
    rcases syncNext_assigned schemas display s.db r with ⟨_, _, _, -, -, hp⟩ | hsame
    · exact hp.key
    · exact congrArg EmbeddingDb.key hsame
  · rw [hstep]
    intro r' hr'
    rcases List.mem_or_eq_of_mem_set hr' with hold | rfl
    · exact h.syncs r' hold
    · exact hcarries
  · rw [hstep]
    exact fun r' hr' => (h.reindexes r' hr').onward hmove
  · rw [hstep]
    rcases syncNext_assigned schemas display s.db r with
      ⟨snapshot, text, vector, hv, hexpected, hp⟩ | hsame
    · obtain ⟨q, revision, hprovider, hcurrent⟩ := hcarries
      have heffective := hcurrent.effective
        (hexpected revision (by rw [hprovider]; rfl)).symm
      intro hgate id v hget
      dsimp only at hgate hget
      rw [hp.reindexing] at hgate
      rw [hp.vectors, OrderedMap.get?_insert] at hget
      split_ifs at hget
      · obtain rfl := Option.some.inj hget
        rw [hprovider] at hv ⊢
        exact ⟨q, heffective, rfl, 0, text, hv⟩
      · exact h.vectors hgate id v hget
    · change Assigned _ _ _ (syncNext schemas display s.db r).1
      rw [hsame]
      exact h.vectors

/-- A reindex that is refused by a check of its first transaction. -/
theorem AssignmentInv.reindex_refused (h : AssignmentInv build deployment s) {k : Nat}
    {p : Provider} {flag : Bool} {e : YorishiroError}
    (hk : s.space.reindexes[k]? = some ⟨p, .started, flag⟩)
    (hstep : embeddingStep schemas display s.space (.reindex k) =
      { s.space with reindexes := s.space.reindexes.set k ⟨p, .aborted e, flag⟩ }) :
    AssignmentInv build deployment (s.onSpace schemas display (.reindex k)) := by
  obtain ⟨q, revision, hprovider, hcurrent, -⟩ := h.reindexes _ (List.mem_of_getElem? hk)
  have hmove : Onward s (s.onSpace schemas display (.reindex k)) :=
    ⟨by rw [AssignmentState.onSpace, AssignmentState.db, hstep]; exact le_refl _,
      fun _ => rfl⟩
  apply h.onSpace hmove.le
  · rw [hstep]
    rfl
  · rw [hstep]
    exact h.syncs
  · rw [hstep]
    intro r' hr'
    rcases List.mem_or_eq_of_mem_set hr' with hold | rfl
    · exact (h.reindexes r' hold).onward hmove
    · exact ⟨q, revision, hprovider, hcurrent.onward hmove, fun c hc => by cases hc⟩
  · rw [hstep]
    exact h.vectors

/-- A reindex whose first transaction found the generation that its provider carries. -/
theorem AssignmentInv.reindex_begun (h : AssignmentInv build deployment s) {k : Nat}
    {p : Provider} {flag : Bool} {db : EmbeddingDb} {begun contentRevision : Int}
    (hk : s.space.reindexes[k]? = some ⟨p, .started, flag⟩)
    (hbegin : beginReindex s.db p = .ok (db, begun, contentRevision))
    (hstep : embeddingStep schemas display s.space (.reindex k) =
      { s.space with
        db := db
        reindexes :=
          (overtake s.space.reindexes).set k ⟨p, .fenced begun contentRevision, false⟩ }) :
    AssignmentInv build deployment (s.onSpace schemas display (.reindex k)) := by
  obtain ⟨q, revision, hprovider, hcurrent, -⟩ := h.reindexes _ (List.mem_of_getElem? hk)
  have hrev : s.db.workspace.revision = revision := by
    have hp : p = assignedProvider q revision := hprovider
    exact beginReindex_assigned hbegin (hp ▸ rfl)
  obtain ⟨rfl, rfl, -⟩ := beginReindex_eq_ok hbegin
  have hmove : Onward s (s.onSpace schemas display (.reindex k)) :=
    ⟨by rw [AssignmentState.onSpace, AssignmentState.db, hstep]; simp [AssignmentState.db],
      fun _ => rfl⟩
  apply h.onSpace hmove.le
  · rw [hstep]
  · rw [hstep]
    exact h.syncs
  · rw [hstep]
    intro r' hr'
    rcases List.mem_or_eq_of_mem_set hr' with hold | rfl
    · obtain ⟨r₀, hr₀, rfl⟩ := List.mem_map.mp hold
      exact (h.reindexes r₀ hr₀).onward hmove
    · refine ⟨q, revision, hprovider, hcurrent.onward hmove, fun c hc => ?_⟩
      obtain rfl := Option.some.inj hc
      refine ⟨?_, fun _ => hcurrent.effective hrev.symm⟩
      rw [AssignmentState.onSpace, AssignmentState.db, hstep]
      rfl
  · rw [hstep]
    intro hgate
    cases hgate

/-- A later transaction of a reindex; vectors are stored only under the generation that the run
has captured. -/
theorem AssignmentInv.reindex_later (h : AssignmentInv build deployment s) {k : Nat}
    {r : ReindexRun} (hk : s.space.reindexes[k]? = some r) (hstarted : r.phase ≠ .started) :
    AssignmentInv build deployment (s.onSpace schemas display (.reindex k)) := by
  obtain ⟨q, revision, hprovider, hcurrent, hcaptured⟩ :=
    h.reindexes r (List.mem_of_getElem? hk)
  have hr := h.embedding.runs r (List.mem_of_getElem? hk)
  have hstep : embeddingStep schemas display s.space (.reindex k) =
      s.space.reindexStep schemas display k r := by
    simp only [embeddingStep, hk]
  rw [reindexStep_later schemas display hstarted] at hstep
  obtain ⟨-, hrev, -, -, -⟩ :=
    reindexNext_facts schemas display h.embedding.space hr hstarted
  have hmove : Onward s (s.onSpace schemas display (.reindex k)) :=
    ⟨by rw [AssignmentState.onSpace, AssignmentState.db, hstep]; exact le_of_eq hrev.symm,
      fun _ => rfl⟩
  have hwrites := reindexNext_assigned schemas display h.embedding.space hr hstarted
  apply h.onSpace hmove.le
  · rw [hstep]
    rcases hwrites with ⟨c, -, -, hkey, -⟩ | hsame
    · exact hkey
    · exact congrArg EmbeddingDb.key hsame
  · rw [hstep]
    exact h.syncs
  · rw [hstep]
    intro r' hr'
    rcases List.mem_or_eq_of_mem_set hr' with hold | rfl
    · exact (h.reindexes r' hold).onward hmove
    · refine ⟨q, revision, hprovider, hcurrent.onward hmove, fun c hc => ?_⟩
      exact (hcaptured c (reindexNext_captured hstarted hc)).onward hmove
  · rw [hstep]
    rcases hwrites with ⟨c, hc, hcurrentRev, -, hcomputed⟩ | hsame
    · intro _ id v hv
      obtain ⟨hmodel, n, text, hembed⟩ := hcomputed id v hv
      rw [hprovider] at hmodel hembed
      exact ⟨q, (hcaptured c hc).effective hcurrentRev.symm, hmodel, n, text, hembed⟩
    · change Assigned _ _ _ (reindexNext schemas display s.space.db r).1
      rw [hsame]
      exact h.vectors

theorem AssignmentInv.reindex (h : AssignmentInv build deployment s) {k : Nat} {r : ReindexRun}
    (hk : s.space.reindexes[k]? = some r) :
    AssignmentInv build deployment (s.onSpace schemas display (.reindex k)) := by
  by_cases hstarted : r.phase = .started
  · obtain ⟨p, phase, flag⟩ := r
    subst hstarted
    have hstep : embeddingStep schemas display s.space (.reindex k) =
        s.space.reindexStep schemas display k ⟨p, .started, flag⟩ := by
      simp only [embeddingStep, hk]
    rcases reindexStep_started schemas display s.space k p flag with
      ⟨e, heq⟩ | ⟨db, revision, contentRevision, hbegin, heq⟩
    · exact h.reindex_refused hk (hstep.trans heq)
    · exact h.reindex_begun hk hbegin (hstep.trans heq)
  · exact h.reindex_later hk hstarted

theorem AssignmentInv.provider? (h : AssignmentInv build deployment s) {k : Nat} {p : Provider}
    (hp : s.provider? k = some p) : Carries build deployment s p := by
  unfold AssignmentState.provider? at hp
  split at hp
  · next process provider hk =>
    subst hp
    exact h.resolutions _ (List.mem_of_getElem? hk)
  · cases hp

/-- What a resolution has read is what was assigned under the generation read before it; the
last read finds that generation current, or gives no provider. -/
theorem resolveNext_sound {r : Resolving}
    (hr : r.phase.Sound build deployment s) :
    (resolveNext build deployment s r).Sound build deployment s := by
  obtain ⟨process, phase⟩ := r
  cases phase with
  | started => exact le_refl _
  | fenced revision =>
      simp only [resolveNext]
      cases hassigned : s.assignment with
      | some config =>
          refine ⟨hr, fun _ => ?_⟩
          rw [hassigned]
          rfl
      | none =>
          cases hdeployed : deployment process with
          | none => trivial
          | some p =>
              refine ⟨hr, fun _ => ?_⟩
              rw [hassigned]
              exact ⟨process, hdeployed⟩
  | looked revision provider =>
      simp only [resolveNext]
      split_ifs
      · cases provider with
        | none => trivial
        | some p => exact ⟨p, revision, rfl, hr⟩
      · trivial
  | resolved provider => exact hr
  | failed error => trivial

theorem AssignmentInv.of_resolutions (h : AssignmentInv build deployment s)
    {resolutions : List Resolving}
    (hresolutions : ∀ r ∈ resolutions, r.phase.Sound build deployment s) :
    AssignmentInv build deployment { s with resolutions := resolutions } where
  embedding := h.embedding
  key := h.key
  resolutions := fun r hr => (hresolutions r hr).onward ⟨le_refl _, fun _ => rfl⟩
  syncs := fun r hr => (h.syncs r hr).onward ⟨le_refl _, fun _ => rfl⟩
  reindexes := fun r hr => (h.reindexes r hr).onward ⟨le_refl _, fun _ => rfl⟩
  vectors := h.vectors

theorem assignmentInv_new (tenant : TenantEmbedding) :
    AssignmentInv build deployment (.new tenant) where
  embedding := embeddingInv_new tenant
  key := rfl
  resolutions := fun _ hr => by cases hr
  syncs := fun _ hr => by cases hr
  reindexes := fun _ hr => by cases hr
  vectors := fun _ _ _ hv => by cases hv

theorem AssignmentInv.update (h : AssignmentInv build deployment s) (id : Uuid)
    (content : EntityContent) :
    AssignmentInv build deployment (s.onSpace schemas display (.update id content)) := by
  by_cases hid : (s.space.db.entities.get? id).isSome
  · have hdb : updateEntity s.space.db id content = insertEntity s.space.db id content :=
      if_pos hid
    refine h.changed (if_pos hid) ?_ ?_ ?_
    · rw [hdb]
      rfl
    · rw [hdb]
      rfl
    · rw [hdb]
      exact h.vectors
  · exact h.same (if_neg hid)

theorem AssignmentInv.delete (h : AssignmentInv build deployment s) (id : Uuid) :
    AssignmentInv build deployment (s.onSpace schemas display (.delete id)) := by
  by_cases hid : (s.space.db.entities.get? id).isSome
  · refine h.changed (if_pos hid) ?_ ?_ ?_
    · simp [deleteEntity, hid, AssignmentState.db]
    · simp [deleteEntity, hid, AssignmentState.db]
    · simp only [deleteEntity, hid, if_true]
      intro hgate other v hv
      rw [OrderedMap.get?_erase] at hv
      split_ifs at hv
      exact h.vectors hgate other v hv
  · exact h.same (if_neg hid)

/-- Removing an assignment that is not there does nothing. -/
theorem AssignmentInv.remove (h : AssignmentInv build deployment s) :
    AssignmentInv build deployment
      (assignmentStep schemas display build deployment s .remove) := by
  cases hassigned : s.assignment with
  | some config =>
      have hkey : s.space.db.key.isSome := by
        have hsome := h.key
        rw [hassigned] at hsome
        exact hsome ▸ rfl
      refine h.touched Int.zero_lt_one ?_
      simp only [embeddingStep, clearKey, hkey, if_true]
      rfl
  | none =>
      have hkey : ¬s.space.db.key.isSome := by
        have hnone := h.key
        rw [hassigned] at hnone
        exact fun hsome => by
          have : s.db.key.isSome := hsome
          rw [hnone] at this
          cases this
      have hsame : assignmentStep schemas display build deployment s .remove = s := by
        dsimp only [assignmentStep, AssignmentState.onSpace, embeddingStep]
        rw [if_neg hkey, ← hassigned]
      rw [hsame]
      exact h

/-- A sync begins with the provider that a resolution gave. -/
theorem AssignmentInv.startSync (h : AssignmentInv build deployment s) {k : Nat} {p : Provider}
    (hp : s.provider? k = some p) (entityId : Uuid) :
    AssignmentInv build deployment (s.onSpace schemas display (.startSync p entityId)) := by
  refine h.onSpace (le_refl _) rfl ?_
    (fun r hr => (h.reindexes r hr).onward ⟨le_refl _, fun _ => rfl⟩) h.vectors
  intro r hr
  rcases List.mem_append.mp hr with hold | hnew
  · exact h.syncs r hold
  · obtain rfl := List.mem_singleton.mp hnew
    exact h.provider? hp

theorem AssignmentInv.startReindex (h : AssignmentInv build deployment s) {k : Nat} {p : Provider}
    (hp : s.provider? k = some p) :
    AssignmentInv build deployment (s.onSpace schemas display (.startReindex p)) := by
  refine h.onSpace (le_refl _) rfl h.syncs ?_ h.vectors
  intro r hr
  rcases List.mem_append.mp hr with hold | hnew
  · exact (h.reindexes r hold).onward ⟨le_refl _, fun _ => rfl⟩
  · obtain rfl := List.mem_singleton.mp hnew
    obtain ⟨q, revision, hq, hcurrent⟩ := h.provider? hp
    exact ⟨q, revision, hq, hcurrent.onward ⟨le_refl _, fun _ => rfl⟩, fun c hc => by cases hc⟩

/-- **Step lemma.** -/
theorem assignmentInv_step (h : AssignmentInv build deployment s) (l : AssignmentLabel) :
    AssignmentInv build deployment
      (assignmentStep schemas display build deployment s l) := by
  cases l with
  | create id content =>
      by_cases hid : (s.space.db.entities.get? id).isSome
      · exact h.same (if_pos hid)
      · exact h.changed (if_neg hid) rfl rfl h.vectors
  | update id content => exact h.update id content
  | delete id => exact h.delete id
  | tenant tenant =>
      exact h.onSpace (le_refl _) rfl h.syncs
        (fun r hr => (h.reindexes r hr).onward ⟨le_refl _, fun _ => rfl⟩) h.vectors
  | configure request =>
      dsimp only [assignmentStep]
      split
      · next config _ =>
        have htimes : (0 : Int) < if s.db.key.isSome then 2 else 1 := by split_ifs <;> decide
        exact h.touched htimes rfl
      · exact h
  | remove => exact h.remove
  | resolve process =>
      refine h.of_resolutions fun r hr => ?_
      rcases List.mem_append.mp hr with hold | hnew
      · exact h.resolutions r hold
      · obtain rfl := List.mem_singleton.mp hnew
        trivial
  | resolveNext k =>
      dsimp only [assignmentStep]
      split
      · next r hk =>
        refine h.of_resolutions fun r' hr' => ?_
        rcases List.mem_or_eq_of_mem_set hr' with hold | rfl
        · exact h.resolutions r' hold
        · exact resolveNext_sound (h.resolutions r (List.mem_of_getElem? hk))
      · exact h
  | startSync k entityId =>
      dsimp only [assignmentStep]
      split
      · next p hp =>
        exact h.startSync hp entityId
      · exact h
  | sync k =>
      cases hk : s.space.syncs[k]? with
      | some r => exact h.sync hk
      | none => exact h.same (by simp only [embeddingStep, hk])
  | startReindex k =>
      dsimp only [assignmentStep]
      split
      · next p hp =>
        exact h.startReindex hp
      · exact h
  | reindex k =>
      cases hk : s.space.reindexes[k]? with
      | some r => exact h.reindex hk
      | none => exact h.same (by simp only [embeddingStep, hk])

end Reachable

/-- Over every interleaving of changes of the assignment, resolutions in any number of processes,
syncs, reindexes and entity writes: while the gate is down, every stored vector was computed by
the provider that is assigned now, or by the one of a process where none is assigned. -/
theorem vectors_of_assignment (schemas : Schemas) (display : Json → String)
    (build : OpenAiCompatibleConfig → Provider) (deployment : Nat → Option Provider)
    (tenant : TenantEmbedding) (labels : List AssignmentLabel) :
    let s := run (assignmentStep schemas display build deployment) (.new tenant) labels
    s.db.workspace.reindexing = false → ∀ id v, s.db.vectors.get? id = some v →
      ∃ p, Effective build deployment s.assignment p ∧ v.model = p.modelName ∧
        ∃ n text, p.embed n text = .ok v.vector := by
  intro s
  have hmeet : StepsMeet (assignmentStep schemas display build deployment) (fun _ _ => True)
      (.new tenant) labels :=
    StepsMeet.of_forall (fun _ _ => trivial) _ labels
  have hinv := run_invariant (AssignmentInv build deployment)
    (fun s l hs _ => assignmentInv_step hs l) (assignmentInv_new tenant) hmeet
  exact hinv.vectors

/-- The workspace of a note gets a provider of its own, and a worker resolves it and reindexes. -/
def noteAssigned : List AssignmentLabel :=
  [.create 1 (note (.string "hello") "t1"),
    .configure ⟨"https://models.test/", "m", "key", 1, false⟩,
    .resolve 0, .resolveNext 0, .resolveNext 0, .resolveNext 0, .startReindex 0,
    .reindex 0, .reindex 0, .reindex 0, .reindex 0]

theorem vectors_of_assignment_note :
    ∃ p, Effective (fun config => lengthProvider config.model) (fun _ => some (lengthProvider "d"))
        (some ⟨"https://models.test", "key", "m", 1, false⟩) p ∧
      "m" = p.modelName ∧ ∃ n text, p.embed n text = .ok [.finite 11] :=
  vectors_of_assignment noteSchemas noDisplay (fun config => lengthProvider config.model)
    (fun _ => some (lengthProvider "d")) plainTenant noteAssigned (by decide) 1
    ⟨[.finite 11], "m"⟩ (by decide)

end Yorishiro.Embedding
