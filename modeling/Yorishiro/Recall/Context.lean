import Yorishiro.Lib.Levels
import Yorishiro.Recall.Neighbors

/-!
# Recall

`recall_context` goes out from an entity hop by hop, with one batch of neighbours for each hop. It
asks for one neighbour more than the limit, to see that there are more, and reports an entity at
the hop at which it comes across it first.

The loop is a search by levels (`Search`). Where no expanded entity has more relation ends than the
limit it reports exactly the entities within the depth, at their distances (`recall_exact`). Whether
it reports that it left something out is `recall_reports_iff`: the batch clamps the limit once more,
so nothing is noticed at the largest limit.
-/

set_option autoImplicit false

namespace Yorishiro.Recall

open Yorishiro.Lib Yorishiro.Lib.Levels Yorishiro.Entity Yorishiro.Metaschema Yorishiro.Schema

/-! ## The call -/

/-- `MAX_RECALL_DEPTH`. -/
def maxRecallDepth : Int := 3

/-- `RecallQuery`. -/
structure RecallQuery where
  limit : Int
  full : Bool
  depth : Int
deriving DecidableEq, Repr

/-- The depth as `recall_context` clamps it. -/
def clampDepth (depth : Int) : Nat := (max 1 (min depth maxRecallDepth)).toNat

/-- `RecallRelation`. -/
structure RecallRelation where
  relationType : String
  direction : String
  neighbor : Uuid × EntityRow
  hopDistance : Nat

/-- `RecallContext`. -/
structure RecallContext where
  entity : Uuid × EntityRow
  relations : List RecallRelation
  truncated : Bool

/-- `shallow_copy`: only the fields marked `x-embed`. -/
def shallowCopy (schema : SchemaRecord) (entity : Uuid × EntityRow) : Uuid × EntityRow :=
  let shallow := match schema.definition.entityTypes.get? entity.2.entityType, entity.2.data with
    | some definition, .object data =>
        definition.trees.foldl (fun shallow e =>
          if e.2.attrs.xEmbed then
            match Entries.get? e.1 data with
            | some value => Entries.insert e.1 value shallow
            | none => shallow
          else shallow) []
    | _, _ => []
  (entity.1, { entity.2 with data := .object shallow })

/-- The variables of `recall_context`. `expanded` is not one of them: it keeps the entities that
have been expanded. -/
structure RecallState where
  visited : List Uuid
  frontier : List Uuid
  nextFrontier : List Uuid
  relationsOut : List RecallRelation
  truncated : Bool
  expanded : List Uuid

/-- Before the first hop. -/
def RecallState.start (entityId : Uuid) : RecallState where
  visited := [entityId]
  frontier := [entityId]
  nextFrontier := []
  relationsOut := []
  truncated := false
  expanded := []

section Call

variable (order : RowOrder) (g : RelationGraph) (full : Bool) (limit : Nat)

/-- The neighbour as it is reported. -/
def neighborEntity (entity : Uuid × EntityRow) : Except YorishiroError (Uuid × EntityRow) :=
  if full then .ok entity
  else do
    let schema ← getById g.workspace.store.tables.schemas entity.2.schemaId
    pure (shallowCopy schema entity)

/-- The body of the loop over the neighbours of an entity. -/
def visitNeighbor (hop : Nat) (s : RecallState) (neighbor : Neighbor) :
    Except YorishiroError RecallState :=
  if neighbor.entity.1 ∈ s.visited then .ok s
  else do
    let entity ← neighborEntity g full neighbor.entity
    pure
      { s with
        visited := neighbor.entity.1 :: s.visited
        nextFrontier := s.nextFrontier ++ [neighbor.entity.1]
        relationsOut := s.relationsOut ++
          [{ relationType := neighbor.relationType
             direction := neighbor.direction
             neighbor := entity
             hopDistance := hop }] }

/-- The body of the loop over the frontier. Its ids are distinct, so that taking an entry out of
the batch is looking it up. -/
def expandNode (byPivot : OrderedMap Uuid (List Neighbor)) (hop : Nat) (s : RecallState)
    (sourceId : Uuid) : Except YorishiroError RecallState :=
  match byPivot.get? sourceId with
  | none => .ok { s with expanded := s.expanded ++ [sourceId] }
  | some neighbors =>
      (neighbors.take limit).foldlM (visitNeighbor g full hop)
        { s with
          truncated := s.truncated || decide (limit < neighbors.length)
          expanded := s.expanded ++ [sourceId] }

/-- One hop: one neighbour more than the limit is asked for. -/
def recallHop (hop : Nat) (s : RecallState) : Except YorishiroError RecallState :=
  s.frontier.foldlM
    (expandNode g full limit (neighborsBatch order g s.frontier (limit + 1)) hop)
    { s with nextFrontier := [] }

/-- The loop over the hops. -/
def recallHops : Nat → Nat → RecallState → Except YorishiroError RecallState
  | 0, _, s => .ok s
  | remaining + 1, hop, s => do
      let s ← recallHop order g full limit hop s
      if s.nextFrontier.isEmpty then pure s
      else recallHops remaining (hop + 1) { s with frontier := s.nextFrontier }

end Call

/-- The search of `recall_context`. -/
def recallSearch (order : RowOrder) (g : RelationGraph) (entityId : Uuid) (query : RecallQuery) :
    Except YorishiroError RecallState :=
  recallHops order g query.full (clampLimit query.limit) (clampDepth query.depth) 1
    (.start entityId)

/-- `recall_context`. -/
def recallContext (order : RowOrder) (g : RelationGraph) (entityId : Uuid) (query : RecallQuery) :
    Except YorishiroError RecallContext := do
  let entity ← get g.workspace.store entityId
  let s ← recallSearch order g entityId query
  pure { entity := (entityId, entity), relations := s.relationsOut, truncated := s.truncated }

/-- The search expands the entity: it asks for its neighbours. -/
def Expands (order : RowOrder) (g : RelationGraph) (entityId : Uuid) (query : RecallQuery)
    (id : Uuid) : Prop :=
  ∃ s, recallSearch order g entityId query = .ok s ∧ id ∈ s.expanded

/-! ## One hop -/

section Hop

variable {order : RowOrder} {g : RelationGraph} {full : Bool} {limit hop : Nat}
  {s₀ s : RecallState} {seen : List Uuid}

/-- The state while a hop is under way that started in `s₀`, after the neighbours `seen`. -/
structure Underway (hop : Nat) (s₀ : RecallState) (seen : List Uuid) (s : RecallState) : Prop where
  visited : ∀ v, v ∈ s.visited ↔ v ∈ s₀.visited ∨ v ∈ s.nextFrontier
  found : ∀ v, v ∈ s.nextFrontier ↔ v ∉ s₀.visited ∧ v ∈ seen
  nodup : s.nextFrontier.Nodup
  reported : ∃ fresh, s.relationsOut = s₀.relationsOut ++ fresh ∧
    fresh.map (·.neighbor.1) = s.nextFrontier ∧ ∀ r ∈ fresh, r.hopDistance = hop

/-- A stored entity can be reported, under its id. -/
theorem neighborEntity_total (full : Bool) {entity : Uuid × EntityRow}
    (hstored : g.row entity.1 = some entity.2) :
    ∃ reported, neighborEntity g full entity = .ok reported ∧ reported.1 = entity.1 := by
  unfold neighborEntity
  cases full with
  | true => exact ⟨entity, rfl, rfl⟩
  | false =>
      obtain ⟨version, hversion⟩ := g.closed.versions _ _ hstored
      refine ⟨shallowCopy version entity, ?_, rfl⟩
      rw [getById, hversion]
      rfl

/-- Step: one neighbour. -/
theorem Underway.visit (full : Bool) (h : Underway hop s₀ seen s) {n : Neighbor}
    (hstored : g.row n.entity.1 = some n.entity.2) :
    ∃ s', visitNeighbor g full hop s n = .ok s' ∧ Underway hop s₀ (seen ++ [n.entity.1]) s' ∧
      s'.truncated = s.truncated ∧ s'.expanded = s.expanded := by
  unfold visitNeighbor
  by_cases hvisited : n.entity.1 ∈ s.visited
  · refine ⟨s, if_pos hvisited, ⟨h.visited, fun v => ?_, h.nodup, h.reported⟩, rfl, rfl⟩
    -- it had been visited before the hop, or came up in it
    rw [h.found, List.mem_append, List.mem_singleton]
    refine and_congr_right fun hnew => (or_iff_left_of_imp ?_).symm
    rintro rfl
    rcases (h.visited _).mp hvisited with hold | hfound
    · exact absurd hold hnew
    · exact ((h.found _).mp hfound).2
  · obtain ⟨entity, hentity, hid⟩ := neighborEntity_total full hstored
    rw [if_neg hvisited, hentity]
    have hnew := mt (h.visited n.entity.1).mpr hvisited
    rw [not_or] at hnew
    refine ⟨_, rfl, ⟨fun v => ?_, fun v => ?_, ?_, ?_⟩, rfl, rfl⟩
    · simp only [List.mem_cons, List.mem_append, List.not_mem_nil, or_false, h.visited v]
      tauto
    · simp only [List.mem_append, List.mem_cons, List.not_mem_nil, or_false, h.found v]
      refine ⟨?_, by tauto⟩
      rintro (hv | rfl)
      · exact ⟨hv.1, Or.inl hv.2⟩
      · exact ⟨hnew.1, Or.inr rfl⟩
    · refine List.nodup_append.mpr ⟨h.nodup, List.nodup_singleton _, ?_⟩
      rintro v hv w hw rfl
      exact hnew.2 (List.mem_singleton.mp hw ▸ hv)
    · obtain ⟨fresh, hout, hids, hhop⟩ := h.reported
      refine ⟨fresh ++ [_], by rw [hout, List.append_assoc], ?_, ?_⟩
      · rw [List.map_append, hids, List.map_singleton, hid]
      · intro r hr
        rcases List.mem_append.mp hr with hr | hr
        · exact hhop r hr
        · rw [List.mem_singleton.mp hr]

theorem Underway.visits (h : Underway hop s₀ seen s) {ns : List Neighbor}
    (hstored : ∀ n ∈ ns, g.row n.entity.1 = some n.entity.2) :
    ∃ s', ns.foldlM (visitNeighbor g full hop) s = .ok s' ∧
      Underway hop s₀ (seen ++ ns.map (·.entity.1)) s' ∧
      s'.truncated = s.truncated ∧ s'.expanded = s.expanded := by
  induction ns generalizing s seen with
  | nil => exact ⟨s, rfl, by rwa [List.map_nil, List.append_nil], rfl, rfl⟩
  | cons n ns ih =>
      obtain ⟨hn, hns⟩ := List.forall_mem_cons.mp hstored
      obtain ⟨s₁, hvisit, h₁, htruncated₁, hexpanded₁⟩ := h.visit full hn
      obtain ⟨s₂, hvisits, h₂, htruncated₂, hexpanded₂⟩ := ih h₁ hns
      refine ⟨s₂, ?_, ?_, htruncated₂.trans htruncated₁, hexpanded₂.trans hexpanded₁⟩
      · rw [List.foldlM_cons, hvisit]
        exact hvisits
      · rwa [List.map_cons, List.append_cons]

/-- What a hop asks for the neighbours of an entity. -/
def asked (order : RowOrder) (g : RelationGraph) (limit : Nat) (id : Uuid) : List Neighbor :=
  picked order g (clampLimit (limit + 1)) id

/-- The neighbours of an entity that a hop takes. -/
def taken (order : RowOrder) (g : RelationGraph) (limit : Nat) (id : Uuid) : List Uuid :=
  ((asked order g limit id).take limit).map (·.entity.1)

/-- Step: one entity of the frontier. -/
theorem Underway.expand (order : RowOrder) (g : RelationGraph) (full : Bool) (limit : Nat)
    (h : Underway hop s₀ seen s) {frontier : List Uuid} {u : Uuid} (hu : u ∈ frontier) :
    ∃ s', expandNode g full limit (neighborsBatch order g frontier (limit + 1)) hop s u = .ok s' ∧
      Underway hop s₀ (seen ++ taken order g limit u) s' ∧
      s'.truncated = (s.truncated || decide (limit < (asked order g limit u).length)) ∧
      s'.expanded = s.expanded ++ [u] := by
  rw [expandNode, get?_neighborsBatch _ hu, ← asked]
  by_cases hnil : asked order g limit u = []
  · rw [if_pos hnil]
    refine ⟨_, rfl, ?_, ?_, rfl⟩
    · rw [taken, hnil, List.take_nil, List.map_nil, List.append_nil]
      exact ⟨h.visited, h.found, h.nodup, h.reported⟩
    · rw [hnil]
      simp
  · rw [if_neg hnil]
    have hstart : Underway hop s₀ seen
        { s with
          truncated := s.truncated || decide (limit < (asked order g limit u).length)
          expanded := s.expanded ++ [u] } :=
      ⟨h.visited, h.found, h.nodup, h.reported⟩
    exact hstart.visits fun n hn => stored_of_mem_picked (List.mem_of_mem_take hn)

/-- A hop expands its frontier. -/
theorem Underway.expands (order : RowOrder) (g : RelationGraph) (full : Bool) (limit : Nat)
    (h : Underway hop s₀ seen s) {frontier us : List Uuid} (hus : ∀ u ∈ us, u ∈ frontier) :
    ∃ s', us.foldlM (expandNode g full limit (neighborsBatch order g frontier (limit + 1)) hop) s =
        .ok s' ∧
      Underway hop s₀ (seen ++ us.flatMap (taken order g limit)) s' ∧
      s'.truncated =
        (s.truncated || us.any fun u => decide (limit < (asked order g limit u).length)) ∧
      s'.expanded = s.expanded ++ us := by
  induction us generalizing s seen with
  | nil => exact ⟨s, rfl, by rwa [List.flatMap_nil, List.append_nil], by simp, by simp⟩
  | cons u us ih =>
      obtain ⟨hu, hrest⟩ := List.forall_mem_cons.mp hus
      obtain ⟨s₁, hexpand, h₁, htruncated₁, hexpanded₁⟩ :=
        h.expand order g full limit hu
      obtain ⟨s₂, hexpands, h₂, htruncated₂, hexpanded₂⟩ := ih h₁ hrest
      refine ⟨s₂, ?_, ?_, ?_, ?_⟩
      · rw [List.foldlM_cons, hexpand]
        exact hexpands
      · rwa [List.flatMap_cons, ← List.append_assoc]
      · rw [htruncated₂, htruncated₁, List.any_cons, Bool.or_assoc]
      · rw [hexpanded₂, hexpanded₁, ← List.append_cons]

end Hop

/-! ## The search -/

section Search

variable {order : RowOrder} {g : RelationGraph} {limit : Nat} {root : Uuid} {n : Nat}
  {s s' : RecallState}

/-- Everything within `n` hops has been reported, at its distance. -/
structure Exact (g : RelationGraph) (root : Uuid) (n : Nat) (s : RecallState) : Prop where
  searched : Searched g.graph root n s.visited s.frontier
  expanded : ∀ u, u ∈ s.expanded ↔ g.graph.edist root u < n
  nodup : (s.relationsOut.map (·.neighbor.1)).Nodup
  reported : ∀ id k, (∃ r ∈ s.relationsOut, r.neighbor.1 = id ∧ r.hopDistance = k) ↔
    1 ≤ k ∧ k ≤ n ∧ g.graph.edist root id = k

/-- The state after `n` hops. It is exact unless an expanded entity has more ends than the
limit. -/
structure Search (order : RowOrder) (g : RelationGraph) (limit : Nat) (root : Uuid) (n : Nat)
    (s : RecallState) : Prop where
  near : ∀ v ∈ s.frontier, g.graph.edist root v ≤ n
  expandedNear : ∀ u ∈ s.expanded, g.graph.edist root u < n
  truncated : s.truncated = true ↔ ∃ u ∈ s.expanded, limit < (asked order g limit u).length
  exact : (∀ u ∈ s.expanded, g.activeEnds u ≤ limit) → Exact g root n s

theorem Search.start : Search order g limit root 0 (.start root) where
  near := by
    intro v hv
    rw [List.mem_singleton.mp hv, SimpleGraph.edist_self, Nat.cast_zero]
  expandedNear := fun u hu => by cases hu
  truncated := by simp [RecallState.start]
  exact := fun _ =>
    { searched := .start
      expanded := fun u => by simp [RecallState.start]
      nodup := List.nodup_nil
      reported := by
        intro id k
        refine iff_of_false (fun ⟨r, hr, _⟩ => (by cases hr)) ?_
        rintro ⟨hpos, hzero, -⟩
        omega }

theorem graph_adj_iff {u v : Uuid} :
    g.graph.Adj u v ↔ u ≠ v ∧ (g.Linked u v ∨ g.Linked v u) :=
  SimpleGraph.fromRel_adj _ _ _

/-- What is taken at a hop is at most one hop further away. -/
theorem edist_le_of_taken {u v : Uuid} (hu : g.graph.edist root u ≤ n)
    (hv : v ∈ taken order g limit u) : g.graph.edist root v ≤ (n + 1 : ℕ) := by
  obtain ⟨neighbor, hneighbor, rfl⟩ := List.mem_map.mp hv
  have hlinked := linked_of_mem_picked (List.mem_of_mem_take hneighbor)
  by_cases hself : u = neighbor.entity.1
  -- a relation of an entity to itself
  · rw [← hself]
    exact hu.trans (Nat.cast_le.mpr n.le_succ)
  · exact edist_le_of_adj hu (graph_adj_iff.mpr ⟨hself, hlinked⟩)

/-- Within the limit all neighbours are taken. -/
theorem mem_taken_iff {u v : Uuid} (hlimit : g.activeEnds u ≤ limit)
    (hasked : g.activeEnds u ≤ clampLimit (limit + 1)) :
    v ∈ taken order g limit u ↔ g.Linked u v ∨ g.Linked v u := by
  have hall : (asked order g limit u).take limit = asked order g limit u := by
    rw [List.take_of_length_le]
    rw [asked, length_picked]
    omega
  rw [← mem_picked_iff hasked, taken, hall, List.mem_map]
  rfl

/-- What the hop finds for the first time is what is one hop further away. -/
theorem Exact.searched_hop (h : Exact g root n s) (hasked : limit ≤ clampLimit (limit + 1))
    (hs' : Underway (n + 1) { s with nextFrontier := [] }
      (s.frontier.flatMap (taken order g limit)) s')
    (hends : ∀ u ∈ s.frontier, g.activeEnds u ≤ limit) :
    Searched g.graph root (n + 1) s'.visited s'.nextFrontier := by
  refine h.searched.next (fun v => ?_) hs'.visited
  rw [hs'.found, List.mem_flatMap]
  refine and_congr_right fun hnew => exists_congr fun u => and_congr_right fun hu => ?_
  rw [mem_taken_iff (hends u hu) ((hends u hu).trans hasked), graph_adj_iff]
  -- the frontier has been visited, so what is new is something else
  refine (and_iff_right ?_).symm
  rintro rfl
  exact hnew ((h.searched.visited u).mpr ((h.searched.frontier u).mp hu).le)

/-- A hop from an exact state whose frontier is within the limit. -/
theorem Exact.hop (h : Exact g root n s) (hasked : limit ≤ clampLimit (limit + 1))
    (hs' : Underway (n + 1) { s with nextFrontier := [] }
      (s.frontier.flatMap (taken order g limit)) s')
    (hexpanded : s'.expanded = s.expanded ++ s.frontier)
    (hends : ∀ u ∈ s.frontier, g.activeEnds u ≤ limit) :
    Exact g root (n + 1) { s' with frontier := s'.nextFrontier } := by
  have hsearched := h.searched_hop hasked hs' hends
  obtain ⟨fresh, hout, hids, hhop⟩ := hs'.reported
  have hfresh : ∀ r ∈ fresh, g.graph.edist root r.neighbor.1 = (n + 1 : ℕ) := by
    intro r hr
    rw [← hsearched.frontier, ← hids]
    exact List.mem_map_of_mem hr
  constructor
  · exact hsearched
  · intro u
    change u ∈ s'.expanded ↔ _
    rw [hexpanded, List.mem_append, h.expanded, h.searched.frontier, ← le_iff_lt_or_eq,
      Nat.cast_add, Nat.cast_one, ENat.lt_natCast_add_one_iff]
  · change (s'.relationsOut.map _).Nodup
    rw [hout, List.map_append, hids]
    refine List.nodup_append.mpr ⟨h.nodup, hs'.nodup, ?_⟩
    rintro id hold _ hnew rfl
    obtain ⟨r, hr, rfl⟩ := List.mem_map.mp hold
    obtain ⟨-, hle, hdist⟩ := (h.reported _ _).mp ⟨r, hr, rfl, rfl⟩
    rw [hsearched.frontier, hdist, Nat.cast_inj] at hnew
    omega
  · intro id k
    change (∃ r ∈ s'.relationsOut, _) ↔ _
    rw [hout]
    constructor
    · rintro ⟨r, hr, rfl, rfl⟩
      rcases List.mem_append.mp hr with hr | hr
      · obtain ⟨hpos, hle, hdist⟩ := (h.reported _ _).mp ⟨r, hr, rfl, rfl⟩
        exact ⟨hpos, by omega, hdist⟩
      · rw [hhop r hr]
        exact ⟨by omega, le_rfl, hfresh r hr⟩
    · rintro ⟨hpos, hle, hdist⟩
      rcases Nat.le_succ_iff.mp hle with hle | rfl
      · obtain ⟨r, hr, hfacts⟩ := (h.reported id k).mpr ⟨hpos, hle, hdist⟩
        exact ⟨r, List.mem_append_left _ hr, hfacts⟩
      · have hid : id ∈ fresh.map (·.neighbor.1) := by
          rw [hids, hsearched.frontier, hdist]
        obtain ⟨r, hr, rfl⟩ := List.mem_map.mp hid
        exact ⟨r, List.mem_append_right _ hr, rfl, hhop r hr⟩

/-- Step: one more hop. -/
theorem Search.hop (full : Bool) (h : Search order g limit root n s)
    (hasked : limit ≤ clampLimit (limit + 1)) :
    ∃ s', recallHop order g full limit (n + 1) s = .ok s' ∧
      Search order g limit root (n + 1) { s' with frontier := s'.nextFrontier } := by
  have hstart : Underway (n + 1) { s with nextFrontier := [] } [] { s with nextFrontier := [] } :=
    { visited := fun v => by simp
      found := fun v => by simp
      nodup := List.nodup_nil
      reported := ⟨[], by simp⟩ }
  obtain ⟨s', hrun, hs', htruncated, hexpanded⟩ :=
    hstart.expands order g full limit fun u (hu : u ∈ s.frontier) => hu
  rw [List.nil_append] at hs'
  refine ⟨s', hrun, ?_, ?_, ?_, ?_⟩
  · intro v hv
    obtain ⟨-, hv⟩ := (hs'.found v).mp hv
    obtain ⟨u, hu, hv⟩ := List.mem_flatMap.mp hv
    exact edist_le_of_taken (h.near u hu) hv
  · intro u (hu : u ∈ s'.expanded)
    rw [Nat.cast_add, Nat.cast_one, ENat.lt_natCast_add_one_iff]
    rw [hexpanded] at hu
    rcases List.mem_append.mp hu with hu | hu
    · exact (h.expandedNear u hu).le
    · exact h.near u hu
  · change s'.truncated = true ↔ ∃ u ∈ s'.expanded, _
    rw [htruncated, hexpanded, Bool.or_eq_true, List.any_eq_true]
    simp only [h.truncated, List.mem_append, decide_eq_true_eq]
    constructor
    · rintro (⟨u, hu, hmore⟩ | ⟨u, hu, hmore⟩)
      · exact ⟨u, Or.inl hu, hmore⟩
      · exact ⟨u, Or.inr hu, hmore⟩
    · rintro ⟨u, hu | hu, hmore⟩
      · exact Or.inl ⟨u, hu, hmore⟩
      · exact Or.inr ⟨u, hu, hmore⟩
  · intro hends
    change ∀ u ∈ s'.expanded, _ at hends
    rw [hexpanded] at hends
    obtain ⟨hbefore, hfrontier⟩ := List.forall_mem_append.mp hends
    exact (h.exact hbefore).hop hasked hs' hexpanded hfrontier

/-- Where nothing is left to expand the search has been through all further hops. -/
theorem Search.later (h : Search order g limit root n s) (hempty : s.frontier = []) {m : Nat}
    (hm : n ≤ m) : Search order g limit root m s where
  near := fun v hv => by
    rw [hempty] at hv
    cases hv
  expandedNear := fun u hu => (h.expandedNear u hu).trans_le (Nat.cast_le.mpr hm)
  truncated := h.truncated
  exact := by
    intro hends
    have hexact := h.exact hends
    have hsearched := hexact.searched
    rw [hempty] at hsearched
    refine ⟨?_, fun u => ?_, hexact.nodup, fun id k => ?_⟩
    · rw [hempty]
      exact hsearched.later hm
    · rw [hexact.expanded]
      exact ⟨fun hu => hu.trans_le (Nat.cast_le.mpr hm), hsearched.lt_of_exhausted⟩
    · rw [hexact.reported]
      refine and_congr_right fun _ => ⟨fun ⟨hle, hdist⟩ => ⟨hle.trans hm, hdist⟩, ?_⟩
      rintro ⟨-, hdist⟩
      by_contra hlt
      push Not at hlt
      by_cases hle : k ≤ n
      · exact hlt hle hdist
      · exact hsearched.exhausted (by omega) id hdist

/-- All hops. -/
theorem Search.hops (full : Bool) (hasked : limit ≤ clampLimit (limit + 1)) {remaining : Nat}
    (h : Search order g limit root n s) :
    ∃ s' frontier, recallHops order g full limit remaining (n + 1) s = .ok s' ∧
      Search order g limit root (n + remaining) { s' with frontier := frontier } := by
  induction remaining generalizing n s with
  | zero => exact ⟨s, s.frontier, rfl, h⟩
  | succ remaining ih =>
      obtain ⟨s', hhop, hsearch⟩ := h.hop full hasked
      rw [recallHops, hhop]
      change ∃ t frontier, (if s'.nextFrontier.isEmpty = true then Except.ok s' else _) = _ ∧ _
      by_cases hempty : s'.nextFrontier.isEmpty = true
      · have hle : n + 1 ≤ n + (remaining + 1) := by omega
        exact ⟨s', s'.nextFrontier, if_pos hempty,
          hsearch.later (List.isEmpty_iff.mp hempty) hle⟩
      · rw [if_neg hempty]
        obtain ⟨t, frontier, hrun, ht⟩ := ih hsearch
        refine ⟨t, frontier, hrun, ?_⟩
        rwa [Nat.add_comm remaining 1, ← Nat.add_assoc]

end Search

/-! ## What is returned -/

theorem clampLimit_bounds (limit : Int) : 1 ≤ clampLimit limit ∧ clampLimit limit ≤ 200 := by
  unfold clampLimit minNeighborsLimit maxNeighborsLimit
  omega

/-- Asking for one more stays within the limits of the batch, but at the largest it is not one
more. -/
theorem clampLimit_succ (limit : Int) :
    clampLimit (clampLimit limit + 1) = min (clampLimit limit + 1) 200 := by
  unfold clampLimit minNeighborsLimit maxNeighborsLimit
  omega

section Returned

variable {order : RowOrder} {g : RelationGraph} {root : Uuid} {query : RecallQuery}

/-- The call on an entity that is there succeeds, with what its search has found. -/
theorem recallContext_total (order : RowOrder) (query : RecallQuery) {entity : EntityRow}
    (hroot : get g.workspace.store root = .ok entity) :
    ∃ s frontier, recallSearch order g root query = .ok s ∧
      Search order g (clampLimit query.limit) root (clampDepth query.depth)
        { s with frontier := frontier } ∧
      recallContext order g root query = .ok
        { entity := (root, entity), relations := s.relationsOut, truncated := s.truncated } := by
  have hasked : clampLimit query.limit ≤ clampLimit (clampLimit query.limit + 1) := by
    have hbounds := clampLimit_bounds query.limit
    rw [clampLimit_succ]
    omega
  have hstart : Search order g (clampLimit query.limit) root 0 (.start root) := .start
  obtain ⟨s, frontier, hrun, hsearch⟩ := hstart.hops query.full hasked
  rw [Nat.zero_add] at hsearch
  refine ⟨s, frontier, hrun, hsearch, ?_⟩
  rw [recallContext, hroot]
  change (recallSearch order g root query >>= _) = _
  rw [recallSearch, hrun]
  rfl

theorem expands_iff {s : RecallState} (hsearch : recallSearch order g root query = .ok s)
    {id : Uuid} : Expands order g root query id ↔ id ∈ s.expanded := by
  constructor
  · rintro ⟨t, ht, hid⟩
    cases hsearch.symm.trans ht
    exact hid
  · exact fun hid => ⟨s, hsearch, hid⟩

/-- **Recall is breadth-first and exact.** Where no expanded entity has more active relation ends
than the limit, what is returned are the entities within the depth, each once and at its
distance. -/
theorem recall_exact {entity : EntityRow} (hroot : get g.workspace.store root = .ok entity)
    (hends : ∀ id, Expands order g root query id → g.activeEnds id ≤ clampLimit query.limit) :
    ∃ context, recallContext order g root query = .ok context ∧ context.truncated = false ∧
      (context.relations.map (·.neighbor.1)).Nodup ∧
      (∀ id k, (∃ r ∈ context.relations, r.neighbor.1 = id ∧ r.hopDistance = k) ↔
        1 ≤ k ∧ k ≤ clampDepth query.depth ∧ g.graph.edist root id = k) ∧
      ∀ r ∈ context.relations, r.neighbor.1 ≠ root := by
  obtain ⟨s, frontier, hrun, hsearch, hcontext⟩ := recallContext_total order query hroot
  have hends : ∀ u ∈ s.expanded, g.activeEnds u ≤ clampLimit query.limit := fun u hu =>
    hends u ((expands_iff hrun).mpr hu)
  have hexact := hsearch.exact hends
  refine ⟨_, hcontext, ?_, hexact.nodup, hexact.reported, ?_⟩
  · rw [Bool.eq_false_iff]
    intro htruncated
    obtain ⟨u, hu, hmore⟩ := hsearch.truncated.mp htruncated
    have hle := hends u hu
    rw [asked, length_picked] at hmore
    omega
  · intro r hr heq
    obtain ⟨hpos, -, hdist⟩ := (hexact.reported _ _).mp ⟨r, hr, rfl, rfl⟩
    rw [heq, SimpleGraph.edist_self, ← Nat.cast_zero, Nat.cast_inj] at hdist
    omega

/-- `truncated` says whether an expanded entity has more active relation ends than the limit. -/
def ReportsTruncation (order : RowOrder) (g : RelationGraph) (root : Uuid) (query : RecallQuery)
    (context : RecallContext) : Prop :=
  context.truncated = true ↔
    ∃ id, Expands order g root query id ∧ clampLimit query.limit < g.activeEnds id

/-- Below the largest limit a neighbour too many is noticed, at the largest limit never. -/
theorem truncated_iff {s : RecallState} {frontier : List Uuid}
    (hsearch : Search order g (clampLimit query.limit) root (clampDepth query.depth)
      { s with frontier := frontier }) :
    s.truncated = true ↔ clampLimit query.limit < 200 ∧
      ∃ u ∈ s.expanded, clampLimit query.limit < g.activeEnds u := by
  have hbounds := clampLimit_bounds query.limit
  rw [hsearch.truncated, ← exists_and_left]
  refine exists_congr fun u => ?_
  rw [asked, length_picked, clampLimit_succ]
  constructor
  · rintro ⟨hu, hmore⟩
    refine ⟨by omega, hu, by omega⟩
  · rintro ⟨hsmall, hu, hmore⟩
    refine ⟨hu, by omega⟩

/-- Every entity that is expanded is nearer than the depth, and if none has more ends than the limit
all that are nearer are expanded. -/
theorem exists_expanded_iff {s : RecallState} {frontier : List Uuid}
    (hsearch : Search order g (clampLimit query.limit) root (clampDepth query.depth)
      { s with frontier := frontier }) :
    (∃ u ∈ s.expanded, clampLimit query.limit < g.activeEnds u) ↔
      ∃ u, g.graph.edist root u < clampDepth query.depth ∧
        clampLimit query.limit < g.activeEnds u := by
  constructor
  · rintro ⟨u, hu, hmore⟩
    exact ⟨u, hsearch.expandedNear u hu, hmore⟩
  · rintro ⟨u, hnear, hmore⟩
    by_contra hnone
    push Not at hnone
    have hu := ((hsearch.exact hnone).expanded u).mpr hnear
    exact absurd (hnone u hu) (not_le.mpr hmore)

theorem reportsTruncation_iff {s : RecallState} {frontier : List Uuid} {context : RecallContext}
    (hrun : recallSearch order g root query = .ok s)
    (hsearch : Search order g (clampLimit query.limit) root (clampDepth query.depth)
      { s with frontier := frontier })
    (hcontext : context.truncated = s.truncated) :
    ReportsTruncation order g root query context ↔
      clampLimit query.limit < maxNeighborsLimit ∨
        ∀ id, g.graph.edist root id < clampDepth query.depth →
          (g.activeEnds id : Int) ≤ maxNeighborsLimit := by
  have hbounds := clampLimit_bounds query.limit
  have hexpanded := exists_expanded_iff hsearch
  rw [ReportsTruncation, hcontext, truncated_iff hsearch]
  simp only [expands_iff hrun]
  rw [hexpanded]
  by_cases hsmall : clampLimit query.limit < 200
  · refine iff_of_true (by simp [hsmall]) (Or.inl ?_)
    unfold maxNeighborsLimit
    omega
  · have hlargest : clampLimit query.limit = 200 := by omega
    simp only [hlargest, lt_irrefl, false_and, false_iff, not_exists, not_and, not_lt,
      maxNeighborsLimit]
    norm_cast
    simp

/-- **When truncation is reported.** Always below the largest limit, and at the largest one exactly
when nothing is left out. -/
theorem recall_reports_iff {entity : EntityRow} (hroot : get g.workspace.store root = .ok entity) :
    ∃ context, recallContext order g root query = .ok context ∧
      (ReportsTruncation order g root query context ↔
        clampLimit query.limit < maxNeighborsLimit ∨
          ∀ id, g.graph.edist root id < clampDepth query.depth →
            (g.activeEnds id : Int) ≤ maxNeighborsLimit) := by
  obtain ⟨s, frontier, hrun, hsearch, hcontext⟩ := recallContext_total order query hroot
  exact ⟨_, hcontext, reportsTruncation_iff hrun hsearch rfl⟩

end Returned

/-! ## Trees -/

/-- The order of the table among relations of the same time. -/
def newestFirst : RowOrder where
  arrange := Keyset.ordered fun row => OrderDual.toDual row.relationCreatedAt
  perm := List.perm_insertionSort _
  newestFirst := fun rows => List.pairwise_insertionSort _ rows

/-- A version without entity types. -/
def bareVersion : SchemaRecord where
  tenantId := 1
  name := "notes"
  version := 1
  definition :=
    { name := "notes"
      description := none
      entityTypes := .empty
      relationTypes := .empty }
  status := .active
  originTemplateId := none
  originStatus := .detached
  originSnapshot := none
  originUpdatedAt := none

/-- An empty note. -/
def note : EntityRow where
  schemaId := 1
  schemaVersion := 1
  entityType := "note"
  data := .object []
  updatedAt := 0
  createdBy := none
  updatedBy := none
  embeddingSyncToken := ""

/-- The relation from the parent of a note to the note. -/
def parentOf (e : Uuid × Uuid) : RelationRecord where
  sourceId := e.2
  targetId := e.1
  relationType := "parent"
  properties := .object []
  status := .active

/-- The notes of a tree: note 1, and those that have a parent. -/
def notes (parents : List (Uuid × Uuid)) : List Uuid := 1 :: parents.map Prod.fst

/-- Notes in a tree below note 1, with an active relation from each parent. -/
def tree (parents : List (Uuid × Uuid)) (hsorted : (notes parents).Pairwise (· < ·))
    (hparents : ∀ e ∈ parents, e.2 ∈ notes parents) : RelationGraph where
  workspace :=
    { store :=
        { rows := ⟨(notes parents).map fun id => (id, note), List.pairwise_map.mpr hsorted⟩
          tables :=
            { workspace := { schemaPending := false, schemaId := some 1, maxEntities := none }
              schemas := ⟨⟨[(1, bareVersion)], List.pairwise_singleton _ _⟩,
                List.pairwise_singleton _ _⟩
              snapshots := []
              proposals := .empty
              jobs := .empty } }
      relations :=
        { rows := ⟨parents.map fun e => (e.1, parentOf e),
            List.pairwise_map.mpr (List.pairwise_map.mp (List.pairwise_cons.mp hsorted).2)⟩
          unique := List.pairwise_map.mpr <|
            (List.pairwise_map.mp (List.pairwise_cons.mp hsorted).2).imp fun hlt => by
              simp [RelationRecord.clash, parentOf, ne_of_lt hlt] }
      issued := [] }
  createdAt := fun _ => 0
  closed :=
    { versions := by
        intro k row hrow
        obtain ⟨id, -, hid⟩ := List.mem_map.mp (Entries.mem_of_get? hrow)
        obtain rfl : note = row := congrArg Prod.snd hid
        exact ⟨bareVersion, rfl⟩
      ends := by
        intro l relation hrelation
        obtain ⟨e, he, hid⟩ := List.mem_map.mp (Entries.mem_of_get? hrelation)
        obtain rfl : parentOf e = relation := congrArg Prod.snd hid
        have hstored : ∀ k ∈ notes parents, ∃ row,
            Entries.get? k ((notes parents).map fun id => (id, note)) = some row := fun k hk =>
          ⟨note, Entries.get?_of_mem (List.pairwise_map.mpr hsorted) (List.mem_map_of_mem hk)⟩
        have htarget : e.1 ∈ notes parents := List.mem_cons_of_mem _ (List.mem_map_of_mem he)
        exact ⟨hstored _ (hparents e he), hstored _ htarget⟩ }

theorem tree_activeEnds_le {parents : List (Uuid × Uuid)}
    (hsorted : (notes parents).Pairwise (· < ·)) (hparents : ∀ e ∈ parents, e.2 ∈ notes parents)
    (id : Uuid) : (tree parents hsorted hparents).activeEnds id ≤ 2 * parents.length := by
  have hcount : ∀ p : Uuid × RelationRecord → Bool,
      (parents.map fun e => (e.1, parentOf e)).countP p ≤ parents.length := by
    intro p
    have hle := List.countP_le_length (p := p) (l := parents.map fun e => (e.1, parentOf e))
    rwa [List.length_map] at hle
  rw [two_mul]
  exact Nat.add_le_add
    (hcount fun e => decide (e.2.status = .active) && decide (e.2.sourceId = id))
    (hcount fun e => decide (e.2.status = .active) && decide (e.2.targetId = id))

theorem tree_adj {parents : List (Uuid × Uuid)} {hsorted : (notes parents).Pairwise (· < ·)}
    {hparents : ∀ e ∈ parents, e.2 ∈ notes parents} {e : Uuid × Uuid} (he : e ∈ parents)
    (hne : e.2 ≠ e.1) : (tree parents hsorted hparents).graph.Adj e.2 e.1 := by
  refine graph_adj_iff.mpr ⟨hne, Or.inl ⟨e.1, parentOf e, ?_, rfl, rfl, rfl⟩⟩
  exact Entries.get?_of_mem (tree parents hsorted hparents).workspace.relations.rows.sorted
    (List.mem_map_of_mem he)

/-- Five notes in a row. -/
def chain : RelationGraph :=
  tree [(2, 1), (3, 2), (4, 3), (5, 4)] (by decide) (by simp [notes])

/-- The notes around note 1. -/
def leaf (i : Fin 201) : Uuid × Uuid := (⟨i.val + 2, by omega⟩, 1)

theorem sorted_leaves : (notes (List.ofFn leaf)).Pairwise (· < ·) := by
  rw [notes, List.pairwise_cons, List.pairwise_map, List.pairwise_ofFn]
  constructor
  · intro id hid
    obtain ⟨e, he, rfl⟩ := List.mem_map.mp hid
    obtain ⟨i, rfl⟩ := List.mem_ofFn.mp he
    have hone : (1 : Uuid).val = 1 := by decide
    change (1 : Uuid).val < i.val + 2
    omega
  · intro i j hlt
    exact Fin.mk_lt_mk.mpr (by omega)

/-- 201 notes around one. -/
def star : RelationGraph :=
  tree (List.ofFn leaf) sorted_leaves fun e he => by
    obtain ⟨i, rfl⟩ := List.mem_ofFn.mp he
    exact List.mem_cons_self

theorem recall_exact_chain :
    ∃ context, recallContext newestFirst chain 1 { limit := 20, full := false, depth := 3 } =
        .ok context ∧ context.truncated = false ∧
      (context.relations.map (·.neighbor.1)).Nodup ∧
      (∀ id k, (∃ r ∈ context.relations, r.neighbor.1 = id ∧ r.hopDistance = k) ↔
        1 ≤ k ∧ k ≤ 3 ∧ chain.graph.edist 1 id = k) ∧
      ∀ r ∈ context.relations, r.neighbor.1 ≠ 1 :=
  recall_exact rfl fun id _ => (tree_activeEnds_le _ _ id).trans (by decide)

/-- At a depth of 4 the entity at distance 4 is not returned: the depth is clamped. -/
theorem not_recall_exact_deep :
    ¬((∀ id, Expands newestFirst chain 1 { limit := 20, full := false, depth := 4 } id →
        chain.activeEnds id ≤ 20) →
      ∃ context, recallContext newestFirst chain 1 { limit := 20, full := false, depth := 4 } =
          .ok context ∧ context.truncated = false ∧
        (context.relations.map (·.neighbor.1)).Nodup ∧
        (∀ id k, (∃ r ∈ context.relations, r.neighbor.1 = id ∧ r.hopDistance = k) ↔
          1 ≤ k ∧ k ≤ 4 ∧ chain.graph.edist 1 id = k) ∧
        ∀ r ∈ context.relations, r.neighbor.1 ≠ 1) := by
  intro h
  obtain ⟨context, hcontext, -, -, hexact, -⟩ := h fun id _ =>
    (tree_activeEnds_le _ _ id).trans (by decide)
  have hreported : (recallContext newestFirst chain 1
      { limit := 20, full := false, depth := 4 }).toOption.map
        (fun context => context.relations.map fun r => (r.neighbor.1, r.hopDistance)) =
          some [(2, 1), (3, 2), (4, 3)] := by
    decide
  rw [hcontext] at hreported
  have hreported : context.relations.map (fun r => (r.neighbor.1, r.hopDistance)) =
      [(2, 1), (3, 2), (4, 3)] := Option.some.inj hreported
  have hiff : ∀ (id : Uuid) (k : Nat), (id, k) ∈ [((2 : Uuid), 1), (3, 2), (4, 3)] ↔
      1 ≤ k ∧ k ≤ 4 ∧ chain.graph.edist 1 id = k := by
    intro id k
    rw [← hreported, ← hexact, List.mem_map]
    simp only [Prod.mk.injEq]
  -- note 5 is next to note 4, which is at distance 3
  have hfour := ((hiff 4 3).mp (by decide)).2.2
  have hadj : chain.graph.Adj 4 5 := tree_adj (e := (5, 4)) (by decide) (by decide)
  have hle : chain.graph.edist 1 5 ≤ (3 + 1 : ℕ) := edist_le_of_adj hfour.le hadj
  obtain ⟨k, hk⟩ := ENat.ne_top_iff_exists.mp (ne_top_of_le_ne_top (ENat.natCast_ne_top _) hle)
  rw [← hk, Nat.cast_le] at hle
  have hpos : k ≠ 0 := by
    rintro rfl
    have hself := SimpleGraph.edist_eq_zero_iff.mp hk.symm
    exact absurd hself (by decide)
  have hfive := (hiff 5 k).mpr ⟨by omega, hle, hk.symm⟩
  simp at hfive

theorem recall_reports_chain :
    ∃ context, recallContext newestFirst chain 1 { limit := 20, full := false, depth := 3 } =
        .ok context ∧
      (ReportsTruncation newestFirst chain 1 { limit := 20, full := false, depth := 3 } context ↔
        (clampLimit 20 : Int) < maxNeighborsLimit ∨
          ∀ id, chain.graph.edist 1 id < clampDepth 3 →
            (chain.activeEnds id : Int) ≤ maxNeighborsLimit) :=
  recall_reports_iff rfl

/-- At the largest limit a neighbour is left out and nothing is reported. -/
theorem not_recall_reports_largest :
    ¬∃ context, recallContext newestFirst star 1 { limit := 200, full := false, depth := 1 } =
        .ok context ∧
      ReportsTruncation newestFirst star 1 { limit := 200, full := false, depth := 1 } context := by
  rintro ⟨context, hcontext, hreports⟩
  have hroot : get star.workspace.store 1 = .ok note := rfl
  obtain ⟨s, frontier, hrun, hsearch, hcontext'⟩ := recallContext_total newestFirst
    { limit := 200, full := false, depth := 1 } hroot
  cases hcontext.symm.trans hcontext'
  rcases (reportsTruncation_iff hrun hsearch rfl).mp hreports with hsmall | hall
  · exact absurd hsmall (by decide)
  · have hends : star.activeEnds 1 = 201 := by
      set_option maxRecDepth 4096 in
      decide
    have hle := hall 1 (by rw [SimpleGraph.edist_self]; decide)
    rw [hends] at hle
    exact absurd hle (by decide)

end Yorishiro.Recall
