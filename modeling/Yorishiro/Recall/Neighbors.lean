import Mathlib.Combinatorics.SimpleGraph.Basic
import Yorishiro.Transfer.Mirror

/-!
# Neighbours of entities

`neighbors_batch` finds, in one query for all entities of a level, the entities at the other ends
of their active relations: for each at most `limit` of them, the newest relations first. Relations
of the same age come in an order that the database chooses, a `RowOrder`.

`get?_neighborsBatch` says what is found for one entity: up to the limit as many neighbours as the
entity has active relation ends (`length_picked`), and all of them when the limit is not exceeded
(`mem_picked_iff`).
-/

set_option autoImplicit false

namespace Yorishiro.Recall

open Yorishiro.Lib Yorishiro.Entity
open Yorishiro.Queue (Instant)
open Yorishiro.Transfer (Closed)

/-! ## The graph -/

/-- A workspace whose rows refer to what is stored, as its foreign keys demand, with the column
`created_at` of its relations. -/
structure RelationGraph where
  workspace : WorkspaceState
  createdAt : Uuid → Instant
  closed : Closed workspace

namespace RelationGraph

/-- The row of an entity. -/
def row (g : RelationGraph) (id : Uuid) : Option EntityRow := g.workspace.store.rows.get? id

/-- There is an active relation from `a` to `b`. -/
def Linked (g : RelationGraph) (a b : Uuid) : Prop :=
  ∃ id relation, g.workspace.relations.get? id = some relation ∧ relation.status = .active ∧
    relation.sourceId = a ∧ relation.targetId = b

/-- The active relations without their directions, between distinct entities. -/
def graph (g : RelationGraph) : SimpleGraph Uuid := SimpleGraph.fromRel g.Linked

/-- The active relation ends of an entity, outgoing and incoming. -/
def activeEnds (g : RelationGraph) (id : Uuid) : Nat :=
  (g.workspace.relations.count fun _ relation =>
      decide (relation.status = .active) && decide (relation.sourceId = id)) +
    g.workspace.relations.count fun _ relation =>
      decide (relation.status = .active) && decide (relation.targetId = id)

end RelationGraph

/-! ## The query -/

/-- `MIN_NEIGHBORS_LIMIT`. -/
def minNeighborsLimit : Int := 1

/-- `MAX_NEIGHBORS_LIMIT`. -/
def maxNeighborsLimit : Int := 200

/-- A limit, clamped as `neighbors_batch` and `recall_context` clamp it. -/
def clampLimit (limit : Int) : Nat := (max minNeighborsLimit (min limit maxNeighborsLimit)).toNat

/-- `Neighbor`: a relation together with the entity on the other end of it. -/
structure Neighbor where
  relationId : Uuid
  relationType : String
  direction : String
  properties : Json
  entity : Uuid × EntityRow

/-- `BatchNeighborRow`, with the column that the rows are ordered by. -/
structure BatchNeighborRow extends Neighbor where
  pivotId : Uuid
  relationCreatedAt : Instant

/-- How the database puts rows in the order of `relation_created_at DESC`. Rows of the same time
may come in any order. -/
structure RowOrder where
  arrange : List BatchNeighborRow → List BatchNeighborRow
  perm : ∀ rows, (arrange rows).Perm rows
  newestFirst : ∀ rows, (arrange rows).Pairwise fun a b => b.relationCreatedAt ≤ a.relationCreatedAt

/-- The active relations with the pivot at one end, each with the entity at the other end. -/
def branch (g : RelationGraph) (pivot neighbor : RelationRecord → Uuid) (direction : String)
    (pivotId : Uuid) : List BatchNeighborRow :=
  g.workspace.relations.rows.entries.filterMap fun e =>
    if e.2.status = .active ∧ pivot e.2 = pivotId then
      (g.row (neighbor e.2)).map fun row =>
        { pivotId := pivotId
          relationId := e.1
          relationType := e.2.relationType
          direction := direction
          properties := e.2.properties
          relationCreatedAt := g.createdAt e.1
          entity := (neighbor e.2, row) }
    else none

/-- `UNION ALL` of both directions; a relation of an entity to itself is in both. -/
def neighborsOf (g : RelationGraph) (pivotId : Uuid) : List BatchNeighborRow :=
  branch g RelationRecord.sourceId RelationRecord.targetId "out" pivotId ++
    branch g RelationRecord.targetId RelationRecord.sourceId "in" pivotId

/-- The newest neighbours of a pivot; the outer `ORDER BY` arranges them once more. -/
def pickedRows (order : RowOrder) (g : RelationGraph) (limit : Nat) (pivotId : Uuid) :
    List BatchNeighborRow :=
  order.arrange ((order.arrange (neighborsOf g pivotId)).take limit)

/-- `neighbor_rows`: pivot by pivot, each with its own limit. -/
def neighborRows (order : RowOrder) (g : RelationGraph) (pivotIds : List Uuid) (limit : Nat) :
    List BatchNeighborRow :=
  (pivotIds.insertionSort (· ≤ ·)).flatMap (pickedRows order g limit)

/-- `neighbors_batch`. -/
def neighborsBatch (order : RowOrder) (g : RelationGraph) (pivotIds : List Uuid) (limit : Int) :
    OrderedMap Uuid (List Neighbor) :=
  let rows := neighborRows order g pivotIds.dedup (clampLimit limit)
  let byPivot : OrderedMap Uuid (List BatchNeighborRow) :=
    rows.foldl (fun m row => m.insert row.pivotId ((m.get? row.pivotId).getD [] ++ [row])) .empty
  byPivot.mapValues fun _ rows => rows.map BatchNeighborRow.toNeighbor

/-! ## What is found for an entity -/

section Neighbors

variable {g : RelationGraph} {pivot neighbor : RelationRecord → Uuid} {direction : String}
  {pivotId v : Uuid} {row : BatchNeighborRow}

theorem length_branch
    (hclosed : ∀ id relation, g.workspace.relations.get? id = some relation →
      (g.row (neighbor relation)).isSome = true) :
    (branch g pivot neighbor direction pivotId).length =
      g.workspace.relations.count fun _ relation =>
        decide (relation.status = .active) && decide (pivot relation = pivotId) := by
  rw [branch, List.length_filterMap_eq_countP]
  refine List.countP_congr fun e he => ?_
  have hsome := hclosed e.1 e.2 ((OrderedMap.mem_entries_iff _ _ _).mp he)
  by_cases hactive : e.2.status = .active ∧ pivot e.2 = pivotId
  · simp [hactive, hsome]
  · rw [if_neg hactive]
    simpa using hactive

theorem mem_branch_iff :
    row ∈ branch g pivot neighbor direction pivotId ↔
      ∃ id relation stored, g.workspace.relations.get? id = some relation ∧
        relation.status = .active ∧ pivot relation = pivotId ∧
        g.row (neighbor relation) = some stored ∧
        row =
          { pivotId := pivotId
            relationId := id
            relationType := relation.relationType
            direction := direction
            properties := relation.properties
            relationCreatedAt := g.createdAt id
            entity := (neighbor relation, stored) } := by
  rw [branch, List.mem_filterMap]
  constructor
  · rintro ⟨⟨id, relation⟩, hmem, hrow⟩
    split_ifs at hrow with hactive
    obtain ⟨stored, hstored, rfl⟩ := Option.map_eq_some_iff.mp hrow
    exact ⟨id, relation, stored, (OrderedMap.mem_entries_iff _ _ _).mp hmem, hactive.1, hactive.2,
      hstored, rfl⟩
  · rintro ⟨id, relation, stored, hget, hactive, hpivot, hstored, rfl⟩
    refine ⟨(id, relation), (OrderedMap.mem_entries_iff _ _ _).mpr hget, ?_⟩
    rw [if_pos ⟨hactive, hpivot⟩, hstored]
    rfl

theorem isSome_source {id : Uuid} {relation : RelationRecord}
    (h : g.workspace.relations.get? id = some relation) :
    (g.row relation.sourceId).isSome = true := by
  obtain ⟨⟨source, hsource⟩, -⟩ := g.closed.ends id relation h
  rw [RelationGraph.row, hsource, Option.isSome_some]

theorem isSome_target {id : Uuid} {relation : RelationRecord}
    (h : g.workspace.relations.get? id = some relation) :
    (g.row relation.targetId).isSome = true := by
  obtain ⟨-, target, htarget⟩ := g.closed.ends id relation h
  rw [RelationGraph.row, htarget, Option.isSome_some]

/-- There is one row for each active relation end. -/
theorem length_neighborsOf : (neighborsOf g pivotId).length = g.activeEnds pivotId := by
  rw [neighborsOf, List.length_append, length_branch fun _ _ h => isSome_target h,
    length_branch fun _ _ h => isSome_source h, RelationGraph.activeEnds]

/-- The rows lead to the entities that the pivot is linked with. -/
theorem exists_neighborsOf_iff :
    (∃ row ∈ neighborsOf g pivotId, row.entity.1 = v) ↔
      g.Linked pivotId v ∨ g.Linked v pivotId := by
  constructor
  · rintro ⟨row, hrow, rfl⟩
    rcases List.mem_append.mp hrow with hrow | hrow
    · obtain ⟨id, relation, stored, hget, hactive, hpivot, -, rfl⟩ := mem_branch_iff.mp hrow
      exact Or.inl ⟨id, relation, hget, hactive, hpivot, rfl⟩
    · obtain ⟨id, relation, stored, hget, hactive, hpivot, -, rfl⟩ := mem_branch_iff.mp hrow
      exact Or.inr ⟨id, relation, hget, hactive, rfl, hpivot⟩
  · rintro (⟨id, relation, hget, hactive, hsource, rfl⟩ |
      ⟨id, relation, hget, hactive, rfl, htarget⟩)
    · obtain ⟨stored, hstored⟩ := Option.isSome_iff_exists.mp (isSome_target hget)
      exact ⟨_, List.mem_append_left _ (mem_branch_iff.mpr
        ⟨id, relation, stored, hget, hactive, hsource, hstored, rfl⟩), rfl⟩
    · obtain ⟨stored, hstored⟩ := Option.isSome_iff_exists.mp (isSome_source hget)
      exact ⟨_, List.mem_append_right _ (mem_branch_iff.mpr
        ⟨id, relation, stored, hget, hactive, htarget, hstored, rfl⟩), rfl⟩

theorem pivotId_of_mem (hrow : row ∈ neighborsOf g pivotId) : row.pivotId = pivotId := by
  rcases List.mem_append.mp hrow with hrow | hrow
  · obtain ⟨id, relation, stored, -, -, -, -, rfl⟩ := mem_branch_iff.mp hrow
    rfl
  · obtain ⟨id, relation, stored, -, -, -, -, rfl⟩ := mem_branch_iff.mp hrow
    rfl

/-- A row has its entity as it is stored. -/
theorem stored_of_mem (hrow : row ∈ neighborsOf g pivotId) :
    g.row row.entity.1 = some row.entity.2 := by
  rcases List.mem_append.mp hrow with hrow | hrow
  · obtain ⟨id, relation, stored, -, -, -, hstored, rfl⟩ := mem_branch_iff.mp hrow
    exact hstored
  · obtain ⟨id, relation, stored, -, -, -, hstored, rfl⟩ := mem_branch_iff.mp hrow
    exact hstored

end Neighbors

/-! ## The batch -/

section Batch

variable {order : RowOrder} {g : RelationGraph} {limit : Nat} {pivotId v : Uuid}

theorem mem_of_mem_pickedRows {row : BatchNeighborRow}
    (h : row ∈ pickedRows order g limit pivotId) : row ∈ neighborsOf g pivotId :=
  (order.perm _).mem_iff.mp (List.mem_of_mem_take ((order.perm _).mem_iff.mp h))

/-- The neighbours found for an entity. -/
def picked (order : RowOrder) (g : RelationGraph) (limit : Nat) (pivotId : Uuid) : List Neighbor :=
  (pickedRows order g limit pivotId).map BatchNeighborRow.toNeighbor

/-- As many neighbours are found as there are ends, up to the limit. -/
theorem length_picked :
    (picked order g limit pivotId).length = min limit (g.activeEnds pivotId) := by
  rw [picked, List.length_map, pickedRows, (order.perm _).length_eq, List.length_take,
    (order.perm _).length_eq, length_neighborsOf]

theorem stored_of_mem_picked {n : Neighbor} (h : n ∈ picked order g limit pivotId) :
    g.row n.entity.1 = some n.entity.2 := by
  obtain ⟨row, hrow, rfl⟩ := List.mem_map.mp h
  exact stored_of_mem (mem_of_mem_pickedRows hrow)

theorem linked_of_mem_picked {n : Neighbor} (h : n ∈ picked order g limit pivotId) :
    g.Linked pivotId n.entity.1 ∨ g.Linked n.entity.1 pivotId := by
  obtain ⟨row, hrow, rfl⟩ := List.mem_map.mp h
  exact exists_neighborsOf_iff.mp ⟨row, mem_of_mem_pickedRows hrow, rfl⟩

/-- Within the limit all neighbours are found. -/
theorem mem_picked_iff (hlimit : g.activeEnds pivotId ≤ limit) :
    (∃ n ∈ picked order g limit pivotId, n.entity.1 = v) ↔
      g.Linked pivotId v ∨ g.Linked v pivotId := by
  have hall : (order.arrange (neighborsOf g pivotId)).take limit =
      order.arrange (neighborsOf g pivotId) := by
    rw [List.take_of_length_le]
    rw [(order.perm _).length_eq, length_neighborsOf]
    exact hlimit
  rw [← exists_neighborsOf_iff, picked, pickedRows, hall]
  simp only [List.mem_map, exists_exists_and_eq_and, (order.perm _).mem_iff]

theorem filter_neighborRows {pivotIds : List Uuid} (hnodup : pivotIds.Nodup) :
    ((neighborRows order g pivotIds limit).filter fun row => decide (row.pivotId = pivotId)) =
      if pivotId ∈ pivotIds then pickedRows order g limit pivotId else [] := by
  have hsorted : (pivotIds.insertionSort (· ≤ ·)).Nodup :=
    (List.perm_insertionSort _ _).nodup_iff.mpr hnodup
  have hmem : pivotId ∈ pivotIds ↔ pivotId ∈ pivotIds.insertionSort (· ≤ ·) :=
    (List.mem_insertionSort _).symm
  rw [neighborRows, if_congr hmem rfl rfl]
  generalize pivotIds.insertionSort (· ≤ ·) = ids at hsorted ⊢
  induction ids with
  | nil => rfl
  | cons id ids ih =>
      obtain ⟨hnotin, hrest⟩ := List.nodup_cons.mp hsorted
      have hpivot : ∀ row ∈ pickedRows order g limit id, row.pivotId = id := fun row hrow =>
        pivotId_of_mem (mem_of_mem_pickedRows hrow)
      rw [List.flatMap_cons, List.filter_append, ih hrest]
      by_cases hid : id = pivotId
      · subst hid
        rw [if_pos List.mem_cons_self, if_neg hnotin, List.append_nil, List.filter_eq_self]
        exact fun row hrow => decide_eq_true (hpivot row hrow)
      · have hnone : ((pickedRows order g limit id).filter fun row =>
            decide (row.pivotId = pivotId)) = [] := by
          rw [List.filter_eq_nil_iff]
          intro row hrow
          rw [hpivot row hrow]
          simpa using hid
        rw [hnone, List.nil_append]
        simp [Ne.symm hid]

/-- What the batch has for one of its pivots: an entry, unless nothing was found. -/
theorem get?_neighborsBatch {pivotIds : List Uuid} (limit : Int) (h : pivotId ∈ pivotIds) :
    (neighborsBatch order g pivotIds limit).get? pivotId =
      if picked order g (clampLimit limit) pivotId = [] then none
      else some (picked order g (clampLimit limit) pivotId) := by
  rw [neighborsBatch, OrderedMap.get?_mapValues, OrderedMap.get?_foldl_group,
    filter_neighborRows (List.nodup_dedup pivotIds), if_pos (List.mem_dedup.mpr h)]
  by_cases hnil : pickedRows order g (clampLimit limit) pivotId = []
  · simp [hnil, picked]
  · simp [hnil, picked]

end Batch

end Yorishiro.Recall
