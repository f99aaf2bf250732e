import Yorishiro.Lib.Ranking
import Yorishiro.Recall.Neighbors

/-!
# Neighbours on both databases

`neighbor_rows` finds the neighbours of a whole level of entities in one query, at most `limit` of
each. PostgreSQL runs a limited query for every entity, joined laterally; SQLite has no lateral
joins, so there the rows of all entities are numbered entity by entity. Neither orders relations of
the same age, so `NeighborRows` relates the graph to every list of rows that a database may return.

`neighborsBatch_iff_alone`: what one call finds for many entities, on either database, is what
calls for these entities one at a time find, on either database.
-/

set_option autoImplicit false

namespace Yorishiro.Recall

open Yorishiro.Lib Yorishiro.Lib.Ranking Yorishiro.Entity

/-! ## The queries -/

/-- `relation_created_at DESC`. -/
def latestFirst (a b : BatchNeighborRow) : Prop := b.relationCreatedAt ≤ a.relationCreatedAt

/-- A branch of the union on SQLite: the active relations with some pivot at one end. -/
def branchIn (g : RelationGraph) (pivot neighbor : RelationRecord → Uuid) (direction : String)
    (pivotIds : List Uuid) : List BatchNeighborRow :=
  g.workspace.relations.rows.entries.filterMap fun e =>
    if pivot e.2 ∈ pivotIds ∧ e.2.status = .active then
      (g.row (neighbor e.2)).map fun row =>
        { pivotId := pivot e.2
          relationId := e.1
          relationType := e.2.relationType
          direction := direction
          properties := e.2.properties
          relationCreatedAt := g.createdAt e.1
          entity := (neighbor e.2, row) }
    else none

/-- `UNION ALL` of both directions, for all pivots. -/
def neighborsIn (g : RelationGraph) (pivotIds : List Uuid) : List BatchNeighborRow :=
  branchIn g RelationRecord.sourceId RelationRecord.targetId "out" pivotIds ++
    branchIn g RelationRecord.targetId RelationRecord.sourceId "in" pivotIds

/-- The rows that `neighbor_rows` may return. -/
def NeighborRows (backend : Backend) (g : RelationGraph) (pivotIds : List Uuid) (limit : Nat)
    (rows : List BatchNeighborRow) : Prop :=
  match backend with
  | .postgres =>
      ∃ joined, Lateral (fun pivotId => Limited latestFirst limit (neighborsOf g pivotId)) pivotIds
          joined ∧
        Ordered (byKey BatchNeighborRow.pivotId latestFirst) joined rows
  | .sqlite =>
      ∃ ranked, Numbered BatchNeighborRow.pivotId latestFirst (neighborsIn g pivotIds) ranked ∧
        Ordered (byKey BatchNeighborRow.pivotId latestFirst) (withinPosition limit ranked) rows

/-- The map from pivots to their neighbours that `neighbors_batch` builds from the rows. -/
def byPivot (rows : List BatchNeighborRow) : OrderedMap Uuid (List Neighbor) :=
  let groups : OrderedMap Uuid (List BatchNeighborRow) :=
    rows.foldl (fun m row => m.insert row.pivotId ((m.get? row.pivotId).getD [] ++ [row])) .empty
  groups.mapValues fun _ rows => rows.map BatchNeighborRow.toNeighbor

/-- What `neighbors_batch` may return. Its pivots come out of a set, each once and in any order. -/
def NeighborsBatch (backend : Backend) (g : RelationGraph) (pivotIds : List Uuid) (limit : Int)
    (result : OrderedMap Uuid (List Neighbor)) : Prop :=
  ∃ ids : List Uuid, ids.Nodup ∧ (∀ id, id ∈ ids ↔ id ∈ pivotIds) ∧
    if ids = [] then result = .empty
    else ∃ rows, NeighborRows backend g ids (clampLimit limit) rows ∧ result = byPivot rows

/-! ## Rows of one pivot -/

section Rows

variable {g : RelationGraph} {pivot neighbor : RelationRecord → Uuid} {direction : String}
  {ids : List Uuid} {id : Uuid}

theorem group_branchIn (hid : id ∈ ids) :
    group BatchNeighborRow.pivotId id (branchIn g pivot neighbor direction ids) =
      branch g pivot neighbor direction id := by
  rw [group, branchIn, branch, List.filter_filterMap]
  refine List.filterMap_congr fun e _ => ?_
  by_cases hpivot : pivot e.2 = id
  · subst hpivot
    by_cases hactive : e.2.status = .active
    · rw [if_pos ⟨hid, hactive⟩, if_pos ⟨hactive, rfl⟩]
      cases g.row (neighbor e.2) <;> simp
    · rw [if_neg fun h => hactive h.2, if_neg fun h => hactive h.1]
      rfl
  · rw [if_neg fun h : _ ∧ _ => hpivot h.2]
    split_ifs with h
    · cases g.row (neighbor e.2) <;> simp [hpivot]
    · rfl

theorem pivotId_mem_of_mem_branchIn {row : BatchNeighborRow}
    (hrow : row ∈ branchIn g pivot neighbor direction ids) : row.pivotId ∈ ids := by
  obtain ⟨e, -, he⟩ := List.mem_filterMap.mp hrow
  split_ifs at he with h
  obtain ⟨stored, -, rfl⟩ := Option.map_eq_some_iff.mp he
  exact h.1

/-- The rows of all pivots are the rows of each. -/
theorem neighborsIn_perm (hnodup : ids.Nodup) :
    (neighborsIn g ids).Perm (ids.flatMap (neighborsOf g)) := by
  have hpivots : ∀ row ∈ neighborsIn g ids, row.pivotId ∈ ids := by
    intro row hrow
    rcases List.mem_append.mp hrow with hrow | hrow
    · exact pivotId_mem_of_mem_branchIn hrow
    · exact pivotId_mem_of_mem_branchIn hrow
  have hgroups : ids.flatMap (fun id => group BatchNeighborRow.pivotId id (neighborsIn g ids)) =
      ids.flatMap (neighborsOf g) := by
    refine List.flatMap_congr fun id hid => ?_
    rw [neighborsIn, group, List.filter_append]
    exact congrArg₂ (· ++ ·) (group_branchIn hid) (group_branchIn hid)
  rw [← hgroups]
  exact (flatMap_group_perm hnodup hpivots).symm

theorem pivotId_of_mem_neighborsOf :
    ∀ id ∈ ids, ∀ row ∈ neighborsOf g id, row.pivotId = id := fun _ _ _ => pivotId_of_mem

/-- Both databases may return the same rows. -/
theorem neighborRows_iff_lateral (backend : Backend) (hnodup : ids.Nodup) {limit : Nat}
    {rows : List BatchNeighborRow} :
    NeighborRows backend g ids limit rows ↔
      ∃ joined, Lateral (fun pivotId => Limited latestFirst limit (neighborsOf g pivotId)) ids
          joined ∧
        Ordered (byKey BatchNeighborRow.pivotId latestFirst) joined rows := by
  cases backend with
  | postgres => exact Iff.rfl
  | sqlite =>
      have hsame : (∃ joined, Lateral (fun pivotId => Limited latestFirst limit (neighborsOf g pivotId))
            ids joined ∧ rows.Perm joined) ↔ _ :=
        lateral_iff_numbered hnodup (neighborsIn_perm hnodup) pivotId_of_mem_neighborsOf
      constructor
      · rintro ⟨ranked, hranked, hrows⟩
        obtain ⟨joined, hjoined, hperm⟩ := hsame.mpr ⟨ranked, hranked, hrows.perm⟩
        exact ⟨joined, hjoined, hperm, hrows.sorted⟩
      · rintro ⟨joined, hjoined, hrows⟩
        obtain ⟨ranked, hranked, hperm⟩ := hsame.mp ⟨joined, hjoined, hrows.perm⟩
        exact ⟨ranked, hranked, hperm, hrows.sorted⟩

end Rows

/-! ## The batch -/

section Batch

variable {g : RelationGraph} {limit : Int} {pivotIds : List Uuid} {id : Uuid}
  {result : OrderedMap Uuid (List Neighbor)}

/-- What may be found for a pivot: the newest of its neighbours, and no entry without any. -/
def Found (g : RelationGraph) (limit : Int) (id : Uuid) (found : Option (List Neighbor)) : Prop :=
  ∃ rows, Limited latestFirst (clampLimit limit) (neighborsOf g id) rows ∧
    found = if rows = [] then none else some (rows.map BatchNeighborRow.toNeighbor)

theorem get?_byPivot (rows : List BatchNeighborRow) (id : Uuid) :
    (byPivot rows).get? id =
      if group BatchNeighborRow.pivotId id rows = [] then none
      else some ((group BatchNeighborRow.pivotId id rows).map BatchNeighborRow.toNeighbor) := by
  rw [byPivot, OrderedMap.get?_mapValues, OrderedMap.get?_foldl_group]
  change Option.map _ (if group BatchNeighborRow.pivotId id rows = [] then _ else _) = _
  split_ifs
  · rfl
  · rfl

/-- A batch is found pivot by pivot, on either database. -/
theorem neighborsBatch_iff_found (backend : Backend) :
    NeighborsBatch backend g pivotIds limit result ↔
      ∀ id, if id ∈ pivotIds then Found g limit id (result.get? id) else result.get? id = none := by
  constructor
  · rintro ⟨ids, hnodup, hids, hresult⟩ id
    split_ifs at hresult with hnil
    · subst hnil hresult
      rw [if_neg fun h => nomatch (hids id).mpr h]
      rfl
    · obtain ⟨rows, hrows, rfl⟩ := hresult
      obtain ⟨joined, hjoined, hordered⟩ := (neighborRows_iff_lateral backend hnodup).mp hrows
      have hgroup := limited_group hnodup pivotId_of_mem_neighborsOf hjoined hordered id
      rw [get?_byPivot]
      by_cases hid : id ∈ ids
      · rw [if_pos hid] at hgroup
        rw [if_pos ((hids id).mp hid)]
        exact ⟨_, hgroup, rfl⟩
      · rw [if_neg hid] at hgroup
        rw [if_neg fun h => hid ((hids id).mpr h), hgroup]
        rfl
  · intro h
    refine ⟨pivotIds.dedup, List.nodup_dedup _, fun id => List.mem_dedup, ?_⟩
    have hfound : ∀ id ∈ pivotIds.dedup, Found g limit id (result.get? id) := by
      intro id hid
      have hid' := h id
      rwa [if_pos (List.mem_dedup.mp hid)] at hid'
    choose! rows hrows hget using hfound
    obtain ⟨joined, out, hjoined, hordered, hgroup⟩ :=
      exists_lateral (List.nodup_dedup pivotIds) pivotId_of_mem_neighborsOf hrows
    have hout : result = byPivot out := by
      refine OrderedMap.ext_get? fun id => ?_
      rw [get?_byPivot, hgroup]
      by_cases hid : id ∈ pivotIds.dedup
      · rw [if_pos hid]
        exact hget id hid
      · have hid' := h id
        rw [if_neg fun hmem => hid (List.mem_dedup.mpr hmem)] at hid'
        rw [hid', if_neg hid]
        rfl
    split_ifs with hnil
    · rw [hnil] at hjoined
      cases hjoined
      rw [hout, List.perm_nil.mp hordered.perm]
      rfl
    · exact ⟨out, (neighborRows_iff_lateral backend (List.nodup_dedup _)).mpr
        ⟨joined, hjoined, hordered⟩, hout⟩

/-- The neighbours of a fixed row order are among those that either database may return. -/
theorem neighborsBatch_of_order (backend : Backend) (order : RowOrder) (g : RelationGraph)
    (pivotIds : List Uuid) (limit : Int) :
    NeighborsBatch backend g pivotIds limit (neighborsBatch order g pivotIds limit) := by
  have harranged : ∀ rows, Ordered latestFirst rows (order.arrange rows) := fun rows =>
    ⟨order.perm rows, order.newestFirst rows⟩
  refine (neighborsBatch_iff_found backend).mpr fun id => ?_
  by_cases hid : id ∈ pivotIds
  · rw [if_pos hid, get?_neighborsBatch limit hid]
    refine ⟨pickedRows order g (clampLimit limit) id,
      Limited.rearrange ⟨_, harranged _, rfl⟩ (harranged _), ?_⟩
    simp only [picked, List.map_eq_nil_iff]
  · rw [if_neg hid, neighborsBatch, OrderedMap.get?_mapValues, OrderedMap.get?_foldl_group,
      filter_neighborRows (List.nodup_dedup pivotIds),
      if_neg fun hmem => hid (List.mem_dedup.mp hmem)]
    rfl

end Batch

end Yorishiro.Recall
