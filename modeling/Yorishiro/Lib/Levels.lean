import Mathlib.Combinatorics.SimpleGraph.Metric

/-!
# Breadth-first search by levels

A search goes through a graph level by level: what it has visited after `n` levels is what lies
within distance `n` of its root, and its frontier is what lies at distance `n` (`Searched`). The
unvisited neighbours of the frontier are the next frontier (`Searched.next`), and an empty frontier
means that nothing lies further away (`Searched.exhausted`).
-/

set_option autoImplicit false

namespace Yorishiro.Lib.Levels

variable {V : Type} {G : SimpleGraph V} {root u v : V} {n : ℕ}

/-! ## Distances -/

/-- A neighbour is at most one step further away. -/
theorem edist_le_of_adj (hu : G.edist root u ≤ n) (hadj : G.Adj u v) :
    G.edist root v ≤ (n + 1 : ℕ) :=
  calc G.edist root v ≤ G.edist root u + G.edist u v := SimpleGraph.edist_triangle
    _ ≤ n + 1 := add_le_add hu (SimpleGraph.edist_eq_one_iff_adj.mpr hadj).le
    _ = (n + 1 : ℕ) := by push_cast; rfl

/-- What is a step further away has a neighbour at the distance before. -/
theorem exists_adj_of_edist_eq (h : G.edist root v = (n + 1 : ℕ)) :
    ∃ u, G.edist root u = n ∧ G.Adj u v := by
  obtain ⟨walk, hlength⟩ := SimpleGraph.exists_walk_of_edist_eq_coe h
  -- the last step of a shortest walk
  cases walk using SimpleGraph.Walk.concatRec with
  | Hnil => simp at hlength
  | @Hconcat _ u _ before hadj =>
      have hbefore : before.length = n := by simpa using hlength
      refine ⟨u, le_antisymm ?_ ?_, hadj⟩
      · rw [← hbefore]
        exact before.edist_le
      · by_contra hlt
        obtain ⟨m, hm⟩ := ENat.ne_top_iff_exists.mp (ne_top_of_lt (not_le.mp hlt))
        rw [← hm, not_le, Nat.cast_lt] at hlt
        have hle := edist_le_of_adj (n := m) hm.ge hadj
        rw [h, Nat.cast_le] at hle
        omega

theorem edist_eq_succ_iff :
    G.edist root v = (n + 1 : ℕ) ↔
      ¬G.edist root v ≤ n ∧ ∃ u, G.edist root u = n ∧ G.Adj u v := by
  constructor
  · intro h
    refine ⟨?_, exists_adj_of_edist_eq h⟩
    rw [h, Nat.cast_le]
    omega
  · rintro ⟨hfar, u, hu, hadj⟩
    refine le_antisymm (edist_le_of_adj hu.le hadj) ?_
    rw [Nat.cast_add, Nat.cast_one]
    exact Order.add_one_le_of_lt (not_le.mp hfar)

theorem edist_le_succ_iff :
    G.edist root v ≤ (n + 1 : ℕ) ↔ G.edist root v ≤ n ∨ G.edist root v = (n + 1 : ℕ) := by
  rw [le_iff_lt_or_eq, Nat.cast_add, Nat.cast_one, ENat.lt_natCast_add_one_iff]

/-! ## Searching -/

/-- What a search has visited, and where it goes on from, after `n` levels. -/
structure Searched (G : SimpleGraph V) (root : V) (n : ℕ) (visited frontier : List V) : Prop where
  visited : ∀ v, v ∈ visited ↔ G.edist root v ≤ n
  frontier : ∀ v, v ∈ frontier ↔ G.edist root v = n

namespace Searched

variable {visited frontier visited' found : List V}

theorem start : Searched G root 0 [root] [root] where
  visited := fun v => by
    rw [List.mem_singleton, Nat.cast_zero, nonpos_iff_eq_zero, SimpleGraph.edist_eq_zero_iff,
      eq_comm]
  frontier := fun v => by
    rw [List.mem_singleton, Nat.cast_zero, SimpleGraph.edist_eq_zero_iff, eq_comm]

/-- Step: one more level. -/
theorem next (h : Searched G root n visited frontier)
    (hfound : ∀ v, v ∈ found ↔ v ∉ visited ∧ ∃ u ∈ frontier, G.Adj u v)
    (hvisited : ∀ v, v ∈ visited' ↔ v ∈ visited ∨ v ∈ found) :
    Searched G root (n + 1) visited' found := by
  have hlevel : ∀ v, v ∈ found ↔ G.edist root v = (n + 1 : ℕ) := by
    intro v
    rw [hfound, h.visited, edist_eq_succ_iff]
    simp only [h.frontier]
  refine ⟨fun v => ?_, hlevel⟩
  rw [hvisited, hlevel, h.visited, edist_le_succ_iff]

/-- Nothing lies beyond an empty level. -/
theorem exhausted (h : Searched G root n visited []) {m : ℕ} (hm : n ≤ m) (v : V) :
    G.edist root v ≠ m := by
  induction m, hm using Nat.le_induction generalizing v with
  | base => exact fun hv => absurd ((h.frontier v).mpr hv) List.not_mem_nil
  | succ m hm ih =>
      intro hv
      obtain ⟨u, hu, -⟩ := exists_adj_of_edist_eq hv
      exact ih u hu

/-- What lies within any distance lies within the last level that was not empty. -/
theorem lt_of_exhausted (h : Searched G root n visited []) {m : ℕ} (hv : G.edist root v < m) :
    G.edist root v < n := by
  obtain ⟨k, hk⟩ := ENat.ne_top_iff_exists.mp (ne_top_of_lt hv)
  by_contra hle
  rw [← hk, not_lt, Nat.cast_le] at hle
  exact h.exhausted hle v hk.symm

/-- A search that has nowhere to go on from has been through all further levels. -/
theorem later (h : Searched G root n visited []) {m : ℕ} (hm : n ≤ m) :
    Searched G root m visited [] where
  visited := by
    intro v
    rw [h.visited]
    refine ⟨fun hv => hv.trans (Nat.cast_le.mpr hm), fun hv => ?_⟩
    have hlt : G.edist root v < (m + 1 : ℕ) := lt_of_le_of_lt hv (Nat.cast_lt.mpr m.lt_succ_self)
    exact (h.lt_of_exhausted hlt).le
  frontier := fun v => iff_of_false List.not_mem_nil (h.exhausted hm v)

end Searched

end Yorishiro.Lib.Levels
