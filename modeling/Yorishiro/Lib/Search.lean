import Mathlib.Algebra.BigOperators.Group.List.Basic
import Mathlib.Algebra.GroupWithZero.Nat
import Mathlib.Data.List.Nodup
import Mathlib.Logic.Relation

/-!
# Searching a graph with a stack

`walk edges target` follows edges from the nodes of a stack until it meets `target` or
the stack is empty; a node already visited is skipped. Each turn of the loop takes one
node off the stack, and a node's edges are pushed once, so `searchFuel` turns are enough
on a graph with finitely many edges (`walk_isSome`), whether or not it has cycles. What it
answers is whether there is a path to `target` (`walk_eq_some_iff`).

An edge that a search did not refuse closes no cycle (`acyclic_insert_iff`).
-/

set_option autoImplicit false

namespace Yorishiro.Lib

universe u

variable {ν : Type u} [DecidableEq ν]

/-- Whether the search meets `target`; `none` when the turns run out. The top of the stack
is the head of the list, so what is pushed is reversed. -/
def walk (edges : ν → List ν) (target : ν) : Nat → List ν → List ν → Option Bool
  | 0, _, _ => none
  | _ + 1, [], _ => some false
  | n + 1, v :: pending, visited =>
      if v ∈ visited then walk edges target n pending visited
      else if v = target then some true
      else walk edges target n ((edges v).reverse ++ pending) (v :: visited)

/-- Edges of the nodes that are not visited yet. -/
def unvisitedEdges (edges : ν → List ν) (nodes visited : List ν) : Nat :=
  ((nodes.filter fun v => decide (v ∉ visited)).map fun v => (edges v).length).sum

/-- Turns that are enough for a search from one node. -/
def searchFuel (edges : ν → List ν) (nodes : List ν) : Nat :=
  unvisitedEdges edges nodes [] + 2

section Fuel

variable {edges : ν → List ν} {nodes : List ν}

/-- Visiting a node uses up its edges. -/
theorem unvisitedEdges_cons (hnodes : nodes.Nodup) {visited : List ν} {v : ν} (hv : v ∈ nodes)
    (hnew : v ∉ visited) :
    unvisitedEdges edges nodes (v :: visited) + (edges v).length =
      unvisitedEdges edges nodes visited := by
  unfold unvisitedEdges
  induction nodes with
  | nil => cases hv
  | cons w nodes ih =>
      obtain ⟨hw, hnodes⟩ := List.nodup_cons.mp hnodes
      rcases List.mem_cons.mp hv with rfl | hv
      · -- the node stands at the head, and nowhere after it
        have htail : (nodes.filter fun x => decide (x ∉ v :: visited)) =
            nodes.filter fun x => decide (x ∉ visited) := by
          apply List.filter_congr
          intro x hx
          have hne : x ≠ v := fun h => hw (h ▸ hx)
          simp [hne]
        simp only [List.filter_cons, List.mem_cons, true_or, not_true_eq_false, decide_false,
          Bool.false_eq_true, if_false, hnew, not_false_eq_true, decide_true, if_true,
          List.map_cons, List.sum_cons]
        simp only [List.mem_cons] at htail
        rw [htail]
        omega
      · have hne : w ≠ v := fun h => hw (h ▸ hv)
        have htail := ih hnodes hv
        simp only [List.filter_cons, List.mem_cons, hne, false_or]
        simp only [List.mem_cons] at htail
        split_ifs
        · simp only [List.map_cons, List.sum_cons]
          omega
        · exact htail

/-- A search with more turns than nodes on the stack and edges to push finishes. -/
theorem walk_isSome_of_lt (hnodes : nodes.Nodup) (hedges : ∀ v, v ∉ nodes → edges v = [])
    (target : ν) {n : Nat} {pending visited : List ν}
    (hn : pending.length + unvisitedEdges edges nodes visited < n) :
    (walk edges target n pending visited).isSome := by
  induction n generalizing pending visited with
  | zero => omega
  | succ n ih =>
      cases pending with
      | nil => rfl
      | cons v pending =>
          rw [List.length_cons] at hn
          unfold walk
          split_ifs with hvisited htarget
          · exact ih (by omega)
          · rfl
          · apply ih
            rw [List.length_append, List.length_reverse]
            by_cases hv : v ∈ nodes
            · have husedUp : unvisitedEdges edges nodes (v :: visited) + (edges v).length =
                  unvisitedEdges edges nodes visited := unvisitedEdges_cons hnodes hv hvisited
              omega
            · -- a node that is not listed has no edges and is not counted
              have hsame : unvisitedEdges edges nodes (v :: visited) =
                  unvisitedEdges edges nodes visited := by
                unfold unvisitedEdges
                congr 2
                apply List.filter_congr
                intro x hx
                have hne : x ≠ v := fun h => hv (h ▸ hx)
                simp [hne]
              rw [hedges v hv, hsame, List.length_nil]
              omega

/-- **A search from one node finishes**, also on a graph with cycles. -/
theorem walk_isSome (hnodes : nodes.Nodup) (hedges : ∀ v, v ∉ nodes → edges v = [])
    (target start : ν) :
    (walk edges target (searchFuel edges nodes) [start] []).isSome := by
  apply walk_isSome_of_lt hnodes hedges
  unfold searchFuel
  rw [List.length_singleton]
  omega

end Fuel

/-! ## What the search answers -/

section Paths

variable {edges : ν → List ν} {target : ν}

/-- There is a path along the edges. -/
def Reaches (edges : ν → List ν) : ν → ν → Prop := Relation.ReflTransGen fun v w => w ∈ edges v

/-- A target that is met is reached from the stack. -/
theorem reaches_of_walk {n : Nat} {pending visited : List ν}
    (h : walk edges target n pending visited = some true) :
    ∃ v ∈ pending, Reaches edges v target := by
  induction n generalizing pending visited with
  | zero => cases h
  | succ n ih =>
      cases pending with
      | nil => cases h
      | cons v pending =>
          unfold walk at h
          split_ifs at h with hvisited htarget
          · obtain ⟨w, hw, hpath⟩ := ih h
            exact ⟨w, List.mem_cons_of_mem v hw, hpath⟩
          · exact ⟨v, List.mem_cons_self, htarget ▸ Relation.ReflTransGen.refl⟩
          · obtain ⟨w, hw, hpath⟩ := ih h
            rcases List.mem_append.mp hw with hedge | hold
            · exact ⟨v, List.mem_cons_self, Relation.ReflTransGen.head (List.mem_reverse.mp hedge) hpath⟩
            · exact ⟨w, List.mem_cons_of_mem v hold, hpath⟩

/-- The edges of what was visited lead to what was visited or waits on the stack, and the
target is not among the visited. -/
structure Explored (edges : ν → List ν) (target : ν) (pending visited : List ν) : Prop where
  closed : ∀ v ∈ visited, ∀ w ∈ edges v, w ∈ visited ∨ w ∈ pending
  missed : target ∉ visited

omit [DecidableEq ν] in
/-- Once the stack is empty, nothing leads out of the visited nodes. -/
theorem Explored.not_reaches {visited : List ν} (h : Explored edges target [] visited) {v : ν}
    (hv : v ∈ visited) : ¬Reaches edges v target := by
  have hwithin : ∀ w, Reaches edges v w → w ∈ visited := by
    intro w hpath
    induction hpath with
    | refl => exact hv
    | tail _ hedge ih => exact (h.closed _ ih _ hedge).resolve_right List.not_mem_nil
  exact fun hpath => h.missed (hwithin target hpath)

/-- A search that ends without the target has visited all that can be reached. -/
theorem not_reaches_of_walk {n : Nat} {pending visited : List ν}
    (h : walk edges target n pending visited = some false)
    (hexplored : Explored edges target pending visited) :
    ∀ v, v ∈ pending ∨ v ∈ visited → ¬Reaches edges v target := by
  induction n generalizing pending visited with
  | zero => cases h
  | succ n ih =>
      cases pending with
      | nil =>
          rintro v (hv | hv)
          · cases hv
          · exact hexplored.not_reaches hv
      | cons u pending =>
          unfold walk at h
          split_ifs at h with hvisited htarget
          · -- the node was visited before, so it may leave the stack
            have hskipped : Explored edges target pending visited := by
              refine ⟨fun v hv w hw => ?_, hexplored.missed⟩
              rcases hexplored.closed v hv w hw with hold | hwait
              · exact Or.inl hold
              · rcases List.mem_cons.mp hwait with rfl | hlater
                · exact Or.inl hvisited
                · exact Or.inr hlater
            rintro v (hv | hv)
            · rcases List.mem_cons.mp hv with rfl | hlater
              · exact ih h hskipped v (Or.inr hvisited)
              · exact ih h hskipped v (Or.inl hlater)
            · exact ih h hskipped v (Or.inr hv)
          · cases h
          · have hpushed : Explored edges target ((edges u).reverse ++ pending) (u :: visited) := by
              constructor
              · intro v hv w hw
                rcases List.mem_cons.mp hv with rfl | hold
                · exact Or.inr (List.mem_append_left _ (List.mem_reverse.mpr hw))
                · rcases hexplored.closed v hold w hw with hseen | hwait
                  · exact Or.inl (List.mem_cons_of_mem u hseen)
                  · rcases List.mem_cons.mp hwait with rfl | hlater
                    · exact Or.inl List.mem_cons_self
                    · exact Or.inr (List.mem_append_right _ hlater)
              · intro hmem
                rcases List.mem_cons.mp hmem with heq | hold
                · exact htarget heq.symm
                · exact hexplored.missed hold
            rintro v (hv | hv)
            · rcases List.mem_cons.mp hv with rfl | hlater
              · exact ih h hpushed v (Or.inr List.mem_cons_self)
              · exact ih h hpushed v (Or.inl (List.mem_append_right _ hlater))
            · exact ih h hpushed v (Or.inr (List.mem_cons_of_mem u hv))

/-- **A search that ends answers whether there is a path.** -/
theorem walk_eq_some_iff {n : Nat} {start : ν} {answer : Bool}
    (h : walk edges target n [start] [] = some answer) :
    answer = true ↔ Reaches edges start target := by
  cases answer with
  | true =>
      refine iff_of_true rfl ?_
      obtain ⟨v, hv, hpath⟩ := reaches_of_walk h
      rw [← List.mem_singleton.mp hv]
      exact hpath
  | false =>
      refine iff_of_false Bool.false_ne_true ?_
      exact not_reaches_of_walk h ⟨List.forall_mem_nil _, List.not_mem_nil⟩ start
        (Or.inl List.mem_cons_self)

end Paths

/-! ## Cycles -/

section Cycles

variable {α : Type u} {r : α → α → Prop} {a b : α}

/-- No path leads back to where it began. -/
def Acyclic (r : α → α → Prop) : Prop := ∀ v, ¬Relation.TransGen r v v

/-- One more edge. -/
def withEdge (r : α → α → Prop) (a b : α) : α → α → Prop := fun v w => r v w ∨ (v = a ∧ w = b)

/-- A path with one more edge avoids it, or leads to it and on from it. -/
theorem path_withEdge {v w : α} (h : Relation.TransGen (withEdge r a b) v w) :
    Relation.TransGen r v w ∨ (Relation.ReflTransGen r v a ∧ Relation.ReflTransGen r b w) := by
  induction h with
  | single hedge =>
      rcases hedge with hold | ⟨rfl, rfl⟩
      · exact Or.inl (.single hold)
      · exact Or.inr ⟨.refl, .refl⟩
  | tail _ hedge ih =>
      rcases hedge with hold | ⟨rfl, rfl⟩
      · rcases ih with hpath | ⟨hto, hfrom⟩
        · exact Or.inl (hpath.tail hold)
        · exact Or.inr ⟨hto, hfrom.tail hold⟩
      · rcases ih with hpath | ⟨hto, -⟩
        · exact Or.inr ⟨hpath.to_reflTransGen, .refl⟩
        · exact Or.inr ⟨hto, .refl⟩

/-- **An edge closes a cycle exactly when there is a path back.** -/
theorem acyclic_insert_iff (h : Acyclic r) :
    Acyclic (withEdge r a b) ↔ ¬Relation.ReflTransGen r b a := by
  constructor
  · intro hacyclic hback
    have hforth : Relation.ReflTransGen (withEdge r a b) b a :=
      Relation.ReflTransGen.mono (fun _ _ hold => Or.inl hold) _ _ hback
    exact hacyclic a (Relation.TransGen.head' (Or.inr ⟨rfl, rfl⟩) hforth)
  · intro hnone v hcycle
    rcases path_withEdge hcycle with hold | ⟨hto, hfrom⟩
    · exact h v hold
    · exact hnone (hfrom.trans hto)

end Cycles

end Yorishiro.Lib
