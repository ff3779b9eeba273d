import Mathlib.Data.List.Nodup
import VariableOrder.Graph.Basic
import VariableOrder.Proofs.Ascending

/-!
# Well-formed graphs

In a well-formed graph names are distinct, every node lists existing nodes in strictly ascending
order as its dependencies, and nodes stand in the order of declaration. Then numbers and names of
nodes correspond to each other, and all views of the edges agree.
-/

set_option autoImplicit false

namespace VariableOrder

/-- Among members with distinct names, the position of a name is where the member with that name
stands. -/
theorem findIdx?_eq_some_iff_of_nodup {α : Type} {l : List α} {nameOf : α → String}
    (h : (l.map nameOf).Nodup) (name : String) (i : Nat) :
    l.findIdx? (fun a => nameOf a == name) = some i ↔ ∃ a, l[i]? = some a ∧ nameOf a = name := by
  rw [List.findIdx?_eq_some_iff_getElem]
  constructor
  · rintro ⟨hi, hname, -⟩
    exact ⟨l[i], List.getElem?_eq_getElem hi, eq_of_beq hname⟩
  · rintro ⟨a, ha, rfl⟩
    obtain ⟨hi, rfl⟩ := List.getElem?_eq_some_iff.mp ha
    refine ⟨hi, beq_self_eq_true _, ?_⟩
    intro j hj heq
    have hdistinct := List.pairwise_iff_getElem.mp (List.pairwise_map.mp h)
    exact hdistinct j i (by omega) hi hj (eq_of_beq heq)

namespace Graph

/-- Names are distinct, dependencies are existing nodes in strictly ascending order, and nodes
stand in the order of declaration. -/
structure WellFormed (g : Graph) : Prop where
  distinct : g.names.Nodup
  ascending : ∀ n ∈ g.nodes, n.dependencies.Pairwise (· < ·)
  bounded : ∀ n ∈ g.nodes, ∀ i ∈ n.dependencies, i < g.size
  declared : g.nodes.Pairwise fun a b => a.sourceOrder ≤ b.sourceOrder

/-- Whether the second node needs the first. -/
def Edge (g : Graph) (referenced dependent : Nat) : Prop :=
  referenced ∈ g.predecessorsOf dependent

variable {g : Graph}

/-- There is an edge to a node from exactly what it depends on. -/
theorem edge_iff (i j : Nat) : g.Edge i j ↔ ∃ n, g.nodes[j]? = some n ∧ i ∈ n.dependencies := by
  unfold Edge predecessorsOf
  cases g.nodes[j]? <;> simp

/-- The test for an edge between two numbers is exact. -/
theorem hasEdgeAt_iff (i j : Nat) : g.hasEdgeAt i j = true ↔ g.Edge i j := by
  simp [hasEdgeAt, Edge]

/-- The nodes that need a node are those with an edge from it. -/
theorem mem_successorsOf (i j : Nat) : j ∈ g.successorsOf i ↔ g.Edge i j := by
  rw [edge_iff]
  refine (mem_positions g.nodes (fun n => n.dependencies.contains i) j).trans ?_
  simp

/-- The nodes that need a node are listed in ascending order. -/
theorem pairwise_successorsOf (i : Nat) : (g.successorsOf i).Pairwise (· < ·) :=
  pairwise_positions g.nodes fun n => n.dependencies.contains i

/-- The name of a number is the name of the node there. -/
theorem name_eq {i : Nat} {n : Node} (hn : g.nodes[i]? = some n) : g.name i = n.name := by
  simp only [name, hn]

/-- The names of a graph are those of its numbers, in order. -/
theorem names_eq : g.names = (List.range g.size).map g.name := by
  apply List.ext_getElem
  · simp [names, size]
  · intro i h₁ h₂
    have hi : i < g.size := by simpa [names, size] using h₁
    simp only [names, List.getElem_map, List.getElem_range]
    exact (name_eq (List.getElem?_eq_getElem hi)).symm

namespace WellFormed

/-- Both ends of an edge are nodes of the graph. -/
theorem edge_lt (h : g.WellFormed) {i j : Nat} (hedge : g.Edge i j) : i < g.size ∧ j < g.size := by
  obtain ⟨n, hn, hi⟩ := (edge_iff i j).mp hedge
  refine ⟨h.bounded n (List.mem_of_getElem? hn) i hi, ?_⟩
  exact (List.getElem?_eq_some_iff.mp hn).1

/-- What a node needs is listed in strictly ascending order. -/
theorem pairwise_predecessorsOf (h : g.WellFormed) (j : Nat) :
    (g.predecessorsOf j).Pairwise (· < ·) := by
  unfold predecessorsOf
  cases hn : g.nodes[j]? with
  | none => exact List.Pairwise.nil
  | some n => exact h.ascending n (List.mem_of_getElem? hn)

/-- Nodes of one name are one node. -/
theorem name_inj (h : g.WellFormed) {i j : Nat} (hi : i < g.size) (hj : j < g.size)
    (hname : g.name i = g.name j) : i = j := by
  have hnodup := h.distinct
  rw [names_eq] at hnodup
  exact List.inj_on_of_nodup_map hnodup (List.mem_range.mpr hi) (List.mem_range.mpr hj) hname

/-- The number of a name is the number of the node with that name. -/
theorem index?_eq_some_iff (h : g.WellFormed) (name : String) (i : Nat) :
    g.index? name = some i ↔ i < g.size ∧ g.name i = name := by
  unfold index?
  rw [findIdx?_eq_some_iff_of_nodup h.distinct]
  constructor
  · rintro ⟨n, hn, rfl⟩
    exact ⟨(List.getElem?_eq_some_iff.mp hn).1, name_eq hn⟩
  · rintro ⟨hi, rfl⟩
    have hn := List.getElem?_eq_getElem hi
    exact ⟨_, hn, (name_eq hn).symm⟩

/-- The number of the name of a node is the number of the node. -/
theorem index?_name (h : g.WellFormed) {i : Nat} (hi : i < g.size) :
    g.index? (g.name i) = some i :=
  (h.index?_eq_some_iff (g.name i) i).mpr ⟨hi, rfl⟩

/-- Names are joined by an edge when the nodes with those names are. -/
theorem hasEdge_iff (h : g.WellFormed) (a b : String) :
    g.hasEdge a b = true ↔ ∃ i j, g.name i = a ∧ g.name j = b ∧ g.Edge i j := by
  constructor
  · intro hab
    unfold hasEdge at hab
    split at hab
    · rename_i i j hi hj
      exact ⟨i, j, ((h.index?_eq_some_iff a i).mp hi).2, ((h.index?_eq_some_iff b j).mp hj).2,
        (hasEdgeAt_iff i j).mp hab⟩
    · exact absurd hab Bool.false_ne_true
  · rintro ⟨i, j, rfl, rfl, hedge⟩
    obtain ⟨hi, hj⟩ := h.edge_lt hedge
    simp only [hasEdge, h.index?_name hi, h.index?_name hj]
    exact (hasEdgeAt_iff i j).mpr hedge

end WellFormed

end Graph

end VariableOrder
