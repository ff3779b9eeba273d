import VariableOrder.Order.Cycle
import VariableOrder.Proofs.Graph.Component
import VariableOrder.Proofs.Graph.WellFormed
import VariableOrder.Proofs.Order.Declaration

/-!
# Cycles among some nodes

When some nodes include everything that edges from them lead to, numbering them anew loses no path
between them. So the components of that part are components of the whole graph, and the search
finds exactly the components with a cycle that have a member among the nodes, each once and in the
order of declaration. The search is told how parts are taken and split; all that is used of it is
that a part has all edges between its nodes, and that it is split into its components.
-/

set_option autoImplicit false

namespace VariableOrder

open Relation (ReflTransGen TransGen)

namespace Subgraph

/-- Whether the second node of a part needs the first. -/
def Edge (s : Subgraph) (referenced dependent : Nat) : Prop :=
  dependent ∈ s.successorsOf referenced

/-- Whether a part of a graph has the given nodes, each once, and all edges between them. -/
structure IsInduced (g : Graph) (nodes : List Nat) (s : Subgraph) : Prop where
  origins : (s.nodes.map (·.origin)).Perm nodes
  bounded : ∀ i j, s.Edge i j → j < s.size
  edges : ∀ i < s.size, ∀ j < s.size, s.Edge i j ↔ g.Edge (s.origin i) (s.origin j)

/-- Whether the nodes of a part are split into its strongly connected components. -/
structure IsSplit (s : Subgraph) (components : List (List Nat)) : Prop where
  nodes : components.flatten.Perm (List.range s.size)
  component : ∀ c ∈ components, IsComponent s.Edge c

variable {s : Subgraph}

/-- An edge of a part starts at a node of it. -/
theorem lt_size_of_edge {i j : Nat} (h : s.Edge i j) : i < s.size := by
  by_contra hge
  have hnone : s.nodes[i]? = none := List.getElem?_eq_none (by simpa [size] using hge)
  simp [Edge, successorsOf, hnone] at h

/-- The test for an edge of a part is exact. -/
theorem hasEdge_iff (i j : Nat) : s.hasEdge i j = true ↔ s.Edge i j := by
  simp [hasEdge, Edge]

/-- A component is kept as a cycle when it has a cycle. -/
theorem isCycle_iff {c : List Nat} (h : c ≠ []) : s.isCycle c = true ↔ HasCycle s.Edge c := by
  rcases c with _ | ⟨i, _ | ⟨j, rest⟩⟩
  · exact absurd rfl h
  · simp [isCycle, HasCycle, hasEdge_iff]
  · simp [isCycle, HasCycle]

/-- The origins of a part are those of its numbers, in order. -/
theorem origins_eq : s.nodes.map (·.origin) = (List.range s.size).map s.origin := by
  apply List.ext_getElem
  · simp [size]
  · intro i h₁ h₂
    have hn := List.getElem?_eq_getElem (show i < s.nodes.length by simpa using h₁)
    simp [origin, hn]

namespace IsSplit

variable {split : List (List Nat)}

/-- The members of a component are nodes of the part. -/
theorem lt_size (h : s.IsSplit split) {c : List Nat} (hc : c ∈ split) {i : Nat} (hi : i ∈ c) :
    i < s.size :=
  List.mem_range.mp (h.nodes.mem_iff.mp (List.mem_flatten_of_mem hc hi))

/-- Every node is in a component. -/
theorem exists_mem (h : s.IsSplit split) {i : Nat} (hi : i < s.size) : ∃ c ∈ split, i ∈ c :=
  List.mem_flatten.mp (h.nodes.mem_iff.mpr (List.mem_range.mpr hi))

/-- No node is in two components. -/
theorem pairwise_disjoint (h : s.IsSplit split) : split.Pairwise List.Disjoint :=
  (List.nodup_flatten.mp (h.nodes.nodup_iff.mpr List.nodup_range)).2

end IsSplit

namespace IsInduced

variable {g : Graph} {nodes : List Nat}

/-- The nodes of the whole graph that a part consists of. -/
theorem mem_nodes_iff (h : s.IsInduced g nodes) (node : Nat) :
    node ∈ nodes ↔ ∃ i < s.size, s.origin i = node := by
  rw [← h.origins.mem_iff, origins_eq]
  simp

/-- Going back to the whole graph keeps the nodes apart, and it keeps all edges when they do not
leave the part. -/
theorem isLabelling (h : s.IsInduced g nodes) (hnodup : nodes.Nodup)
    (hclosed : ∀ i j, i ∈ nodes → g.Edge i j → j ∈ nodes) :
    IsLabelling s.Edge s.size g.Edge s.origin where
  bounded i j hedge := ⟨lt_size_of_edge hedge, h.bounded i j hedge⟩
  injective := by
    intro i hi j hj heq
    have horigins := h.origins.nodup_iff.mpr hnodup
    rw [origins_eq] at horigins
    exact List.inj_on_of_nodup_map horigins (List.mem_range.mpr hi) (List.mem_range.mpr hj) heq
  edges := by
    intro i hi node
    constructor
    · intro hedge
      have hnode := hclosed _ node ((h.mem_nodes_iff _).mpr ⟨i, hi, rfl⟩) hedge
      obtain ⟨j, hj, rfl⟩ := (h.mem_nodes_iff node).mp hnode
      exact ⟨j, (h.edges i hi j hj).mpr hedge, rfl⟩
    · rintro ⟨j, hedge, rfl⟩
      exact (h.edges i hi j (h.bounded i j hedge)).mp hedge

end IsInduced

end Subgraph

namespace Graph

variable {g : Graph}

variable {subgraph : Graph → List Nat → Subgraph} {components : Subgraph → List (List Nat)}
  {nodes : List Nat}

/-- Putting the cycles into the order of declaration neither loses nor adds one. -/
theorem cyclesAmong_perm (g : Graph) (nodes : List Nat) :
    (g.cyclesAmong subgraph components nodes).Perm
      (((components (subgraph g nodes)).filter (subgraph g nodes).isCycle).map fun c =>
        g.byDeclaration (c.map (subgraph g nodes).origin)) :=
  List.mergeSort_perm _ _

/-- A cycle is a component that is one, with its members in the order of declaration. -/
theorem mem_cyclesAmong (cycle : List Nat) :
    cycle ∈ g.cyclesAmong subgraph components nodes ↔
      ∃ c ∈ components (subgraph g nodes), (subgraph g nodes).isCycle c = true ∧
        g.byDeclaration (c.map (subgraph g nodes).origin) = cycle := by
  simp [(cyclesAmong_perm g nodes).mem_iff, and_assoc]

section Search

variable (hlabel : IsLabelling (subgraph g nodes).Edge (subgraph g nodes).size g.Edge
    (subgraph g nodes).origin)
  (hsplit : (subgraph g nodes).IsSplit (components (subgraph g nodes)))

include hlabel hsplit

/-- What the search yields are components of the whole graph that have a cycle. -/
theorem sound_cyclesAmong {cycle : List Nat}
    (h : cycle ∈ g.cyclesAmong subgraph components nodes) :
    IsComponent g.Edge cycle ∧ HasCycle g.Edge cycle := by
  obtain ⟨c, hc, hkept, rfl⟩ := (mem_cyclesAmong cycle).mp h
  have hlt := fun i hi => hsplit.lt_size hc (i := i) hi
  have hcomponent := hsplit.component c hc
  have hcycle := (Subgraph.isCycle_iff hcomponent.nonempty).mp hkept
  have horigins := hlabel.isComponent_map hlt hcomponent
  exact ⟨horigins.of_perm (byDeclaration_perm _),
    (horigins.hasCycle_perm_iff (byDeclaration_perm _)).mpr
      ((hlabel.hasCycle_map hlt hcomponent).mpr hcycle)⟩

/-- No node is in two of the cycles. -/
theorem disjoint_cyclesAmong :
    (g.cyclesAmong subgraph components nodes).Pairwise List.Disjoint := by
  rw [(cyclesAmong_perm g nodes).pairwise_iff List.disjoint_symm, List.pairwise_map]
  refine (hsplit.pairwise_disjoint.sublist List.filter_sublist).imp_of_mem ?_
  intro a b ha hb hdisjoint node hnode hnode'
  rw [(byDeclaration_perm _).mem_iff] at hnode hnode'
  obtain ⟨i, hi, rfl⟩ := List.mem_map.mp hnode
  obtain ⟨j, hj, heq⟩ := List.mem_map.mp hnode'
  have hsame := hlabel.injective j (hsplit.lt_size (List.mem_of_mem_filter hb) hj) i
    (hsplit.lt_size (List.mem_of_mem_filter ha) hi) heq
  exact hdisjoint hi (hsame ▸ hj)

/-- A node of the part that lies on a cycle is in one of the cycles. -/
theorem exists_mem_cyclesAmong {i : Nat} (hi : i < (subgraph g nodes).size)
    (hcycle : TransGen g.Edge ((subgraph g nodes).origin i) ((subgraph g nodes).origin i)) :
    ∃ cycle ∈ g.cyclesAmong subgraph components nodes, (subgraph g nodes).origin i ∈ cycle := by
  obtain ⟨c, hc, hmem⟩ := hsplit.exists_mem hi
  have hcomponent := hsplit.component c hc
  have hhas := (hcomponent.hasCycle_iff hmem).mpr ((hlabel.transGen_iff hi).mp hcycle)
  have hkept := (Subgraph.isCycle_iff hcomponent.nonempty).mpr hhas
  refine ⟨_, (mem_cyclesAmong _).mpr ⟨c, hc, hkept, rfl⟩, ?_⟩
  exact (byDeclaration_perm _).mem_iff.mpr (List.mem_map_of_mem hmem)

/-- The cycles stand in the order in which their first members are declared. -/
theorem groups_cyclesAmong : (g.cyclesAmong subgraph components nodes).Pairwise
    fun first second => ∃ i j, first.head? = some i ∧ second.head? = some j ∧ g.Before i j := by
  have hsorted : (g.cyclesAmong subgraph components nodes).Pairwise fun first second =>
      g.declarationKey (first.headD 0) ≤ g.declarationKey (second.headD 0) :=
    pairwise_mergeSort_key (fun cycle : List Nat => g.declarationKey (cycle.headD 0)) _
      (fun first second : List Nat => declaredUpTo_iff (first.headD 0) (second.headD 0)) _
  refine (hsorted.and (disjoint_cyclesAmong hlabel hsplit)).imp_of_mem ?_
  rintro first second hfirst hsecond ⟨hle, hdisjoint⟩
  have hne := (sound_cyclesAmong hlabel hsplit hfirst).1.nonempty
  have hne' := (sound_cyclesAmong hlabel hsplit hsecond).1.nonempty
  obtain ⟨i, first, rfl⟩ := List.exists_cons_of_ne_nil hne
  obtain ⟨j, second, rfl⟩ := List.exists_cons_of_ne_nil hne'
  refine ⟨i, j, rfl, rfl, before_of_ne hle ?_⟩
  rintro rfl
  exact hdisjoint List.mem_cons_self List.mem_cons_self

end Search

/-- The search among nodes that no edge leaves and that include every node on a cycle yields the
cycles of the whole graph. -/
theorem listsCycles_cyclesAmong (hnodup : nodes.Nodup)
    (hclosed : ∀ i j, i ∈ nodes → g.Edge i j → j ∈ nodes)
    (hcyclic : ∀ i, TransGen g.Edge i i → i ∈ nodes)
    (hpart : (subgraph g nodes).IsInduced g nodes)
    (hsplit : (subgraph g nodes).IsSplit (components (subgraph g nodes))) :
    ListsCycles g.Edge g.Before (g.cyclesAmong subgraph components nodes) := by
  have hlabel := hpart.isLabelling hnodup hclosed
  refine ⟨fun cycle => sound_cyclesAmong hlabel hsplit, ?_, disjoint_cyclesAmong hlabel hsplit,
    ?_, groups_cyclesAmong hlabel hsplit⟩
  · intro node hcycle
    obtain ⟨i, hi, rfl⟩ := (hpart.mem_nodes_iff node).mp (hcyclic node hcycle)
    exact exists_mem_cyclesAmong hlabel hsplit hi hcycle
  · intro cycle hcycle
    obtain ⟨c, hc, -, rfl⟩ := (mem_cyclesAmong cycle).mp hcycle
    have hcomponent := hlabel.isComponent_map (fun i => hsplit.lt_size hc) (hsplit.component c hc)
    exact pairwise_byDeclaration hcomponent.nodup

end Graph

end VariableOrder
