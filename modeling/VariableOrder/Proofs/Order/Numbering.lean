import VariableOrder.Proofs.Order.Components
import VariableOrder.Proofs.Order.Resolution

/-!
# Nodes by number

The nodes of a well-formed graph are numbered in the order of declaration. So whatever is listed by
number stands in that order already: the first ready nodes, the nodes that can not be ordered, and
the cycles among them with their members. Sorting changes none of these, and the ordering comes to
what it comes to without it. Likewise definitions that are given in the order of declaration stay
where they are, and so do dependencies that are found in ascending order.
-/

set_option autoImplicit false

namespace VariableOrder

namespace Definition

/-- Definitions that are given in the order of declaration stay where they are. -/
theorem declared_eq_self (definitions : List Definition)
    (h : definitions.Pairwise fun a b => a.sourceOrder ≤ b.sourceOrder) :
    declared definitions = definitions :=
  List.mergeSort_of_pairwise (h.imp decide_eq_true)

/-- The node of a definition, with its dependencies as they are found. -/
def foundNode (definitions : List Definition) (d : Definition) : Node :=
  { name := d.name
    sourceOrder := d.sourceOrder
    dependencies := d.needs.filterMap (position? definitions)
    unknown := d.needs.filter fun name => (position? definitions name).isNone }

/-- Dependencies that are found in ascending order stay where they are. -/
theorem node_eq_foundNode {definitions : List Definition} {d : Definition}
    (h : (foundNode definitions d).dependencies.Pairwise (· ≤ ·)) :
    node definitions d = foundNode definitions d := by
  have hsorted : (d.needs.filterMap (position? definitions)).mergeSort (· ≤ ·) =
      d.needs.filterMap (position? definitions) :=
    List.mergeSort_of_pairwise (h.imp decide_eq_true)
  simp only [node, nodeOf, foundNode, hsorted]

end Definition

namespace Subgraph

/-- Components are listed by their first members. -/
theorem pairwise_components (s : Subgraph) : s.components.Pairwise fun a b =>
    a.headD 0 < b.headD 0 := by
  refine List.Pairwise.filterMap _ ?_ List.pairwise_lt_range
  intro i j hlt a ha b hb
  simp only [Option.ite_none_right_eq_some, Option.some.injEq] at ha hb
  obtain ⟨hi, rfl⟩ := ha
  obtain ⟨hj, rfl⟩ := hb
  simpa only [List.headD_eq_head?_getD, hi, hj, Option.getD_some] using hlt

/-- The members of a component are listed by number, and there is at least one. -/
theorem listed_of_mem_components {s : Subgraph} {c : List Nat} (hc : c ∈ s.components) :
    c.Pairwise (· < ·) ∧ (∀ i ∈ c, i < s.size) ∧ ∃ i ∈ c, c.head? = some i := by
  obtain ⟨i, -, rfl, hhead⟩ := (mem_components c).mp hc
  exact ⟨pairwise_componentOf s.reachRows i, fun j hj => ((mem_componentOf i j).mp hj).1,
    i, List.mem_of_head? hhead, hhead⟩

end Subgraph

namespace Graph

variable {g : Graph}

/-- The graph of definitions whose dependencies are found in ascending order. -/
theorem build_eq_ok_of_found {definitions ordered : List Definition} {nodes : List Node}
    (hordered : Definition.declared definitions = ordered)
    (hnodup : (definitions.map (·.name)).Nodup) (hwellFormed : ∀ d ∈ definitions, d.WellFormed)
    (hnodes : ordered.map (Definition.foundNode ordered) = nodes)
    (hfound : ∀ n ∈ nodes, n.dependencies.Pairwise (· ≤ ·)) :
    build definitions = .ok ⟨nodes⟩ := by
  subst hnodes
  refine build_eq_ok_iff.mpr ⟨hnodup, hwellFormed, ?_⟩
  rw [hordered, List.map_congr_left fun d hd =>
    Definition.node_eq_foundNode (hfound _ (List.mem_map_of_mem hd))]

namespace WellFormed

/-- Nodes in ascending order are in the order of declaration. -/
theorem declaredUpTo_of_le (h : g.WellFormed) {i j : Nat} (hle : i ≤ j) (hj : j < g.size) :
    g.declaredUpTo i j = true := by
  rcases hle.eq_or_lt with rfl | hlt
  · exact (declaredUpTo_iff i i).mpr le_rfl
  · have hsecond : j < g.nodes.length := hj
    have hfirst : i < g.nodes.length := hlt.trans hj
    have hplaces := List.pairwise_iff_getElem.mp h.declared i j hfirst hsecond hlt
    simp only [declaredUpTo, sourceOrder, List.getElem?_eq_getElem hfirst,
      List.getElem?_eq_getElem hsecond, Bool.or_eq_true, Bool.and_eq_true, decide_eq_true_eq,
      beq_iff_eq]
    omega

/-- Nodes that are listed by number stay where they are. -/
theorem byDeclaration_eq_self (h : g.WellFormed) {nodes : List Nat}
    (hnodes : nodes.Pairwise (· < ·)) (hbound : ∀ i ∈ nodes, i < g.size) :
    g.byDeclaration nodes = nodes := by
  refine List.mergeSort_of_pairwise (hnodes.imp_of_mem ?_)
  intro i j _ hj hlt
  exact h.declaredUpTo_of_le hlt.le (hbound j hj)

/-- The first ready nodes are those that need nothing, by number. -/
theorem start_eq (h : g.WellFormed) : Progress.start g =
    { pending := g.nodes.map fun n => (n.dependencies.length : Int)
      ready := g.nodes.zipIdx.filterMap fun p =>
        if p.1.dependencies.isEmpty then some p.2 else none
      emitted := [] } := by
  have hready := h.byDeclaration_eq_self
    (pairwise_positions g.nodes fun n => n.dependencies.isEmpty) fun i hi => by
      obtain ⟨n, hn, -⟩ := (mem_positions g.nodes (fun n => n.dependencies.isEmpty) i).mp hi
      exact (List.getElem?_eq_some_iff.mp hn).1
  rw [Progress.start, hready]

end WellFormed

/-- Taking a part of a graph keeps the order of its nodes. -/
theorem origin_lt_origin {nodes : List Nat} (hnodes : nodes.Pairwise (· < ·)) {i j : Nat}
    (hlt : i < j) (hj : j < (g.subgraph nodes).size) :
    (g.subgraph nodes).origin i < (g.subgraph nodes).origin j := by
  have horigins : ((g.subgraph nodes).nodes.map (·.origin)).Pairwise (· < ·) := by
    simpa only [subgraph, List.map_map, Function.comp_def, List.map_id'] using hnodes
  rw [Subgraph.origins_eq] at horigins
  have hrange := List.pairwise_iff_getElem.mp (List.pairwise_map.mp horigins)
  have hi := hlt.trans hj
  have hij := hrange i j (by simpa using hi) (by simpa using hj) hlt
  rwa [List.getElem_range, List.getElem_range] at hij

namespace WellFormed

/-- The cycles among nodes that are listed by number are listed by their first members, and the
members of each by number. -/
theorem cyclesAmong_eq (h : g.WellFormed) {nodes : List Nat} (hnodes : nodes.Pairwise (· < ·))
    (hbound : ∀ i ∈ nodes, i < g.size) :
    g.cyclesAmong subgraph Subgraph.components nodes =
      ((g.subgraph nodes).components.filter (g.subgraph nodes).isCycle).map fun c =>
        c.map (g.subgraph nodes).origin := by
  set s := g.subgraph nodes with hs
  have hinduced : s.IsInduced g nodes := isInduced_subgraph g nodes
  have horigin : ∀ i < s.size, s.origin i < g.size := fun i hi =>
    hbound _ ((hinduced.mem_nodes_iff _).mpr ⟨i, hi, rfl⟩)
  have hmembers : ∀ c ∈ s.components.filter s.isCycle,
      g.byDeclaration (c.map s.origin) = c.map s.origin := by
    intro c hc
    obtain ⟨hlt, hsize, -⟩ := Subgraph.listed_of_mem_components (List.mem_filter.mp hc).1
    refine h.byDeclaration_eq_self (List.pairwise_map.mpr (hlt.imp_of_mem ?_)) ?_
    · intro i j _ hj hij
      exact origin_lt_origin hnodes hij (hsize j hj)
    · simp only [List.forall_mem_map]
      exact fun i hi => horigin i (hsize i hi)
  have hfirsts : ((s.components.filter s.isCycle).map fun c => c.map s.origin).Pairwise fun a b =>
      g.declaredUpTo (a.headD 0) (b.headD 0) = true := by
    refine List.pairwise_map.mpr (((Subgraph.pairwise_components s).filter _).imp_of_mem ?_)
    intro a b ha hb hlt
    obtain ⟨-, -, i, -, hi⟩ := Subgraph.listed_of_mem_components (List.mem_filter.mp ha).1
    obtain ⟨-, hsize, j, hj, hjhead⟩ := Subgraph.listed_of_mem_components (List.mem_filter.mp hb).1
    simp only [List.headD_eq_head?_getD, List.head?_map, hi, hjhead, Option.map_some,
      Option.getD_some] at hlt ⊢
    exact h.declaredUpTo_of_le (origin_lt_origin hnodes hlt (hsize j hj)).le
      (horigin j (hsize j hj))
  rw [cyclesAmong, ← hs, List.map_congr_left hmembers]
  exact List.mergeSort_of_pairwise hfirsts

/-- A graph that can not be ordered is answered with the nodes that remain by number, and with the
cycles as they are found among them. -/
theorem order_eq_error (h : g.WellFormed) (hlength : g.emittedNodes.length ≠ g.size) :
    g.order = .error ⟨g.remainder.map g.name,
      ((g.subgraph g.remainder).components.filter (g.subgraph g.remainder).isCycle).map fun c =>
        (c.map (g.subgraph g.remainder).origin).map g.name⟩ := by
  have hremainder : g.remainder.Pairwise (· < ·) := List.pairwise_lt_range.filter _
  have hbound : ∀ i ∈ g.remainder, i < g.size := fun i hi =>
    List.mem_range.mp (List.mem_filter.mp hi).1
  simp only [order, orderBy, hlength, if_false, h.byDeclaration_eq_self hremainder hbound,
    h.cyclesAmong_eq hremainder hbound, List.map_map, Function.comp_def]

end WellFormed

end Graph

/-- Definitions with a graph all of whose nodes can be ordered are resolved to the definitions of
these nodes. -/
theorem resolve_eq_ok_of_emitted {g : Graph} {definitions : List Definition}
    (hbuild : Graph.build definitions = .ok g) (hlength : g.emittedNodes.length = g.size)
    (external : List String) :
    resolve definitions external =
      .ok ⟨Definition.atPositions (Definition.declared definitions) g.emittedNodes,
        g.warnings external⟩ := by
  have horder : g.order = .ok (g.emittedNodes.map g.name) := by
    rw [Graph.order, Graph.orderBy, if_pos hlength]
  rw [resolve_of_build hbuild, horder]

/-- A request without external names and without a count of workers is answered with what the
definitions are resolved to. -/
theorem requestOrder_plain (definitions : List Definition) :
    requestOrder definitions (.list []) .null = (resolve definitions []).mapError .resolution := by
  have hsettings : Settings.requested (.list []) .null = .ok ⟨[], none⟩ := rfl
  simp only [requestOrder_eq, hsettings]

end VariableOrder
