import Mathlib.Tactic.TFAE
import VariableOrder.Proofs.Graph.References
import VariableOrder.Proofs.Order.Numbering

/-!
# Views of a graph

An edge of a graph can be read off in many ways: by names or by numbers, from the needed node or
from the one that needs it, one at a time or all in a row. In a built graph they all tell of the
same edges, which are the references between declared variables, and they all count as many.
-/

set_option autoImplicit false

namespace VariableOrder

/-- The pairs of a row's number and a member of that row, row by row. -/
def rowPairs (count : Nat) (row : Nat → List Nat) : List (Nat × Nat) :=
  (List.range count).flatMap fun i => (row i).map fun j => (i, j)

section RowPairs

variable {count : Nat} {row column : Nat → List Nat}

/-- The pairs of the rows are a number below the count with a member of its row. -/
@[simp]
theorem mem_rowPairs (i j : Nat) : (i, j) ∈ rowPairs count row ↔ i < count ∧ j ∈ row i := by
  simp [rowPairs]

/-- There are as many pairs as members of rows. -/
theorem length_rowPairs :
    (rowPairs count row).length = ((List.range count).map row).flatten.length := by
  simp [rowPairs, List.length_flatMap, List.length_flatten, Function.comp_def]

/-- The pairs of ascending rows ascend by row and then within the row. -/
theorem pairwise_rowPairs (h : ∀ i, (row i).Pairwise (· < ·)) :
    (rowPairs count row).Pairwise fun p q => toLex p < toLex q := by
  rw [rowPairs, List.pairwise_flatMap]
  constructor
  · intro i _
    rw [List.pairwise_map]
    refine (h i).imp ?_
    intro j l hlt
    exact Prod.Lex.toLex_lt_toLex.mpr (.inr ⟨rfl, hlt⟩)
  · refine List.pairwise_lt_range.imp ?_
    intro i k hlt p hp q hq
    obtain ⟨j, -, rfl⟩ := List.mem_map.mp hp
    obtain ⟨l, -, rfl⟩ := List.mem_map.mp hq
    exact Prod.Lex.toLex_lt_toLex.mpr (.inl hlt)

/-- Rows and columns of one relation have equally many members. -/
theorem length_rowPairs_eq (hrow : ∀ i, (row i).Pairwise (· < ·))
    (hcolumn : ∀ j, (column j).Pairwise (· < ·))
    (h : ∀ i j, i < count ∧ j ∈ row i ↔ j < count ∧ i ∈ column j) :
    (rowPairs count row).length = (rowPairs count column).length := by
  have hnodup : ∀ {line : Nat → List Nat}, (∀ i, (line i).Pairwise (· < ·)) →
      (rowPairs count line).Nodup := by
    intro line hline
    refine (pairwise_rowPairs hline).imp ?_
    rintro p q hlt rfl
    exact lt_irrefl _ hlt
  have hswap : ((rowPairs count column).map Prod.swap).Nodup :=
    (hnodup hcolumn).map Prod.swap_injective
  have hperm : (rowPairs count row).Perm ((rowPairs count column).map Prod.swap) := by
    rw [List.perm_ext_iff_of_nodup (hnodup hrow) hswap]
    rintro ⟨i, j⟩
    rw [mem_rowPairs, h i j, List.mem_map_of_involutive Prod.swap_swap]
    exact (mem_rowPairs j i).symm
  rw [hperm.length_eq, List.length_map]

end RowPairs

namespace Graph

/-- Whether an edge comes before another one: by the number of the needed variable, and then by the
number of the one that needs it. -/
def EdgePrecedes (g : Graph) (e f : String × String) : Prop :=
  ∃ i j k l, g.index? e.1 = some i ∧ g.index? e.2 = some j ∧ g.index? f.1 = some k ∧
    g.index? f.2 = some l ∧ (i < k ∨ i = k ∧ j < l)

/-- Whether all views of a graph agree with each other and with what the definitions refer to. -/
structure ViewsAgree (g : Graph) (definitions : List Definition) : Prop where
  edge : ∀ a ∈ definitions, ∀ b ∈ definitions, ∃ i j dependencies dependents needing needed,
    g.index? a.name = some i ∧ g.index? b.name = some j ∧
    g.dependenciesOf? b.name = some dependencies ∧ g.dependentsOf? a.name = some dependents ∧
    g.successors[i]? = some needing ∧ g.predecessors[j]? = some needed ∧
    List.TFAE [g.hasEdge a.name b.name = true, a.name ∈ dependencies, b.name ∈ dependents,
      (a.name, b.name) ∈ g.edges, j ∈ needing, i ∈ needed, b.RefersTo a.name]
  declared : ∀ e ∈ g.edges, e.1 ∈ g.names ∧ e.2 ∈ g.names
  ordered : g.edges.Pairwise g.EdgePrecedes
  count_edges : g.edgeCount = g.edges.length
  count_successors : g.edgeCount = g.successors.flatten.length
  count_predecessors : g.edgeCount = g.predecessors.flatten.length
  ascending : ∀ row ∈ g.successors ++ g.predecessors, row.Pairwise (· < ·)
  distinct : g.names.Nodup
  names : g.names.Perm (definitions.map (·.name))
  index : ∀ (name : String) (i : Nat), g.index? name = some i ↔ g.names[i]? = some name
  sourceOrder : (g.nodes.map (·.sourceOrder)).Pairwise (· ≤ ·)

variable {g : Graph}

/-- The rows of needed nodes are the dependencies of the nodes. -/
theorem predecessors_eq : g.predecessors = g.nodes.map (·.dependencies) := by
  apply List.ext_getElem
  · simp [predecessors, size]
  · intro i h₁ h₂
    have hi : i < g.nodes.length := by simpa using h₂
    simp only [predecessors, List.getElem_map, List.getElem_range, predecessorsOf,
      List.getElem?_eq_getElem hi]

/-- The count of edges is the count of all needed nodes. -/
theorem edgeCount_eq : g.edgeCount = g.predecessors.flatten.length := by
  rw [edgeCount, predecessors_eq, List.flatMap_def]

/-- The edges are the pairs of the rows of dependents, by name. -/
theorem edges_eq :
    g.edges = (rowPairs g.size g.successorsOf).map fun p => (g.name p.1, g.name p.2) := by
  simp [edges, rowPairs, List.map_flatMap, Function.comp_def]

/-- Every pair in the row of edges is one of two nodes with an edge between them. -/
theorem exists_of_mem_edges {e : String × String} (he : e ∈ g.edges) :
    ∃ i j, g.Edge i j ∧ e = (g.name i, g.name j) := by
  rw [edges_eq, List.mem_map] at he
  obtain ⟨⟨i, j⟩, hpair, rfl⟩ := he
  exact ⟨i, j, (mem_successorsOf i j).mp ((mem_rowPairs i j).mp hpair).2, rfl⟩

namespace WellFormed

/-- Among existing nodes a node is told by its name. -/
theorem mem_map_name (h : g.WellFormed) {nodes : List Nat} (hnodes : ∀ k ∈ nodes, k < g.size)
    {i : Nat} (hi : i < g.size) : g.name i ∈ nodes.map g.name ↔ i ∈ nodes := by
  rw [List.mem_map]
  constructor
  · rintro ⟨k, hk, hname⟩
    exact h.name_inj (hnodes k hk) hi hname ▸ hk
  · intro hmem
    exact ⟨i, hmem, rfl⟩

/-- Two names are listed as an edge exactly when there is one between their numbers. -/
theorem mem_edges_iff (h : g.WellFormed) {i j : Nat} (hi : i < g.size) (hj : j < g.size) :
    (g.name i, g.name j) ∈ g.edges ↔ g.Edge i j := by
  constructor
  · intro hmem
    obtain ⟨k, l, hedge, hnames⟩ := exists_of_mem_edges hmem
    obtain ⟨hk, hl⟩ := h.edge_lt hedge
    obtain ⟨hnamei, hnamej⟩ := Prod.mk.inj hnames
    rwa [← h.name_inj hi hk hnamei, ← h.name_inj hj hl hnamej] at hedge
  · intro hedge
    rw [edges_eq]
    exact List.mem_map_of_mem ((mem_rowPairs i j).mpr ⟨hi, (mem_successorsOf i j).mpr hedge⟩)

/-- All views of an edge between two nodes come to the same, and to whatever the edge stands for. -/
theorem views_edge (h : g.WellFormed) {i j : Nat} (hi : i < g.size) (hj : j < g.size) {P : Prop}
    (hP : g.Edge i j ↔ P) :
    List.TFAE [g.hasEdge (g.name i) (g.name j) = true,
      g.name i ∈ (g.predecessorsOf j).map g.name, g.name j ∈ (g.successorsOf i).map g.name,
      (g.name i, g.name j) ∈ g.edges, j ∈ g.successorsOf i, i ∈ g.predecessorsOf j, P] := by
  tfae_have 1 ↔ 6 := by
    simp only [hasEdge, h.index?_name hi, h.index?_name hj]
    exact hasEdgeAt_iff i j
  tfae_have 2 ↔ 6 := h.mem_map_name (fun k hk => (h.edge_lt (j := j) hk).1) hi
  tfae_have 3 ↔ 5 := by
    refine h.mem_map_name ?_ hj
    intro k hk
    exact (h.edge_lt ((mem_successorsOf i k).mp hk)).2
  tfae_have 4 ↔ 6 := h.mem_edges_iff hi hj
  tfae_have 5 ↔ 6 := mem_successorsOf i j
  tfae_have 6 ↔ 7 := hP
  tfae_finish

/-- The row of edges goes by the numbers of the two nodes. -/
theorem pairwise_edges (h : g.WellFormed) : g.edges.Pairwise g.EdgePrecedes := by
  rw [edges_eq, List.pairwise_map]
  refine (pairwise_rowPairs pairwise_successorsOf).imp_of_mem ?_
  rintro ⟨i, j⟩ ⟨k, l⟩ hp hq hlt
  have hp := h.edge_lt ((mem_successorsOf i j).mp ((mem_rowPairs i j).mp hp).2)
  have hq := h.edge_lt ((mem_successorsOf k l).mp ((mem_rowPairs k l).mp hq).2)
  exact ⟨i, j, k, l, h.index?_name hp.1, h.index?_name hp.2, h.index?_name hq.1,
    h.index?_name hq.2, Prod.Lex.toLex_lt_toLex.mp hlt⟩

/-- Nodes are needed as often as they need others. -/
theorem length_successors_eq (h : g.WellFormed) :
    g.successors.flatten.length = g.predecessors.flatten.length := by
  rw [successors, predecessors, ← length_rowPairs, ← length_rowPairs]
  apply length_rowPairs_eq pairwise_successorsOf h.pairwise_predecessorsOf
  intro i j
  rw [mem_successorsOf]
  constructor
  · rintro ⟨-, hedge⟩
    exact ⟨(h.edge_lt hedge).2, hedge⟩
  · rintro ⟨-, hedge⟩
    exact ⟨(h.edge_lt hedge).1, hedge⟩

/-- All rows are strictly ascending. -/
theorem ascending_rows (h : g.WellFormed) :
    ∀ row ∈ g.successors ++ g.predecessors, row.Pairwise (· < ·) := by
  intro row hrow
  rcases List.mem_append.mp hrow with hmem | hmem
  · obtain ⟨i, -, rfl⟩ := List.mem_map.mp hmem
    exact pairwise_successorsOf i
  · obtain ⟨j, -, rfl⟩ := List.mem_map.mp hmem
    exact h.pairwise_predecessorsOf j

/-- The numbers of names are their positions among the names. -/
theorem index?_eq_some_iff_getElem? (h : g.WellFormed) (name : String) (i : Nat) :
    g.index? name = some i ↔ g.names[i]? = some name := by
  rw [h.index?_eq_some_iff, names_eq, List.getElem?_map, Option.map_eq_some_iff]
  constructor
  · rintro ⟨hi, rfl⟩
    exact ⟨i, List.getElem?_range hi, rfl⟩
  · rintro ⟨k, hk, rfl⟩
    obtain ⟨hi, rfl⟩ := List.getElem?_eq_some_iff.mp hk
    rw [List.length_range] at hi
    rw [List.getElem_range]
    exact ⟨hi, rfl⟩

end WellFormed

open Definition (declared)

variable {definitions : List Definition}

/-- The names of a built graph are those of the definitions. -/
theorem names_perm_of_build (h : build definitions = .ok g) :
    g.names.Perm (definitions.map (·.name)) := by
  obtain ⟨-, -, rfl⟩ := build_eq_ok_iff.mp h
  simp only [names, List.map_map]
  exact (Definition.declared_perm definitions).map (·.name)

/-- The views of an edge of a built graph tell whether a definition refers to another one. -/
theorem edge_views_of_build (h : build definitions = .ok g) {a b : Definition}
    (ha : a ∈ definitions) (hb : b ∈ definitions) :
    ∃ i j dependencies dependents needing needed,
      g.index? a.name = some i ∧ g.index? b.name = some j ∧
      g.dependenciesOf? b.name = some dependencies ∧ g.dependentsOf? a.name = some dependents ∧
      g.successors[i]? = some needing ∧ g.predecessors[j]? = some needed ∧
      List.TFAE [g.hasEdge a.name b.name = true, a.name ∈ dependencies, b.name ∈ dependents,
        (a.name, b.name) ∈ g.edges, j ∈ needing, i ∈ needed, b.RefersTo a.name] := by
  have hg := wellFormed_of_build h
  have hplace : ∀ {d : Definition}, d ∈ definitions →
      ∃ i, (declared definitions)[i]? = some d ∧ g.index? d.name = some i ∧
        i < g.size ∧ g.name i = d.name := by
    intro d hd
    obtain ⟨i, hi⟩ := List.mem_iff_getElem?.mp ((Definition.declared_perm definitions).mem_iff.mpr hd)
    have hindex := index?_of_build h hi
    exact ⟨i, hi, hindex, (hg.index?_eq_some_iff d.name i).mp hindex⟩
  obtain ⟨i, hi, hindexi, hltI, hnamei⟩ := hplace ha
  obtain ⟨j, hj, hindexj, hltJ, hnamej⟩ := hplace hb
  have hrefers : g.Edge i j ↔ b.RefersTo a.name := by
    rw [edge_of_build h]
    simp [hi, hj]
  refine ⟨i, j, (g.predecessorsOf j).map g.name, (g.successorsOf i).map g.name, g.successorsOf i,
    g.predecessorsOf j, hindexi, hindexj, ?_, ?_, ?_, ?_, ?_⟩
  · rw [dependenciesOf?, hindexj, Option.map_some]
  · rw [dependentsOf?, hindexi, Option.map_some]
  · rw [successors, List.getElem?_map, List.getElem?_range hltI, Option.map_some]
  · rw [predecessors, List.getElem?_map, List.getElem?_range hltJ, Option.map_some]
  · have hviews := hg.views_edge hltI hltJ hrefers
    rwa [hnamei, hnamej] at hviews

/-- All views of the graph that is built of definitions agree. -/
theorem viewsAgree_of_build (h : build definitions = .ok g) : g.ViewsAgree definitions := by
  have hg := wellFormed_of_build h
  have hcount := edgeCount_eq.trans hg.length_successors_eq.symm
  refine {
    edge := fun a ha b hb => edge_views_of_build h ha hb
    declared := ?_
    ordered := hg.pairwise_edges
    count_edges := ?_
    count_successors := hcount
    count_predecessors := edgeCount_eq
    ascending := hg.ascending_rows
    distinct := hg.distinct
    names := names_perm_of_build h
    index := hg.index?_eq_some_iff_getElem?
    sourceOrder := List.pairwise_map.mpr hg.declared }
  · intro e he
    obtain ⟨i, j, hedge, rfl⟩ := exists_of_mem_edges he
    obtain ⟨hi, hj⟩ := hg.edge_lt hedge
    rw [names_eq]
    exact ⟨List.mem_map_of_mem (List.mem_range.mpr hi), List.mem_map_of_mem (List.mem_range.mpr hj)⟩
  · rw [hcount, edges_eq, List.length_map, length_rowPairs, successors]

/-- A variable that refers to itself and, in two candidates, to one that is declared at the same
place; a third one that refers to both and to an unknown name. -/
theorem viewsAgree_of_build_tied :
    let definitions :=
      [Definition.ofValues "late" [.ofText "$own/$tied $gone"] 7 false none,
        Definition.ofValues "own" [.ofText "$tied$tied", .ofText "${own}:${tied}"] 2 false none,
        Definition.ofValues "tied" [] 2 true none]
    let g : Graph := ⟨[⟨"own", 2, [0, 1], []⟩, ⟨"tied", 2, [], []⟩, ⟨"late", 7, [0, 1], ["gone"]⟩]⟩
    build definitions = .ok g ∧ g.ViewsAgree definitions ∧
      g.edges = [("own", "own"), ("own", "late"), ("tied", "own"), ("tied", "late")] ∧
      g.successors = [[0, 2], [0, 2], []] ∧ g.edgeCount = 4 := by
  intro definitions g
  have hbuild : build definitions = .ok g := by
    have hordered : Definition.declared definitions =
        [definitions[1], definitions[2], definitions[0]] := by
      simp [definitions, Definition.declared, List.mergeSort, Definition.ofValues,
        List.MergeSort.Internal.splitInTwo]
    refine build_eq_ok_of_found hordered (by decide) ?_ (by decide +kernel) (by decide)
    simp only [definitions, List.forall_mem_cons]
    refine ⟨?_, ?_, ?_, by simp⟩ <;> apply Definition.wellFormed_ofValues <;>
      simp [Expr.wellFormed_ofText]
  exact ⟨hbuild, viewsAgree_of_build hbuild, by decide, by decide, by decide⟩

end Graph

end VariableOrder
