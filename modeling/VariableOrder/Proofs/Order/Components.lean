import VariableOrder.Proofs.Order.Cycle

/-!
# Taking and splitting a part

The part that is taken of a graph is the one induced by the given nodes. It is split by closing
the edges under one stop after the other: when a stop has been added, every path through it is
known, so in the end the rows tell all paths. A component is then listed for its first node only.
-/

set_option autoImplicit false

namespace VariableOrder

open Relation (ReflTransGen TransGen)

namespace Graph

/-- The part that is taken is the induced one. -/
theorem isInduced_subgraph (g : Graph) (nodes : List Nat) :
    (g.subgraph nodes).IsInduced g nodes := by
  have hsize : (g.subgraph nodes).size = nodes.length := by simp [subgraph, Subgraph.size]
  have hedge : ∀ i j, (g.subgraph nodes).Edge i j ↔
      ∃ a b, nodes[i]? = some a ∧ nodes[j]? = some b ∧ g.Edge a b := by
    intro i j
    unfold Subgraph.Edge Subgraph.successorsOf subgraph
    rw [List.getElem?_map]
    cases nodes[i]? with
    | none => simp
    | some a =>
      simp only [Option.map_some, Option.some.injEq, exists_and_left, exists_eq_left']
      rw [mem_positions nodes fun other => (g.successorsOf a).contains other]
      simp [mem_successorsOf]
  have horigin : ∀ i a, nodes[i]? = some a → (g.subgraph nodes).origin i = a := by
    intro i a ha
    simp [Subgraph.origin, subgraph, ha]
  constructor
  · simp [subgraph, Function.comp_def]
  · intro i j h
    obtain ⟨a, b, -, hb, -⟩ := (hedge i j).mp h
    exact hsize ▸ (List.getElem?_eq_some_iff.mp hb).1
  · intro i hi j hj
    rw [hsize] at hi hj
    have ha := List.getElem?_eq_getElem hi
    have hb := List.getElem?_eq_getElem hj
    rw [hedge, horigin i _ ha, horigin j _ hb]
    simp [ha, hb]

end Graph

namespace Subgraph

variable {s : Subgraph}

/-- A row has the bits of its nodes. -/
theorem testBit_rowOf (nodes : List Nat) (node : Nat) :
    (rowOf nodes).testBit node = true ↔ node ∈ nodes := by
  have hfold : ∀ row : Nat, (nodes.foldl (fun row node => row ||| 1 <<< node) row).testBit node =
      true ↔ row.testBit node = true ∨ node ∈ nodes := by
    induction nodes with
    | nil => simp
    | cons head rest ih =>
      intro row
      rw [List.foldl_cons, ih]
      simp only [Nat.testBit_or, Nat.one_shiftLeft, Nat.testBit_two_pow, Bool.or_eq_true,
        decide_eq_true_eq, List.mem_cons, or_assoc, eq_comm (a := node)]
  rw [rowOf, hfold 0]
  simp

/-- The first rows lead along one edge. -/
theorem leads_edgeRows (i j : Nat) : leads s.edgeRows i j = true ↔ s.Edge i j := by
  unfold leads edgeRows Edge successorsOf
  rw [List.getD_eq_getElem?_getD, List.getElem?_map]
  cases s.nodes[i]? with
  | none => simp
  | some n => simp [testBit_rowOf]

/-- Adding a stop adds the ways that lead to the stop and from it on. -/
theorem leads_throughNode (rows : List Nat) (stop i j : Nat) :
    leads (throughNode rows stop) i j = true ↔
      leads rows i j = true ∨ leads rows i stop = true ∧ leads rows stop j = true := by
  unfold leads throughNode
  simp only [List.getD_eq_getElem?_getD, List.getElem?_map]
  cases rows[i]? with
  | none => simp
  | some row =>
    simp only [Option.map_some, Option.getD_some]
    split_ifs with hstop
    · simp [Nat.testBit_or, hstop]
    · simp [hstop]

/-- The rows after a number of stops. -/
def rowsThrough (s : Subgraph) (count : Nat) : List Nat :=
  (List.range count).foldl throughNode s.edgeRows

/-- One more stop is added to the rows so far. -/
theorem rowsThrough_succ (count : Nat) :
    s.rowsThrough (count + 1) = throughNode (s.rowsThrough count) count := by
  rw [rowsThrough, List.range_succ, List.foldl_append]
  rfl

/-- There is always one row for each node. -/
theorem length_rowsThrough (count : Nat) : (s.rowsThrough count).length = s.size := by
  induction count with
  | zero => simp [rowsThrough, edgeRows, size]
  | succ count ih => simpa [rowsThrough_succ, throughNode] using ih

/-- The rows lead along every edge, whatever stops have been added. -/
theorem leads_of_edge (count : Nat) {i j : Nat} (h : s.Edge i j) :
    leads (s.rowsThrough count) i j = true := by
  induction count with
  | zero => exact (leads_edgeRows i j).mpr h
  | succ count ih =>
    rw [rowsThrough_succ, leads_throughNode]
    exact .inl ih

/-- The rows lead along paths only. -/
theorem transGen_of_leads (count : Nat) {i j : Nat}
    (h : leads (s.rowsThrough count) i j = true) : TransGen s.Edge i j := by
  induction count generalizing i j with
  | zero => exact TransGen.single ((leads_edgeRows i j).mp h)
  | succ count ih =>
    rw [rowsThrough_succ, leads_throughNode] at h
    rcases h with h | ⟨hto, hfrom⟩
    · exact ih h
    · exact (ih hto).trans (ih hfrom)

/-- Ways that meet at a stop that has been added are joined. -/
theorem leads_trans (count : Nat) {i j stop : Nat} (hstop : stop < count)
    (hto : leads (s.rowsThrough count) i stop = true)
    (hfrom : leads (s.rowsThrough count) stop j = true) :
    leads (s.rowsThrough count) i j = true := by
  induction count generalizing i j stop with
  | zero => omega
  | succ count ih =>
    rw [rowsThrough_succ, leads_throughNode] at hto hfrom ⊢
    by_cases hlast : stop = count
    · subst hlast
      exact .inr ⟨hto.elim id And.left, hfrom.elim id And.right⟩
    · -- an earlier stop: the ways are joined there unless one of them already takes the last stop
      have hearlier : stop < count := by omega
      rcases hto with hto | ⟨hto, hlink⟩
      · rcases hfrom with hfrom | ⟨hlink, hfrom⟩
        · exact .inl (ih hearlier hto hfrom)
        · exact .inr ⟨ih hearlier hto hlink, hfrom⟩
      · rcases hfrom with hfrom | ⟨-, hfrom⟩
        · exact .inr ⟨hto, ih hearlier hlink hfrom⟩
        · exact .inr ⟨hto, hfrom⟩

/-- In the end the rows lead along exactly the paths. -/
theorem leads_reachRows (i j : Nat) : leads s.reachRows i j = true ↔ TransGen s.Edge i j := by
  constructor
  · exact transGen_of_leads s.size
  · intro hpath
    induction hpath with
    | single hedge => exact leads_of_edge s.size hedge
    | tail _ hedge ih =>
      exact leads_trans s.size (lt_size_of_edge hedge) ih (leads_of_edge s.size hedge)

/-- A component has the nodes that are connected with a node in both directions. -/
theorem mem_componentOf (i j : Nat) : j ∈ componentOf s.reachRows i ↔
    j < s.size ∧ ReflTransGen s.Edge i j ∧ ReflTransGen s.Edge j i := by
  have hlength : s.reachRows.length = s.size := length_rowsThrough s.size
  simp only [componentOf, List.mem_filter, List.mem_range, hlength, Bool.or_eq_true, beq_iff_eq,
    Bool.and_eq_true, leads_reachRows, Relation.reflTransGen_iff_eq_or_transGen]
  refine and_congr_right fun _ => ?_
  constructor
  · rintro (rfl | ⟨hto, hfrom⟩)
    · exact ⟨.inl rfl, .inl rfl⟩
    · exact ⟨.inr hto, .inr hfrom⟩
  · rintro ⟨rfl | hto, hfrom⟩
    · exact .inl rfl
    · rcases hfrom with rfl | hfrom
      · exact .inl rfl
      · exact .inr ⟨hto, hfrom⟩

/-- The members of a component are listed in ascending order. -/
theorem pairwise_componentOf (rows : List Nat) (i : Nat) :
    (componentOf rows i).Pairwise (· < ·) :=
  List.pairwise_lt_range.filter _

/-- Connected nodes have the same component. -/
theorem componentOf_eq {i j : Nat} (h : j ∈ componentOf s.reachRows i) :
    componentOf s.reachRows j = componentOf s.reachRows i := by
  obtain ⟨-, hto, hfrom⟩ := (mem_componentOf i j).mp h
  have hmem : ∀ k, k ∈ componentOf s.reachRows j ↔ k ∈ componentOf s.reachRows i := by
    intro k
    rw [mem_componentOf, mem_componentOf]
    constructor
    · rintro ⟨hk, hjk, hkj⟩
      exact ⟨hk, hto.trans hjk, hkj.trans hfrom⟩
    · rintro ⟨hk, hik, hki⟩
      exact ⟨hk, hfrom.trans hik, hki.trans hto⟩
  have hj := pairwise_componentOf s.reachRows j
  have hi := pairwise_componentOf s.reachRows i
  have hperm := (List.perm_ext_iff_of_nodup (hj.imp ne_of_lt) (hi.imp ne_of_lt)).mpr hmem
  exact hperm.eq_of_pairwise (fun _ _ _ _ hlt hgt => absurd hgt (lt_asymm hlt)) hj hi

/-- A component is listed for the node that it begins with. -/
theorem mem_components (c : List Nat) : c ∈ s.components ↔
    ∃ i < s.size, componentOf s.reachRows i = c ∧ c.head? = some i := by
  simp only [components, List.mem_filterMap, List.mem_range, Option.ite_none_right_eq_some,
    Option.some.injEq]
  constructor
  · rintro ⟨i, hi, hhead, rfl⟩
    exact ⟨i, hi, rfl, hhead⟩
  · rintro ⟨i, hi, rfl, hhead⟩
    exact ⟨i, hi, hhead, rfl⟩

/-- Components that share a node are listed for the same node. -/
theorem pairwise_disjoint_components (s : Subgraph) :
    s.components.Pairwise List.Disjoint := by
  refine List.Pairwise.filterMap _ ?_ (List.nodup_range (n := s.size))
  intro i j hne a ha b hb k hka hkb
  simp only [Option.ite_none_right_eq_some, Option.some.injEq] at ha hb
  obtain ⟨hi, rfl⟩ := ha
  obtain ⟨hj, rfl⟩ := hb
  rw [← componentOf_eq hka, componentOf_eq hkb, hj] at hi
  exact hne (Option.some.inj hi).symm

/-- The nodes of a part whose edges stay within it are split into its components. -/
theorem isSplit_components (hbounded : ∀ i j, s.Edge i j → j < s.size) :
    s.IsSplit s.components := by
  have hnodup : s.components.flatten.Nodup := by
    refine List.nodup_flatten.mpr ⟨?_, pairwise_disjoint_components s⟩
    intro c hc
    obtain ⟨i, -, rfl, -⟩ := (mem_components c).mp hc
    exact (pairwise_componentOf s.reachRows i).imp ne_of_lt
  have hstay : ∀ i j, i < s.size → ReflTransGen s.Edge i j → j < s.size := by
    intro i j hi hpath
    rcases ReflTransGen.cases_tail hpath with rfl | ⟨k, -, hedge⟩
    · exact hi
    · exact hbounded k j hedge
  constructor
  · refine (List.perm_ext_iff_of_nodup hnodup List.nodup_range).mpr fun i => ?_
    rw [List.mem_flatten, List.mem_range]
    constructor
    · rintro ⟨c, hc, hi⟩
      obtain ⟨j, -, rfl, -⟩ := (mem_components c).mp hc
      exact ((mem_componentOf j i).mp hi).1
    · intro hi
      -- the component of `i` is listed for the node that it begins with
      have hself : i ∈ componentOf s.reachRows i :=
        (mem_componentOf i i).mpr ⟨hi, ReflTransGen.refl, ReflTransGen.refl⟩
      obtain ⟨first, rest, heq⟩ := List.exists_cons_of_ne_nil (List.ne_nil_of_mem hself)
      have hfirst : first ∈ componentOf s.reachRows i := heq ▸ List.mem_cons_self
      refine ⟨_, (mem_components _).mpr ⟨first, ((mem_componentOf i first).mp hfirst).1,
        componentOf_eq hfirst, ?_⟩, hself⟩
      rw [heq, List.head?_cons]
  · intro c hc
    obtain ⟨i, hi, rfl, hhead⟩ := (mem_components c).mp hc
    refine ⟨(pairwise_componentOf s.reachRows i).imp ne_of_lt, ?_, ?_⟩
    · exact List.ne_nil_of_mem (List.mem_of_head? hhead)
    · intro j hj k
      obtain ⟨hsize, -⟩ := (mem_componentOf i j).mp hj
      rw [← componentOf_eq hj, mem_componentOf]
      constructor
      · rintro ⟨-, hboth⟩
        exact hboth
      · intro hboth
        exact ⟨hstay j k hsize hboth.1, hboth⟩

end Subgraph

end VariableOrder
