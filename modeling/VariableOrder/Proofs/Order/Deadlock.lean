import VariableOrder.Proofs.Order.Numbering

/-!
# What a deadlock says

A graph that can not be ordered yields a deadlock. It names exactly the variables on a cycle and
those behind one, and its cycles are exactly the strongly connected components of the whole graph
that have a cycle. All of them are listed once and in the order of declaration. Everything is said
about names and the edges between them, as the deadlock itself is.
-/

set_option autoImplicit false

namespace VariableOrder.Graph

open Relation (ReflTransGen TransGen)

/-- Whether the variable with the second name needs the variable with the first. -/
def NameEdge (g : Graph) (referenced dependent : String) : Prop :=
  g.hasEdge referenced dependent = true

/-- Whether the variable with the first name is declared before the one with the second. -/
def DeclaredBefore (g : Graph) (first second : String) : Prop :=
  ∃ i j, g.index? first = some i ∧ g.index? second = some j ∧ g.Before i j

variable {g : Graph}

/-- No name is declared before itself. -/
theorem DeclaredBefore.ne {a b : String} (h : g.DeclaredBefore a b) : a ≠ b := by
  rintro rfl
  obtain ⟨i, j, hi, hj, hbefore⟩ := h
  obtain rfl : i = j := Option.some.inj (hi.symm.trans hj)
  exact lt_irrefl _ hbefore

/-- Each node that can not be ordered remains once. -/
theorem nodup_remainder (g : Graph) : g.remainder.Nodup :=
  List.nodup_range.filter _

/-- What remains are nodes of the graph. -/
theorem lt_size_of_mem_remainder (g : Graph) (i : Nat) (hi : i ∈ g.remainder) : i < g.size :=
  List.mem_range.mp (List.mem_of_mem_filter hi)

/-- What remains are nodes of the graph, also in the order of declaration. -/
theorem lt_size_of_mem_byDeclaration (g : Graph) (i : Nat)
    (hi : i ∈ g.byDeclaration g.remainder) : i < g.size :=
  g.lt_size_of_mem_remainder i ((byDeclaration_perm _).mem_iff.mp hi)

namespace WellFormed

/-- The names label the nodes of a graph. -/
theorem isLabelling_name (h : g.WellFormed) : IsLabelling g.Edge g.size g.NameEdge g.name where
  bounded _ _ := h.edge_lt
  injective _ hi _ hj := h.name_inj hi hj
  edges := by
    intro i hi name
    unfold NameEdge
    rw [h.hasEdge_iff]
    constructor
    · rintro ⟨k, j, hk, rfl, hedge⟩
      exact ⟨j, h.name_inj (h.edge_lt hedge).1 hi hk ▸ hedge, rfl⟩
    · rintro ⟨j, hedge, rfl⟩
      exact ⟨i, j, rfl, rfl, hedge⟩

/-- An edge between names starts at a node. -/
theorem exists_name_of_nameEdge (h : g.WellFormed) (a b : String) (hedge : g.NameEdge a b) :
    ∃ i < g.size, g.name i = a := by
  obtain ⟨i, j, rfl, -, hij⟩ := (h.hasEdge_iff a b).mp hedge
  exact ⟨i, (h.edge_lt hij).1, rfl⟩

/-- Nodes in the order of declaration have their names in that order. -/
theorem declaredBefore_name (h : g.WellFormed) (i : Nat) (hi : i < g.size) (j : Nat)
    (hj : j < g.size) (hbefore : g.Before i j) : g.DeclaredBefore (g.name i) (g.name j) :=
  ⟨i, j, h.index?_name hi, h.index?_name hj,
    hbefore⟩

/-- A cycle of names is a cycle of nodes. -/
theorem exists_node_of_cycle (h : g.WellFormed) {name : String}
    (hcycle : TransGen g.NameEdge name name) :
    ∃ i < g.size, g.name i = name ∧ TransGen g.Edge i i := by
  obtain ⟨b, hedge, -⟩ := TransGen.head'_iff.mp hcycle
  obtain ⟨i, hi, rfl⟩ := h.exists_name_of_nameEdge name b hedge
  exact ⟨i, hi, rfl, (h.isLabelling_name.transGen_iff hi).mp hcycle⟩

/-- A node is blocked when its name lies on a cycle of names or can be reached from one. -/
theorem blocked_iff_name (h : g.WellFormed) {i : Nat} (hi : i < g.size) :
    g.Blocked i ↔ ∃ c, TransGen g.NameEdge c c ∧ ReflTransGen g.NameEdge c (g.name i) := by
  have hlabel := h.isLabelling_name
  constructor
  · rintro ⟨k, hcycle, hreach⟩
    have hk := hlabel.lt_of_transGen hcycle
    exact ⟨g.name k, (hlabel.transGen_iff hk).mpr hcycle,
      (hlabel.reflTransGen_iff hk hi).mpr hreach⟩
  · rintro ⟨c, hcycle, hreach⟩
    obtain ⟨k, hk, rfl, hnode⟩ := h.exists_node_of_cycle hcycle
    exact ⟨k, hnode, (hlabel.reflTransGen_iff hk hi).mp hreach⟩

/-- The nodes that can not be ordered have the names on a cycle or behind one. -/
theorem mem_names_remainder_iff (h : g.WellFormed) (name : String) :
    name ∈ (g.byDeclaration g.remainder).map g.name ↔
      ∃ c, TransGen g.NameEdge c c ∧ ReflTransGen g.NameEdge c name := by
  simp only [List.mem_map, (byDeclaration_perm g.remainder).mem_iff, h.mem_remainder_iff]
  constructor
  · rintro ⟨i, hi, rfl⟩
    exact (h.blocked_iff_name (h.lt_size_of_blocked hi)).mp hi
  · rintro ⟨c, hcycle, hreach⟩
    -- a path of names that starts at a node ends at one
    obtain ⟨k, hk, rfl, -⟩ := h.exists_node_of_cycle hcycle
    obtain ⟨i, hi, -, rfl⟩ := (h.isLabelling_name.reach hk name).mp hreach
    exact ⟨i, (h.blocked_iff_name hi).mpr ⟨_, hcycle, hreach⟩, rfl⟩

/-- The names of the nodes that can not be ordered are in the order of declaration. -/
theorem pairwise_names_remainder (h : g.WellFormed) :
    ((g.byDeclaration g.remainder).map g.name).Pairwise g.DeclaredBefore := by
  have hlt := g.lt_size_of_mem_byDeclaration
  rw [List.pairwise_map]
  exact (pairwise_byDeclaration (nodup_remainder g)).imp_of_mem fun hi hj =>
    h.declaredBefore_name _ (hlt _ hi) _ (hlt _ hj)

section Cycles

variable {subgraph : Graph → List Nat → Subgraph} {components : Subgraph → List (List Nat)}
  (hpart : (subgraph g g.remainder).IsInduced g g.remainder)
  (hsplit : (subgraph g g.remainder).IsSplit (components (subgraph g g.remainder)))

include hpart hsplit

/-- The cycles among the nodes that can not be ordered are the cycles of the graph. -/
theorem listsCycles_remainder (h : g.WellFormed) :
    ListsCycles g.Edge g.Before (g.cyclesAmong subgraph components g.remainder) := by
  refine listsCycles_cyclesAmong (nodup_remainder g) ?_ ?_ hpart hsplit
  · intro i j hi hedge
    rw [h.mem_remainder_iff] at hi ⊢
    obtain ⟨c, hcycle, hreach⟩ := hi
    exact ⟨c, hcycle, hreach.tail hedge⟩
  · intro i hcycle
    exact (h.mem_remainder_iff i).mpr ⟨i, hcycle, ReflTransGen.refl⟩

/-- The members of a cycle are nodes of the graph. -/
theorem lt_size_of_mem_cycle (h : g.WellFormed) {cycle : List Nat}
    (hcycle : cycle ∈ g.cyclesAmong subgraph components g.remainder) {i : Nat} (hi : i ∈ cycle) :
    i < g.size := by
  obtain ⟨hcomponent, hhas⟩ := (h.listsCycles_remainder hpart hsplit).sound cycle hcycle
  exact h.isLabelling_name.lt_of_transGen ((hcomponent.hasCycle_iff hi).mp hhas)

/-- The cycles among what remains are, by name, the cycles of the graph. -/
theorem listsCycles_names (h : g.WellFormed) :
    ListsCycles g.NameEdge g.DeclaredBefore
      ((g.cyclesAmong subgraph components g.remainder).map fun cycle => cycle.map g.name) := by
  refine h.isLabelling_name.listsCycles_map ?_ h.declaredBefore_name
    (h.listsCycles_remainder hpart hsplit)
  intro name hcycle
  obtain ⟨i, hi, hname, -⟩ := h.exists_node_of_cycle hcycle
  exact ⟨i, hi, hname⟩

end Cycles

end WellFormed

/-- A built graph with a cycle can not be ordered. The deadlock names exactly the variables on a
cycle or behind one, each once and in the order of declaration. -/
theorem order_deadlock_names {definitions : List Definition}
    (hbuild : build definitions = .ok g) (hcycle : ∃ name, TransGen g.NameEdge name name) :
    ∃ d, g.order = .error d ∧ d.names.Nodup ∧ d.names.Pairwise g.DeclaredBefore ∧
      ∀ name, name ∈ d.names ↔
        ∃ c, TransGen g.NameEdge c c ∧ ReflTransGen g.NameEdge c name := by
  have hg := wellFormed_of_build hbuild
  obtain ⟨name, hname⟩ := hcycle
  obtain ⟨i, -, -, hnode⟩ := hg.exists_node_of_cycle hname
  exact ⟨_, (orderBy_eq_error_iff hg subgraph Subgraph.components _).mpr ⟨⟨i, hnode⟩, rfl⟩,
    hg.pairwise_names_remainder.imp DeclaredBefore.ne, hg.pairwise_names_remainder,
    hg.mem_names_remainder_iff⟩

/-- A variable behind a cycle is named with it, and one that needs nothing is not. -/
theorem order_deadlock_names_behind :
    let definitions := Definition.ofSpecs
      [("free", .literal ""), ("behind", .reference ⟨"second", false, "second"⟩),
        ("first", .reference ⟨"second", false, "second"⟩),
        ("second", .reference ⟨"first", false, "first"⟩)] []
    let g : Graph := ⟨[⟨"free", 0, [], []⟩, ⟨"behind", 1, [3], []⟩, ⟨"first", 2, [3], []⟩,
      ⟨"second", 3, [2], []⟩]⟩
    build definitions = .ok g ∧ (∃ name, TransGen g.NameEdge name name) ∧
      g.order = .error ⟨["behind", "first", "second"], [["first", "second"]]⟩ ∧
      ["behind", "first", "second"].Pairwise g.DeclaredBefore ∧
      ∀ name, name ∈ ["behind", "first", "second"] ↔
        ∃ c, TransGen g.NameEdge c c ∧ ReflTransGen g.NameEdge c name := by
  intro definitions g
  have hbuild : build definitions = .ok g := by
    have hordered := Definition.declared_eq_self definitions (by decide)
    refine build_eq_ok_of_found hordered (by decide) ?_ (by decide +kernel) (by decide)
    simp only [← Definition.firstUnsupported_eq_none_iff]
    decide
  have hcycle : TransGen g.NameEdge "first" "first" := by
    have hto : g.NameEdge "first" "second" := by
      unfold NameEdge
      decide
    have hback : g.NameEdge "second" "first" := by
      unfold NameEdge
      decide
    exact (TransGen.single hto).tail hback
  have hevaluated : g.order = .error ⟨["behind", "first", "second"], [["first", "second"]]⟩ := by
    have hg := wellFormed_of_build hbuild
    have hemitted : g.emittedNodes = [0] := by
      rw [emittedNodes, hg.start_eq]
      decide +kernel
    rw [hg.order_eq_error (by rw [hemitted]; decide), remainder, hemitted]
    decide +kernel
  obtain ⟨d, horder, -, hdeclared, hmem⟩ := order_deadlock_names hbuild ⟨_, hcycle⟩
  obtain rfl := Except.error.inj (hevaluated.symm.trans horder)
  exact ⟨hbuild, ⟨_, hcycle⟩, hevaluated, hdeclared, hmem⟩

/-- With the part that is taken and the components that are found, the cycles of a deadlock are the
cycles of the graph. -/
theorem WellFormed.listsCycles_order (h : g.WellFormed) {d : Deadlock}
    (hfailed : g.order = .error d) : ListsCycles g.NameEdge g.DeclaredBefore d.cycles := by
  obtain ⟨-, rfl⟩ := (orderBy_eq_error_iff h subgraph Subgraph.components d).mp hfailed
  have hinduced := isInduced_subgraph g g.remainder
  exact h.listsCycles_names hinduced (Subgraph.isSplit_components hinduced.bounded)

/-- When a built graph can not be ordered, the cycles of the deadlock are exactly the strongly
connected components of the whole graph that have a cycle: there is at least one, every one is
listed completely and shares no variable with another, and both the members and the cycles are in
the order of declaration. The cycles are among the names of the deadlock, and every one of these
names can be reached from a cycle. -/
theorem orderBy_deadlock_cycles {definitions : List Definition} (hbuild : build definitions = .ok g)
    (subgraph : Graph → List Nat → Subgraph) (components : Subgraph → List (List Nat))
    (hpart : ∀ (whole : Graph) (nodes : List Nat), nodes.Nodup →
      (∀ i ∈ nodes, i < whole.size) → (subgraph whole nodes).IsInduced whole nodes)
    (hsplit : ∀ s : Subgraph, (∀ i j, s.Edge i j → j < s.size) → s.IsSplit (components s))
    (d : Deadlock) (hfailed : g.orderBy subgraph components = .error d) :
    d.cycles ≠ [] ∧
    (∀ cycle ∈ d.cycles, IsComponent g.NameEdge cycle ∧ HasCycle g.NameEdge cycle) ∧
    (∀ members, IsComponent g.NameEdge members → HasCycle g.NameEdge members →
      ∃ cycle ∈ d.cycles, cycle.Perm members) ∧
    d.cycles.Pairwise List.Disjoint ∧
    (∀ cycle ∈ d.cycles, cycle ⊆ d.names) ∧
    (∀ name ∈ d.names, ∃ cycle ∈ d.cycles, ∃ c ∈ cycle, ReflTransGen g.NameEdge c name) ∧
    (∀ cycle ∈ d.cycles, cycle.Pairwise g.DeclaredBefore) ∧
    d.cycles.Pairwise fun first second =>
      ∃ a b, first.head? = some a ∧ second.head? = some b ∧ g.DeclaredBefore a b := by
  have hg := wellFormed_of_build hbuild
  obtain ⟨⟨i, hnode⟩, rfl⟩ := (orderBy_eq_error_iff hg subgraph components d).mp hfailed
  have hinduced := hpart g g.remainder (nodup_remainder g) fun k hk =>
    hg.lt_size_of_blocked ((hg.mem_remainder_iff k).mp hk)
  have hcycles := hg.listsCycles_names hinduced (hsplit _ hinduced.bounded)
  refine ⟨?_, hcycles.sound, fun members => hcycles.exists_perm, hcycles.disjoint, ?_, ?_,
    hcycles.members, hcycles.groups⟩
  · have hi := hg.isLabelling_name.lt_of_transGen hnode
    obtain ⟨cycle, hcycle, -⟩ :=
      hcycles.complete (g.name i) ((hg.isLabelling_name.transGen_iff hi).mpr hnode)
    exact List.ne_nil_of_mem hcycle
  · intro cycle hcycle name hname
    obtain ⟨hcomponent, hhas⟩ := hcycles.sound cycle hcycle
    exact (hg.mem_names_remainder_iff name).mpr
      ⟨name, (hcomponent.hasCycle_iff hname).mp hhas, ReflTransGen.refl⟩
  · intro name hname
    obtain ⟨c, hcycle, hreach⟩ := (hg.mem_names_remainder_iff name).mp hname
    obtain ⟨cycle, hlisted, hmem⟩ := hcycles.complete c hcycle
    exact ⟨cycle, hlisted, c, hmem, hreach⟩

/-- A variable that needs itself and two that need each other are the cycles of their graph. -/
theorem orderBy_deadlock_cycles_two :
    let definitions := Definition.ofSpecs
      [("behind", .reference ⟨"second", false, "second"⟩),
        ("own", .reference ⟨"own", false, "own"⟩),
        ("first", .reference ⟨"second", false, "second"⟩),
        ("second", .reference ⟨"first", false, "first"⟩)] []
    let g : Graph := ⟨[⟨"behind", 0, [3], []⟩, ⟨"own", 1, [1], []⟩, ⟨"first", 2, [3], []⟩,
      ⟨"second", 3, [2], []⟩]⟩
    let cycles := [["own"], ["first", "second"]]
    build definitions = .ok g ∧
      (∀ (whole : Graph) (nodes : List Nat), nodes.Nodup → (∀ i ∈ nodes, i < whole.size) →
        (subgraph whole nodes).IsInduced whole nodes) ∧
      (∀ s : Subgraph, (∀ i j, s.Edge i j → j < s.size) → s.IsSplit s.components) ∧
      g.orderBy subgraph Subgraph.components =
        .error ⟨["behind", "own", "first", "second"], cycles⟩ ∧
      (∀ cycle ∈ cycles, IsComponent g.NameEdge cycle ∧ HasCycle g.NameEdge cycle) ∧
      ∀ members, IsComponent g.NameEdge members → HasCycle g.NameEdge members →
        ∃ cycle ∈ cycles, cycle.Perm members := by
  intro definitions g cycles
  have hbuild : build definitions = .ok g := by
    have hordered := Definition.declared_eq_self definitions (by decide)
    refine build_eq_ok_of_found hordered (by decide) ?_ (by decide +kernel) (by decide)
    simp only [← Definition.firstUnsupported_eq_none_iff]
    decide
  have hpart : ∀ (whole : Graph) (nodes : List Nat), nodes.Nodup →
      (∀ i ∈ nodes, i < whole.size) → (subgraph whole nodes).IsInduced whole nodes :=
    fun whole nodes _ _ => isInduced_subgraph whole nodes
  have hsplit : ∀ s : Subgraph, (∀ i j, s.Edge i j → j < s.size) → s.IsSplit s.components :=
    fun _ => Subgraph.isSplit_components
  have hfailed : g.orderBy subgraph Subgraph.components =
      .error ⟨["behind", "own", "first", "second"], cycles⟩ := by
    have hg := wellFormed_of_build hbuild
    have hemitted : g.emittedNodes = [] := by
      rw [emittedNodes, hg.start_eq]
      decide +kernel
    refine (hg.order_eq_error (by rw [hemitted]; decide)).trans ?_
    rw [remainder, hemitted]
    decide +kernel
  have hcycles := orderBy_deadlock_cycles hbuild subgraph Subgraph.components hpart hsplit _ hfailed
  exact ⟨hbuild, hpart, hsplit, hfailed, hcycles.2.1, hcycles.2.2.1⟩

end VariableOrder.Graph
