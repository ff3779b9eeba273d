import Mathlib.Data.List.Find
import VariableOrder.Proofs.Expression.Renaming
import VariableOrder.Proofs.Order.Embedding
import VariableOrder.Proofs.Order.Numbering

/-!
# Orders of renamed definitions

Names tell variables apart, and nothing else is read off them: when different names stay different,
the renamed definitions are declared in the same order and refer to each other in the same way. So
their graph has the nodes of the graph, at the same places and under the new names, and whatever
comes out of building and ordering it is what came out before with all names renamed.
-/

set_option autoImplicit false

namespace VariableOrder

variable {f : String → String}

/-- The failure with its variable renamed. -/
def BuildFailure.rename (f : String → String) : BuildFailure → BuildFailure
  | .duplicate name first second => .duplicate (f name) first second
  | .unsupported raw => .unsupported raw

/-- The deadlock with all its variables renamed. -/
def Deadlock.rename (f : String → String) (d : Deadlock) : Deadlock :=
  ⟨d.names.map f, d.cycles.map (List.map f)⟩

namespace Definition

/-- Renaming keeps the order of declaration. -/
theorem declared_rename (definitions : List Definition) :
    declared (definitions.map (rename f)) = (declared definitions).map (rename f) := by
  unfold declared
  rw [List.map_mergeSort (s := fun a b => a.sourceOrder ≤ b.sourceOrder)]
  intro a _ b _
  rfl

/-- The first repetition of a name is found where it was. -/
theorem firstDuplicate_rename (seen rest : List Definition)
    (hinj : Set.InjOn f {name | name ∈ (seen ++ rest).map (·.name)}) :
    firstDuplicate (seen.map (rename f)) (rest.map (rename f)) =
      (firstDuplicate seen rest).map fun found => (f found.1, found.2) := by
  induction rest generalizing seen with
  | nil => rfl
  | cons d rest ih =>
    have hfind : (seen.map (rename f)).find? (fun e => e.name == (d.rename f).name) =
        (seen.find? fun e => e.name == d.name).map (rename f) := by
      rw [List.find?_map]
      congr 1
      apply List.find?_congr
      intro e he
      have hsame : f e.name = f d.name ↔ e.name = d.name := by
        refine hinj.eq_iff ?_ ?_
        · exact List.mem_map_of_mem (List.mem_append_left _ he)
        · exact List.mem_map_of_mem (List.mem_append_right _ List.mem_cons_self)
      rw [Function.comp_apply, Bool.eq_iff_iff, beq_iff_eq, beq_iff_eq]
      exact hsame
    rw [List.map_cons]
    unfold firstDuplicate
    rw [hfind]
    cases seen.find? fun e => e.name == d.name with
    | some e => rfl
    | none =>
      have hrest := ih (seen ++ [d]) (by simpa using hinj)
      rw [List.map_append, List.map_singleton] at hrest
      exact hrest

end Definition

namespace Graph

open Definition (declared Mentions)
open Relation (TransGen)

variable {definitions : List Definition} {g : Graph}

/-- A graph with the same edges and the same order of declaration under other names is ordered in
the same way. -/
theorem Embeds.orderBy_eq {renamed : Graph} (h : g.Embeds renamed id) (hg : g.WellFormed)
    (hrenamed : renamed.WellFormed) (hsize : renamed.size = g.size)
    (hname : ∀ i < g.size, renamed.name i = f (g.name i))
    {subgraph : Graph → List Nat → Subgraph} {components : Subgraph → List (List Nat)}
    (hpart : ∀ graph ∈ [g, renamed],
      (subgraph graph graph.remainder).IsInduced graph graph.remainder)
    (hsplit : ∀ graph ∈ [g, renamed],
      (subgraph graph graph.remainder).IsSplit (components (subgraph graph graph.remainder))) :
    renamed.orderBy subgraph components =
      ((g.orderBy subgraph components).map (List.map f)).mapError (Deadlock.rename f) := by
  have hplaced : ∀ nodes : List Nat, (∀ i ∈ nodes, i < renamed.size) →
      nodes.filter (g.placed id) = nodes := by
    intro nodes hnodes
    refine List.filter_eq_self.mpr fun i hi => (placed_iff id i).mpr ⟨i, ?_, rfl⟩
    exact hsize ▸ hnodes i hi
  have hnames : ∀ nodes : List Nat, (∀ i ∈ nodes, i < g.size) →
      nodes.map renamed.name = (nodes.map g.name).map f := by
    intro nodes hnodes
    rw [List.map_map]
    exact List.map_congr_left fun i hi => hname i (hnodes i hi)
  have hlt : ∀ graph : Graph, graph.WellFormed → ∀ i ∈ graph.emittedNodes, i < graph.size :=
    fun graph hgraph _ => lt_size_of_firstReady hgraph.stepwise_emittedNodes
  have hemitted := h.map_emittedNodes hg hrenamed
  rw [List.map_id, hplaced _ (hlt renamed hrenamed)] at hemitted
  have hremainder := h.map_remainder hg hrenamed
  rw [List.map_id, hplaced _ renamed.lt_size_of_mem_byDeclaration] at hremainder
  have hcycles := h.map_cyclesAmong hg hrenamed hpart hsplit
  rw [List.map_id_fun, List.map_id] at hcycles
  by_cases hcycle : ∃ i, TransGen g.Edge i i
  · have hblocked := (orderBy_eq_error_iff hg subgraph components _).mpr ⟨hcycle, rfl⟩
    have hblocked' := (orderBy_eq_error_iff hrenamed subgraph components _).mpr
      ⟨(h.exists_cycle_iff hg).mpr hcycle, rfl⟩
    have hcyclesNames : (g.cyclesAmong subgraph components g.remainder).map
        (List.map renamed.name) = ((g.cyclesAmong subgraph components g.remainder).map
          (List.map g.name)).map (List.map f) := by
      rw [List.map_map]
      refine List.map_congr_left fun cycle hmem => hnames cycle fun i hi => ?_
      exact hg.lt_size_of_mem_cycle (hpart g (by simp)) (hsplit g (by simp)) hmem hi
    rw [hblocked, hblocked', ← hremainder, ← hcycles, hnames _ g.lt_size_of_mem_byDeclaration,
      hcyclesNames]
    rfl
  · have hordered := (orderBy_eq_ok_iff hg subgraph components _).mpr ⟨hcycle, rfl⟩
    have hordered' := (orderBy_eq_ok_iff hrenamed subgraph components _).mpr
      ⟨mt (h.exists_cycle_iff hg).mp hcycle, rfl⟩
    rw [hordered, hordered', ← hemitted, hnames _ (hlt g hg)]
    rfl

variable (hinj : Set.InjOn f {name | Mentions definitions name})

include hinj

/-- The first repeated name of renamed definitions is the renamed one of the definitions, at the
same places. -/
theorem firstDuplicate_declared_rename :
    Definition.firstDuplicate [] (declared (definitions.map (Definition.rename f))) =
      (Definition.firstDuplicate [] (declared definitions)).map
        fun found => (f found.1, found.2) := by
  rw [Definition.declared_rename]
  refine Definition.firstDuplicate_rename [] _ (hinj.mono ?_)
  intro name hname
  exact .inl ((((Definition.declared_perm definitions).map (·.name)).mem_iff).mp hname)

/-- Renamed definitions have no graph for the same reason. -/
theorem build_rename_of_error {failure : BuildFailure} (h : build definitions = .error failure) :
    build (definitions.map (Definition.rename f)) = .error (failure.rename f) := by
  have hduplicate := firstDuplicate_declared_rename hinj
  have hunsupported :
      (declared (definitions.map (Definition.rename f))).findSome? Definition.firstUnsupported =
        (declared definitions).findSome? Definition.firstUnsupported := by
    rw [Definition.declared_rename, List.findSome?_map]
    simp only [Function.comp_def, Definition.firstUnsupported_rename]
  rw [build_eq] at h ⊢
  simp only [hduplicate, hunsupported] at h ⊢
  cases hfound : Definition.firstDuplicate [] (declared definitions) with
  | some found =>
    simp only [hfound, Option.map_some, Except.error.injEq] at h ⊢
    rw [← h]
    rfl
  | none =>
    simp only [hfound, Option.map_none] at h ⊢
    cases hraw : (declared definitions).findSome? Definition.firstUnsupported with
    | some raw =>
      simp only [hraw, Except.error.injEq] at h ⊢
      rw [← h]
      rfl
    | none => simp only [hraw, reduceCtorEq] at h

/-- Renamed definitions have a graph as well. It has the nodes of the graph, at the same places and
under the new names. -/
theorem exists_build_rename (h : build definitions = .ok g) :
    ∃ renamed, build (definitions.map (Definition.rename f)) = .ok renamed ∧
      renamed.size = g.size ∧ g.Embeds renamed id ∧
      ∀ i < g.size, renamed.name i = f (g.name i) := by
  obtain ⟨hnodup, hwellFormed, -⟩ := build_eq_ok_iff.mp h
  have hdeclares : ∀ d ∈ definitions, Mentions definitions d.name := fun d hd =>
    .inl (List.mem_map_of_mem hd)
  have hnames : ((definitions.map (Definition.rename f)).map (·.name)).Nodup := by
    rw [List.map_map]
    refine List.Nodup.map_on ?_ hnodup.of_map
    intro d hd e he heq
    exact List.inj_on_of_nodup_map hnodup hd he
      (hinj (hdeclares d hd) (hdeclares e he) heq)
  have hwellFormed' : ∀ d ∈ definitions.map (Definition.rename f), d.WellFormed := by
    intro d hd
    obtain ⟨old, hold, rfl⟩ := List.mem_map.mp hd
    rw [← Definition.firstUnsupported_eq_none_iff, Definition.firstUnsupported_rename,
      Definition.firstUnsupported_eq_none_iff]
    exact hwellFormed old hold
  obtain ⟨renamed, hrenamed⟩ := exists_graph hnames hwellFormed'
  have hsize : renamed.size = g.size := by
    rw [size_of_build hrenamed, size_of_build h, List.length_map]
  have hdeclared : ∀ i : Nat, (declared (definitions.map (Definition.rename f)))[i]? =
      (declared definitions)[i]?.map (Definition.rename f) := by
    intro i
    rw [Definition.declared_rename, List.getElem?_map]
  have hat : ∀ i < g.size, ∃ d, (declared definitions)[i]? = some d := fun i hi =>
    ⟨_, List.getElem?_eq_getElem ((lt_length_declared_iff h i).mpr hi)⟩
  have hat' : ∀ (i : Nat) (d : Definition), (declared definitions)[i]? = some d →
      (declared (definitions.map (Definition.rename f)))[i]? = some (d.rename f) := by
    intro i d hd
    rw [hdeclared, hd, Option.map_some]
  have hmem : ∀ (i : Nat) (d : Definition), (declared definitions)[i]? = some d →
      d ∈ definitions := fun i d hd =>
    (Definition.declared_perm definitions).mem_iff.mp (List.mem_of_getElem? hd)
  refine ⟨renamed, hrenamed, hsize, ⟨?_, ?_, ?_, ?_⟩, ?_⟩
  · intro i hi
    rwa [hsize]
  · intro i hi j hj hbefore
    rw [(wellFormed_of_build h).before_iff_lt hi hj] at hbefore
    exact ((wellFormed_of_build hrenamed).before_iff_lt (hsize ▸ hi) (hsize ▸ hj)).mpr hbefore
  · intro i hi j hj
    obtain ⟨a, ha⟩ := hat i hi
    obtain ⟨b, hb⟩ := hat j hj
    change renamed.Edge i j ↔ g.Edge i j
    rw [edge_of_build hrenamed, edge_of_build h, hat' i a ha, hat' j b hb, ha, hb]
    simp only [Option.some.injEq, exists_and_left, exists_eq_left', Definition.name_rename,
      Definition.refersTo_rename_iff]
    constructor
    · rintro ⟨old, hrefers, heq⟩
      have hold : Mentions definitions old := .inr ⟨b, hmem j b hb, hrefers⟩
      exact hinj hold (hdeclares a (hmem i a ha)) heq ▸ hrefers
    · intro hrefers
      exact ⟨a.name, hrefers, rfl⟩
  · intro a b hedge
    exact ⟨a, hsize ▸ ((wellFormed_of_build hrenamed).edge_lt hedge).1, rfl⟩
  · intro i hi
    obtain ⟨d, hd⟩ := hat i hi
    rw [name_of_build hrenamed (hat' i d hd), name_of_build h hd, Definition.name_rename]

end Graph

/-- If different names stay different, then the renamed definitions are built and ordered as the
definitions are: with the same order, the same deadlock or the same failure, in which all names are
renamed and nothing else is changed. -/
theorem orderBy_build_rename (definitions : List Definition) (f : String → String)
    (hinj : Set.InjOn f {name | Definition.Mentions definitions name})
    (subgraph : Graph → List Nat → Subgraph) (components : Subgraph → List (List Nat))
    (hpart : ∀ (whole : Graph) (nodes : List Nat), nodes.Nodup →
      (∀ i ∈ nodes, i < whole.size) → (subgraph whole nodes).IsInduced whole nodes)
    (hsplit : ∀ s : Subgraph, (∀ i j, s.Edge i j → j < s.size) → s.IsSplit (components s)) :
    (∀ failure, Graph.build definitions = .error failure →
      Graph.build (definitions.map (Definition.rename f)) = .error (failure.rename f)) ∧
    ∀ g, Graph.build definitions = .ok g → ∃ renamed,
      Graph.build (definitions.map (Definition.rename f)) = .ok renamed ∧
        renamed.orderBy subgraph components =
          ((g.orderBy subgraph components).map (List.map f)).mapError (Deadlock.rename f) := by
  refine ⟨fun failure => Graph.build_rename_of_error hinj, fun g hbuild => ?_⟩
  obtain ⟨renamed, hrenamed, hsize, hembeds, hname⟩ := Graph.exists_build_rename hinj hbuild
  have hpart' : ∀ graph ∈ [g, renamed],
      (subgraph graph graph.remainder).IsInduced graph graph.remainder := by
    simp only [List.forall_mem_cons, List.not_mem_nil, false_implies, implies_true, and_true]
    exact ⟨hpart g _ g.nodup_remainder g.lt_size_of_mem_remainder,
      hpart renamed _ renamed.nodup_remainder renamed.lt_size_of_mem_remainder⟩
  have hsplit' : ∀ graph ∈ [g, renamed], (subgraph graph graph.remainder).IsSplit
      (components (subgraph graph graph.remainder)) :=
    fun graph hgraph => hsplit _ (hpart' graph hgraph).bounded
  exact ⟨renamed, hrenamed, hembeds.orderBy_eq (Graph.wellFormed_of_build hbuild)
    (Graph.wellFormed_of_build hrenamed) hsize hname hpart' hsplit'⟩

/-- Two variables that need each other change names, so each stands where the other one stood. -/
theorem orderBy_build_rename_swapped :
    let definitions := Definition.ofSpecs
      [("ab", .reference ⟨"ba", false, "ba"⟩), ("ba", .reference ⟨"ab", false, "ab"⟩),
        ("behind", .template "" [.reference ⟨"ab", false, ""⟩, .reference ⟨"ab", true, ""⟩])] []
    let g : Graph := ⟨[⟨"ab", 0, [1], []⟩, ⟨"ba", 1, [0], []⟩, ⟨"behind", 2, [0], []⟩]⟩
    let turned (name : String) : String := String.ofList name.toList.reverse
    Set.InjOn turned {name | Definition.Mentions definitions name} ∧
      (∀ (whole : Graph) (nodes : List Nat), nodes.Nodup → (∀ i ∈ nodes, i < whole.size) →
        (Graph.subgraph whole nodes).IsInduced whole nodes) ∧
      (∀ s : Subgraph, (∀ i j, s.Edge i j → j < s.size) → s.IsSplit s.components) ∧
      Graph.build definitions = .ok g ∧
      g.order = .error ⟨["ab", "ba", "behind"], [["ab", "ba"]]⟩ ∧
      ∃ renamed, Graph.build (definitions.map (Definition.rename turned)) = .ok renamed ∧
        renamed.order = .error ⟨["ba", "ab", "dniheb"], [["ba", "ab"]]⟩ := by
  intro definitions g turned
  have hinj : Set.InjOn turned {name | Definition.Mentions definitions name} := by
    intro a _ b _ heq
    have hreversed : a.toList.reverse = b.toList.reverse := String.ofList_injective heq
    exact String.toList_injective (List.reverse_injective hreversed)
  have hpart : ∀ (whole : Graph) (nodes : List Nat), nodes.Nodup →
      (∀ i ∈ nodes, i < whole.size) → (Graph.subgraph whole nodes).IsInduced whole nodes :=
    fun whole nodes _ _ => Graph.isInduced_subgraph whole nodes
  have hsplit : ∀ s : Subgraph, (∀ i j, s.Edge i j → j < s.size) → s.IsSplit s.components :=
    fun _ => Subgraph.isSplit_components
  have hbuild : Graph.build definitions = .ok g := by
    have hordered := Definition.declared_eq_self definitions (by decide)
    refine Graph.build_eq_ok_of_found hordered (by decide) ?_ (by decide +kernel) (by decide)
    simp only [← Definition.firstUnsupported_eq_none_iff]
    decide
  have horder : g.order = .error ⟨["ab", "ba", "behind"], [["ab", "ba"]]⟩ := by
    have hg := Graph.wellFormed_of_build hbuild
    have hemitted : g.emittedNodes = [] := by
      rw [Graph.emittedNodes, hg.start_eq]
      decide +kernel
    rw [hg.order_eq_error (by rw [hemitted]; decide), Graph.remainder, hemitted]
    decide +kernel
  obtain ⟨renamed, hrenamed, hsame⟩ := (orderBy_build_rename definitions turned hinj Graph.subgraph
    Subgraph.components hpart hsplit).2 g hbuild
  refine ⟨hinj, hpart, hsplit, hbuild, horder, renamed, hrenamed, ?_⟩
  rw [Graph.order, hsame, ← Graph.order, horder]
  decide +kernel

end VariableOrder
