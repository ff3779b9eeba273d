import Mathlib.Logic.Function.Iterate
import VariableOrder.Graph.Builder
import VariableOrder.Proofs.Expression.Text
import VariableOrder.Proofs.Graph.Build

/-!
# References in a graph

Whatever a definition refers to is accounted for by its node: declared names are its dependencies,
all others are its unknown names, and no name is both. A builder adds one warning for each unknown
name of a node that nobody provides, in the order of the nodes and then of the names. It does so
each time it builds the graph, and it adds nothing if there is no graph.
-/

set_option autoImplicit false

namespace VariableOrder

/-- The needs of a definition fall into those that are declared and those that are unknown. -/
structure Definition.SplitsNeeds (declared : List String) (d : Definition)
    (dependencies unknown : List String) : Prop where
  perm : (dependencies ++ unknown).Perm d.needs
  mem_dependencies : ∀ name, name ∈ dependencies ↔ d.RefersTo name ∧ name ∈ declared
  mem_unknown : ∀ name, name ∈ unknown ↔ d.RefersTo name ∧ name ∉ declared

/-- Whether a warning comes before another one: it is about an earlier node, or about a smaller
name of the same node. -/
def Warning.Precedes (g : Graph) (a b : Warning) : Prop :=
  ∃ i j, g.index? a.dependent = some i ∧ g.index? b.dependent = some j ∧
    (i < j ∨ i = j ∧ a.reference < b.reference)

/-- The warnings that the unknown names of a graph call for, each once and in order. -/
structure Graph.Warns (g : Graph) (external : List String) (warnings : List Warning) : Prop where
  mem_iff : ∀ w, w ∈ warnings ↔ ∃ n ∈ g.nodes, w.dependent = n.name ∧ w.reference ∈ n.unknown ∧
    w.reference ∉ external ∧ w.reference ∉ providedNames
  pairwise : warnings.Pairwise (Warning.Precedes g)

/-- A definition of well-formed values is well-formed. -/
theorem Definition.wellFormed_ofValues {values : List Expr} (h : ∀ v ∈ values, v.WellFormed)
    (name : String) (sourceOrder : Int) (isStatic : Bool) (condition : Option String) :
    (ofValues name values sourceOrder isStatic condition).WellFormed := by
  intro c hc
  obtain ⟨v, hv, rfl⟩ := List.mem_map.mp hc
  dsimp only at hv ⊢
  split_ifs at hv
  · rw [List.mem_singleton.mp hv]
    exact Expr.wellFormed_ofText ""
  · exact h v hv

/-- Definitions of well-formed expressions are well-formed. -/
theorem Definition.wellFormed_ofSpecs {specs : List (String × Expr)}
    (h : ∀ s ∈ specs, s.2.WellFormed) (staticNames : List String) :
    ∀ d ∈ ofSpecs specs staticNames, d.WellFormed := by
  intro d hd
  obtain ⟨⟨⟨name, value⟩, i⟩, hspec, rfl⟩ := List.mem_map.mp hd
  apply wellFormed_ofValues
  simpa using h _ (List.fst_mem_of_mem_zipIdx hspec)

namespace Graph

open Definition (declared position?)

variable {definitions : List Definition} {g : Graph}

/-- A node is the node of the definition at its place. -/
theorem getElem?_of_build (h : build definitions = .ok g) {i : Nat} {d : Definition}
    (hd : (declared definitions)[i]? = some d) :
    g.nodes[i]? = some (Definition.node (declared definitions) d) := by
  obtain ⟨-, -, rfl⟩ := build_eq_ok_iff.mp h
  simp [List.getElem?_map, hd]

/-- The number of a name is the place of its definition. -/
theorem index?_of_build (h : build definitions = .ok g) {i : Nat} {d : Definition}
    (hd : (declared definitions)[i]? = some d) : g.index? d.name = some i := by
  have hnode := getElem?_of_build h hd
  rw [← name_of_build h hd]
  exact (wellFormed_of_build h).index?_name (List.getElem?_eq_some_iff.mp hnode).1

/-- Exactly the names of definitions have a position. -/
theorem isSome_position?_iff (h : (definitions.map (·.name)).Nodup) (name : String) :
    (position? (declared definitions) name).isSome ↔ name ∈ definitions.map (·.name) := by
  rw [Option.isSome_iff_exists, ← ((Definition.declared_perm definitions).map _).mem_iff]
  constructor
  · rintro ⟨i, hi⟩
    obtain ⟨d, hd, rfl⟩ := (position?_eq_some_iff h name i).mp hi
    exact List.mem_map_of_mem (List.mem_of_getElem? hd)
  · intro hname
    obtain ⟨d, hd, rfl⟩ := List.mem_map.mp hname
    obtain ⟨i, hi⟩ := List.mem_iff_getElem?.mp hd
    exact ⟨i, (position?_eq_some_iff h d.name i).mpr ⟨d, hi, rfl⟩⟩

/-- The dependencies of a node are the declared ones among the needs of its definition. -/
theorem dependenciesOf?_of_build (h : build definitions = .ok g) {i : Nat} {d : Definition}
    (hd : (declared definitions)[i]? = some d) :
    ∃ dependencies, g.dependenciesOf? d.name = some dependencies ∧ dependencies.Perm
      (d.needs.filter fun name => (position? (declared definitions) name).isSome) := by
  have hnodup := (build_eq_ok_iff.mp h).1
  let found := d.needs.filterMap (position? (declared definitions))
  have hdependencies : g.predecessorsOf i = found.mergeSort (· ≤ ·) := by
    simp only [predecessorsOf, getElem?_of_build h hd]
    rfl
  refine ⟨(found.mergeSort (· ≤ ·)).map g.name, ?_, ?_⟩
  · simp only [dependenciesOf?, index?_of_build h hd, Option.map_some, hdependencies]
  · refine ((List.mergeSort_perm found _).map g.name).trans (List.Perm.of_eq ?_)
    rw [List.map_filterMap, ← List.filterMap_eq_filter]
    -- a position is that of the name it was found for
    apply List.filterMap_congr
    intro name _
    cases hposition : position? (declared definitions) name with
    | none => simp [hposition, Option.guard]
    | some j =>
      obtain ⟨a, ha, rfl⟩ := (position?_eq_some_iff hnodup name j).mp hposition
      simp [hposition, Option.guard, name_of_build h ha]

/-- A node accounts for all that its definition refers to. -/
theorem splitsNeeds_of_build (h : build definitions = .ok g) {i : Nat} {d : Definition}
    (hd : (declared definitions)[i]? = some d) :
    ∃ n dependencies, g.nodes[i]? = some n ∧ n.name = d.name ∧
      g.dependenciesOf? d.name = some dependencies ∧
      d.SplitsNeeds (definitions.map (·.name)) dependencies n.unknown := by
  have hnodup := (build_eq_ok_iff.mp h).1
  obtain ⟨dependencies, hdependencies, hperm⟩ := dependenciesOf?_of_build h hd
  refine ⟨_, dependencies, getElem?_of_build h hd, rfl, hdependencies, ?_, ?_, ?_⟩
  · have hunknown : (Definition.node (declared definitions) d).unknown =
        d.needs.filter fun name => !(position? (declared definitions) name).isSome := by
      simp only [Definition.node, Definition.nodeOf, Option.not_isSome]
    rw [hunknown]
    exact (hperm.append_right _).trans (List.filter_append_perm _ d.needs)
  · intro name
    rw [hperm.mem_iff, List.mem_filter, Definition.mem_needs_iff, isSome_position?_iff hnodup]
  · intro name
    simp only [Definition.node, Definition.nodeOf, List.mem_filter, Definition.mem_needs_iff,
      ← isSome_position?_iff hnodup, Option.isNone_iff_eq_none, Option.not_isSome_iff_eq_none]

/-- A node is warned about exactly the unknown names that nothing provides. -/
theorem mem_nodeWarnings (external : List String) (n : Node) (w : Warning) :
    w ∈ nodeWarnings external n ↔ w.dependent = n.name ∧ w.reference ∈ n.unknown ∧
      w.reference ∉ external ∧ w.reference ∉ providedNames := by
  obtain ⟨dependent, reference⟩ := w
  simp only [nodeWarnings, List.mem_map, List.mem_filter, Bool.and_eq_true, Bool.not_eq_true',
    List.contains_eq_mem, decide_eq_false_iff_not, Warning.mk.injEq]
  constructor
  · rintro ⟨name, hname, rfl, rfl⟩
    exact ⟨rfl, hname⟩
  · rintro ⟨rfl, hname⟩
    exact ⟨reference, hname, rfl, rfl⟩

/-- The warnings of a graph are those that its unknown names call for. -/
theorem warns_of_build (h : build definitions = .ok g) (external : List String) :
    g.Warns external (g.warnings external) := by
  constructor
  · intro w
    simp only [warnings, List.mem_flatMap, mem_nodeWarnings]
  have hindex : ∀ {i : Nat} {n : Node}, g.nodes[i]? = some n → g.index? n.name = some i := by
    intro i n hn
    rw [← name_eq hn]
    exact (wellFormed_of_build h).index?_name (List.getElem?_eq_some_iff.mp hn).1
  -- two warnings are about the same node, whose unknown names ascend, or about two nodes in order
  rw [warnings, List.pairwise_flatMap]
  constructor
  · intro n hn
    obtain ⟨i, hi⟩ := List.mem_iff_getElem?.mp hn
    have hunknown : n.unknown.Pairwise (· < ·) := by
      obtain ⟨-, -, rfl⟩ := build_eq_ok_iff.mp h
      obtain ⟨d, -, rfl⟩ := List.mem_map.mp hn
      exact (Text.pairwise_sortedNames _).filter _
    rw [nodeWarnings, List.pairwise_map]
    refine (hunknown.filter _).imp ?_
    intro a b hab
    exact ⟨i, i, hindex hi, hindex hi, .inr ⟨rfl, hab⟩⟩
  · rw [List.pairwise_iff_getElem]
    intro i j hi hj hlt a ha b hb
    have hindexi := hindex (List.getElem?_eq_getElem hi)
    have hindexj := hindex (List.getElem?_eq_getElem hj)
    rw [← ((mem_nodeWarnings _ _ _).mp ha).1] at hindexi
    rw [← ((mem_nodeWarnings _ _ _).mp hb).1] at hindexj
    exact ⟨i, j, hindexi, hindexj, .inl hlt⟩

end Graph

namespace GraphBuilder

variable {b : GraphBuilder} {g : Graph}

/-- A build that succeeds adds the warnings of its graph to those so far. -/
theorem build_of_ok (h : Graph.build b.definitions = .ok g) :
    b.build = (.ok g, { b with warnings := b.warnings ++ g.warnings b.external }) := by
  simp only [build, Graph.build_workers, h]

/-- A build that fails changes nothing. -/
theorem build_of_error {f : BuildFailure} (h : Graph.build b.definitions = .error f) :
    b.build = (.error f, b) := by
  simp only [build, Graph.build_workers, h]

/-- Building again and again adds the same warnings each time. -/
theorem iterate_build_of_ok (h : Graph.build b.definitions = .ok g) (times : Nat) :
    (fun b : GraphBuilder => b.build.2)^[times] b =
      { b with warnings :=
          b.warnings ++ (List.replicate times (g.warnings b.external)).flatten } := by
  induction times generalizing b with
  | zero => simp
  | succ times ih =>
    let next : GraphBuilder := { b with warnings := b.warnings ++ g.warnings b.external }
    have hnext : b.build.2 = next := by rw [build_of_ok h]
    rw [Function.iterate_succ_apply, hnext, ih (b := next) h]
    simp [next, List.replicate_succ]

/-- The graph that a builder builds has a node for each definition, which accounts for all that
the definition refers to. Each time it is built the warnings that it calls for are added behind
those so far, and nothing else changes; definitions without a graph change nothing at all. -/
theorem build_accounts (b : GraphBuilder) :
    (∀ g, b.build.1 = .ok g →
      g.size = b.definitions.length ∧
      (∀ (i : Nat) (d : Definition), (Definition.declared b.definitions)[i]? = some d →
        ∃ n dependencies, g.nodes[i]? = some n ∧ n.name = d.name ∧
          g.dependenciesOf? d.name = some dependencies ∧
          d.SplitsNeeds (b.definitions.map (·.name)) dependencies n.unknown) ∧
      ∃ new, g.Warns b.external new ∧
        ∀ times : Nat, (fun b : GraphBuilder => b.build.2)^[times] b =
          { b with warnings := b.warnings ++ (List.replicate times new).flatten }) ∧
    ∀ f, b.build.1 = .error f → b.build.2 = b := by
  cases hbuild : Graph.build b.definitions with
  | ok g =>
    rw [build_of_ok hbuild]
    refine ⟨?_, fun f hf => absurd hf (by simp)⟩
    intro other hother
    obtain rfl := Except.ok.inj hother
    exact ⟨Graph.size_of_build hbuild, fun i d hd => Graph.splitsNeeds_of_build hbuild hd,
      g.warnings b.external, Graph.warns_of_build hbuild b.external, iterate_build_of_ok hbuild⟩
  | error f =>
    rw [build_of_error hbuild]
    exact ⟨fun g hg => absurd hg (by simp), fun _ _ => rfl⟩

/-- Two variables that refer to each other, to a provided name and to unknown ones are accounted
for, whatever was warned about before; a repeated name leaves the earlier warnings alone. -/
theorem build_accounts_mutual :
    let once := Definition.ofSpecs [("first", .ofText "$second/$lost"),
      ("second", .ofText "$first $USER_NAME $host")] []
    let b : GraphBuilder := ⟨once, ["host"], [⟨"old", "gone"⟩], some 2⟩
    let twice : GraphBuilder := ⟨once ++ once, ["host"], [⟨"old", "gone"⟩], none⟩
    (∃ g, b.build.1 = .ok g ∧ g.size = 2 ∧ ∃ new, g.Warns ["host"] new ∧
      b.build.2.warnings = ⟨"old", "gone"⟩ :: new) ∧
    ∃ f, twice.build.1 = .error f ∧ twice.build.2 = twice := by
  intro once b twice
  refine ⟨?_, ?_⟩
  · have hwellFormed : ∀ d ∈ once, d.WellFormed := by
      refine Definition.wellFormed_ofSpecs ?_ []
      simp [Expr.wellFormed_ofText]
    let g : Graph := ⟨(Definition.declared once).map (Definition.node (Definition.declared once))⟩
    have hg : Graph.build b.definitions = .ok g :=
      Graph.build_eq_ok_iff.mpr ⟨by decide, hwellFormed, rfl⟩
    have hbuild : b.build.1 = .ok g := by rw [build_of_ok hg]
    obtain ⟨hsize, -, new, hwarns, hiterate⟩ := (build_accounts b).1 g hbuild
    refine ⟨g, hbuild, hsize, new, hwarns, ?_⟩
    have hone : b.build.2.warnings = b.warnings ++ new := by
      simpa using congrArg GraphBuilder.warnings (hiterate 1)
    exact hone
  · have hrepeated : ¬ (twice.definitions.map (·.name)).Nodup := by decide
    obtain ⟨name, first, second, hduplicate⟩ := Graph.build_of_not_nodup hrepeated
    have hbuild : twice.build.1 = .error (.duplicate name first second) := by
      rw [build_of_error hduplicate]
    exact ⟨_, hbuild, (build_accounts twice).2 _ hbuild⟩

end GraphBuilder

end VariableOrder
