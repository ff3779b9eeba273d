import Mathlib.Data.List.Lex
import Mathlib.Data.Prod.Lex
import VariableOrder.Proofs.Order.Resolution

/-!
# The least arrangement

Always emitting the first ready node gives the least order of all. Where another order of the
nodes departs from it for the first time, both nodes were ready, so the other order goes on with a
later node. Nodes are declared in the order of the ranks of their definitions, so the order of a
graph is the least arrangement of its definitions when arrangements are compared by rank, member by
member.
-/

set_option autoImplicit false

namespace VariableOrder

namespace Graph

variable {g : Graph}

/-- Of two orders that agree so far, the one that goes on with the first ready nodes is the other
one or less than it. -/
theorem lt_or_eq_of_first_ready {K : Type} [LinearOrder K] {key : Nat → K}
    (hkey : ∀ i j, g.Before i j → i < g.size → j < g.size → key i < key j) {order other : List Nat}
    (horder : Stepwise g.IsFirstReady order) (hother : Stepwise g.IsReady other) :
    ∀ rest before back, order = before ++ rest → other = before ++ back →
      rest.length = back.length → rest.map key < back.map key ∨ rest = back := by
  intro rest
  induction rest with
  | nil =>
    intro before back _ _ hlength
    exact .inr (List.length_eq_zero_iff.mp hlength.symm).symm
  | cons i rest ih =>
    intro before back hrest hback hlength
    cases back with
    | nil => simp at hlength
    | cons j back =>
      have hi := horder before i rest hrest
      have hj := hother before j back hback
      rcases hi.2 j hj with rfl | hbefore
      · rcases ih (before ++ [j]) back (by simp [hrest]) (by simp [hback])
          (by simpa using hlength) with hlt | heq
        · left
          rw [List.map_cons, List.map_cons, List.cons_lt_cons_iff]
          exact .inr ⟨rfl, hlt⟩
        · exact .inr (by rw [heq])
      · left
        rw [List.map_cons, List.map_cons, List.cons_lt_cons_iff]
        exact .inl (hkey i j hbefore hi.1.1 hj.1)

/-- The rank of the definition of a node. -/
def rankAt (definitions : List Definition) (i : Nat) : Int ×ₗ Nat :=
  ((Definition.declared definitions)[i]?).elim (toLex (0, i)) (Definition.rank definitions)

/-- A node that is declared before another one has the definition of lower rank. -/
theorem rankAt_lt_rankAt {definitions : List Definition} (h : build definitions = .ok g) (i j : Nat)
    (hbefore : g.Before i j) (hi : i < g.size) (hj : j < g.size) :
    rankAt definitions i < rankAt definitions j := by
  rw [← lt_length_declared_iff h] at hi hj
  have hdi := List.getElem?_eq_getElem hi
  have hdj := List.getElem?_eq_getElem hj
  simp only [rankAt, hdi, hdj, Option.elim]
  rcases Prod.Lex.toLex_lt_toLex.mp hbefore with hplace | ⟨-, hlt⟩
  · simp only [sourceOrder_of_build h hdi, sourceOrder_of_build h hdj] at hplace
    exact Prod.Lex.toLex_lt_toLex.mpr (.inl hplace)
  · -- at the same place the numbers of nodes tell the positions, as the sort is stable
    have hranks := Definition.pairwise_rank_declared (build_eq_ok_iff.mp h).1
    exact List.pairwise_iff_getElem.mp hranks i j hi hj hlt

end Graph

/-- The graph of well-formed definitions with distinct names, none of which requires itself, is
ordered into the least arrangement: every other arrangement goes on with a definition of greater
rank where it departs from it. -/
theorem order_eq_least_arrangement (definitions : List Definition)
    (hwellFormed : ∀ d ∈ definitions, d.WellFormed)
    (hdistinct : (definitions.map (·.name)).Nodup) (hacyclic : Definition.Acyclic definitions) :
    ∃ g arrangement, Graph.build definitions = .ok g ∧
      g.order = .ok (arrangement.map (·.name)) ∧
      Definition.IsArrangement definitions arrangement ∧
      ∀ other, Definition.IsArrangement definitions other →
        arrangement.map (Definition.rank definitions) < other.map (Definition.rank definitions) ∨
          arrangement = other := by
  obtain ⟨g, hbuild⟩ := exists_graph hdistinct hwellFormed
  have hg := Graph.wellFormed_of_build hbuild
  obtain ⟨hperm, horder⟩ := Graph.order_of_acyclic hbuild hacyclic
  refine ⟨g, _, hbuild, horder,
    Graph.isArrangement_of_stepwise hbuild hperm hg.stepwise_isReady_emittedNodes, ?_⟩
  intro other hother
  obtain ⟨positions, hpositions, hready, rfl⟩ :=
    Graph.exists_stepwise_of_isArrangement hbuild hother
  have hread : ∀ order : List Nat, order.Perm (List.range g.size) →
      (Definition.atPositions (Definition.declared definitions) order).map
        (Definition.rank definitions) = order.map (Graph.rankAt definitions) := by
    intro order hall
    refine Definition.map_atPositions (fun i d hd => by simp only [Graph.rankAt, hd, Option.elim])
      fun i hi => ?_
    exact (Graph.lt_length_declared_iff hbuild i).mpr (List.mem_range.mp (hall.mem_iff.mp hi))
  rw [hread g.emittedNodes hperm, hread positions hpositions]
  rcases Graph.lt_or_eq_of_first_ready (Graph.rankAt_lt_rankAt hbuild) hg.stepwise_emittedNodes
    hready g.emittedNodes [] positions rfl rfl (hperm.trans hpositions.symm).length_eq with
    hlt | heq
  · exact .inl hlt
  · exact .inr (by rw [heq])

/-- Of two definitions that are declared at the same place the one that stands first has to wait
for the other, and a third one is declared before both. -/
theorem order_eq_least_arrangement_tied :
    let definitions :=
      [Definition.ofValues "waiting" [.reference ⟨"tied", false, "tied"⟩] 0 false none,
        Definition.ofValues "tied" [] 0 false none, Definition.ofValues "early" [] (-1) true none]
    (∀ d ∈ definitions, d.WellFormed) ∧ (definitions.map (·.name)).Nodup ∧
      Definition.Acyclic definitions ∧
      ∃ g arrangement, Graph.build definitions = .ok g ∧
        g.order = .ok (arrangement.map (·.name)) ∧
        Definition.IsArrangement definitions arrangement ∧
        ∀ other, Definition.IsArrangement definitions other →
          arrangement.map (Definition.rank definitions) < other.map (Definition.rank definitions) ∨
            arrangement = other := by
  intro definitions
  have hwellFormed : ∀ d ∈ definitions, d.WellFormed := by
    simp only [← Definition.firstUnsupported_eq_none_iff]
    decide
  have hdistinct : (definitions.map (·.name)).Nodup := by decide
  have hacyclic : Definition.Acyclic definitions := by
    have honly : ∀ a ∈ definitions, ∀ b ∈ definitions, a.name ∈ b.needs →
        a.name = "tied" ∧ b.name = "waiting" := by decide
    have hrequires : ∀ a b, Definition.Requires definitions a b →
        a.name = "tied" ∧ b.name = "waiting" := by
      rintro a b ⟨ha, hb, hrefers⟩
      exact honly a ha b hb ((Definition.mem_needs_iff b a.name).mpr hrefers)
    intro d hcycle
    obtain ⟨b, hfirst, -⟩ := Relation.TransGen.head'_iff.mp hcycle
    obtain ⟨c, -, hlast⟩ := Relation.TransGen.tail'_iff.mp hcycle
    have hname := (hrequires d b hfirst).1
    rw [(hrequires c d hlast).2] at hname
    exact absurd hname (by decide)
  exact ⟨hwellFormed, hdistinct, hacyclic,
    order_eq_least_arrangement definitions hwellFormed hdistinct hacyclic⟩

end VariableOrder
