import Mathlib.Logic.Relation
import VariableOrder.Order.Emit
import VariableOrder.Proofs.Graph.Build
import VariableOrder.Proofs.Order.Reachability

/-!
# Orders of nodes as arrangements of definitions

The orders of the nodes of a built graph in which every node is ready in its turn are the
arrangements of the definitions, read through the numbers of the nodes. So the ordering yields an
arrangement exactly when no definition requires itself.
-/

set_option autoImplicit false

namespace VariableOrder

open Relation (TransGen)

namespace Definition

/-- The definitions at some positions of a list. -/
def atPositions (definitions : List Definition) (positions : List Nat) : List Definition :=
  positions.filterMap fun i => definitions[i]?

/-- All positions together hold all definitions. -/
theorem atPositions_range (definitions : List Definition) :
    atPositions definitions (List.range definitions.length) = definitions := by
  induction definitions using List.reverseRecOn with
  | nil => rfl
  | append_singleton l d ih =>
    have hinit : atPositions (l ++ [d]) (List.range l.length) =
        atPositions l (List.range l.length) := by
      apply List.filterMap_congr
      intro i hi
      rw [List.getElem?_append_left (List.mem_range.mp hi)]
    rw [List.length_append, List.length_singleton, List.range_succ]
    unfold atPositions at hinit ih ⊢
    rw [List.filterMap_append, hinit, ih]
    simp

/-- All positions in some order give all definitions. -/
theorem atPositions_perm {definitions : List Definition} {positions : List Nat}
    (h : positions.Perm (List.range definitions.length)) :
    (atPositions definitions positions).Perm definitions := by
  have hperm := h.filterMap fun i => definitions[i]?
  rwa [← atPositions, ← atPositions, atPositions_range] at hperm

/-- What is read off the definitions at some positions can be read off the positions. -/
theorem map_atPositions {β : Type} {definitions : List Definition} {f : Definition → β}
    {value : Nat → β} (hvalue : ∀ i d, definitions[i]? = some d → value i = f d)
    {positions : List Nat} (hpositions : ∀ i ∈ positions, i < definitions.length) :
    (atPositions definitions positions).map f = positions.map value := by
  induction positions with
  | nil => rfl
  | cons i rest ih =>
    have hd := List.getElem?_eq_getElem (hpositions i List.mem_cons_self)
    have hrest := ih fun j hj => hpositions j (List.mem_cons_of_mem i hj)
    unfold atPositions at hrest ⊢
    rw [List.filterMap_cons_some hd, List.map_cons, List.map_cons, hrest, hvalue i _ hd]

end Definition

namespace Graph

open Definition (declared atPositions)

variable {definitions : List Definition} {g : Graph}

/-- A number of a node is a position in declaration order. -/
theorem lt_length_declared_iff (h : build definitions = .ok g) (i : Nat) :
    i < (declared definitions).length ↔ i < g.size := by
  rw [(Definition.declared_perm definitions).length_eq, size_of_build h]

/-- An order of all nodes in which each was ready in its turn is an arrangement. -/
theorem isArrangement_of_stepwise (h : build definitions = .ok g) {order : List Nat}
    (hperm : order.Perm (List.range g.size)) (hready : Stepwise g.IsReady order) :
    Definition.IsArrangement definitions (atPositions (declared definitions) order) := by
  have hdeclared := Definition.declared_perm definitions
  constructor
  · rw [size_of_build h, ← hdeclared.length_eq] at hperm
    exact (Definition.atPositions_perm hperm).trans hdeclared
  · intro before d after heq referenced hmem hrefers
    obtain ⟨front, back, rfl, hfront, hback⟩ := List.filterMap_eq_append_iff.mp heq
    obtain ⟨skipped, j, rest, rfl, hskipped, hj, -⟩ := List.filterMap_eq_cons_iff.mp hback
    obtain ⟨i, hi⟩ := List.mem_iff_getElem?.mp (hdeclared.mem_iff.mpr hmem)
    have hedge : g.Edge i j := (edge_of_build h i j).mpr ⟨referenced, d, hi, hj, hrefers⟩
    have hbefore := (hready (front ++ skipped) j rest (by simp)).2.2 i hedge
    rcases List.mem_append.mp hbefore with hin | hin
    · exact hfront ▸ List.mem_filterMap.mpr ⟨i, hin, hi⟩
    · rw [hskipped i hin] at hi
      exact absurd hi (by simp)

/-- Every arrangement is an order of all nodes in which each is ready in its turn. -/
theorem exists_stepwise_of_isArrangement (h : build definitions = .ok g)
    {arrangement : List Definition}
    (harrangement : Definition.IsArrangement definitions arrangement) :
    ∃ order : List Nat, order.Perm (List.range g.size) ∧ Stepwise g.IsReady order ∧
      atPositions (declared definitions) order = arrangement := by
  have hdeclared := Definition.declared_perm definitions
  have hnodup := Definition.nodup_declared (build_eq_ok_iff.mp h).1
  let number := Definition.position (declared definitions)
  have hat : ∀ d ∈ definitions, (declared definitions)[number d]? = some d := fun d hd =>
    Definition.getElem?_position hnodup (hdeclared.mem_iff.mpr hd)
  have hperm : (arrangement.map number).Perm (List.range g.size) := by
    rw [size_of_build h, ← hdeclared.length_eq, ← Definition.map_position hnodup]
    exact (harrangement.perm.trans hdeclared.symm).map number
  refine ⟨arrangement.map number, hperm, ?_, ?_⟩
  · intro before j after heq
    obtain ⟨front, back, rfl, rfl, hback⟩ := List.map_eq_append_iff.mp heq
    obtain ⟨d, rest, rfl, rfl, rfl⟩ := List.map_eq_cons_iff.mp hback
    have hmem : d ∈ definitions := harrangement.perm.mem_iff.mp (by simp)
    have hnew := hperm.nodup_iff.mpr List.nodup_range
    rw [heq] at hnew
    refine ⟨?_, ?_, ?_⟩
    · rw [← lt_length_declared_iff h]
      exact (List.getElem?_eq_some_iff.mp (hat d hmem)).1
    · intro hin
      exact List.disjoint_of_nodup_append hnew hin List.mem_cons_self
    · intro i hedge
      obtain ⟨a, b, ha, hb, hrefers⟩ := (edge_of_build h i (number d)).mp hedge
      obtain rfl : d = b := Option.some.inj ((hat d hmem).symm.trans hb)
      have hdef : a ∈ definitions := hdeclared.mem_iff.mp (List.mem_of_getElem? ha)
      have hbefore := harrangement.follows front d rest rfl a hdef hrefers
      exact Definition.position_eq hnodup ha ▸ List.mem_map_of_mem hbefore
  · unfold atPositions
    rw [List.filterMap_map]
    have hsome := (List.filterMap_eq_map_iff_forall_eq_some (g := id)).mpr fun d hd =>
      hat d (harrangement.perm.mem_iff.mp hd)
    rwa [List.map_id] at hsome

/-- A path between nodes is a path between their definitions. -/
theorem transGen_requires_of_edge (h : build definitions = .ok g) {i j : Nat}
    (hpath : TransGen g.Edge i j) :
    ∃ a b, (declared definitions)[i]? = some a ∧ (declared definitions)[j]? = some b ∧
      TransGen (Definition.Requires definitions) a b := by
  have hdeclared := Definition.declared_perm definitions
  have hstep : ∀ i j, g.Edge i j → ∃ a b, (declared definitions)[i]? = some a ∧
      (declared definitions)[j]? = some b ∧ Definition.Requires definitions a b := by
    intro i j hedge
    obtain ⟨a, b, ha, hb, hrefers⟩ := (edge_of_build h i j).mp hedge
    exact ⟨a, b, ha, hb, hdeclared.mem_iff.mp (List.mem_of_getElem? ha),
      hdeclared.mem_iff.mp (List.mem_of_getElem? hb), hrefers⟩
  induction hpath with
  | single hedge =>
    obtain ⟨a, b, ha, hb, hrequires⟩ := hstep i _ hedge
    exact ⟨a, b, ha, hb, TransGen.single hrequires⟩
  | tail _ hedge ih =>
    obtain ⟨a, m, ha, hm, hreach⟩ := ih
    obtain ⟨m', b, hm', hb, hrequires⟩ := hstep _ _ hedge
    obtain rfl : m = m' := Option.some.inj (hm.symm.trans hm')
    exact ⟨a, b, ha, hb, hreach.tail hrequires⟩

/-- A path between definitions is a path between their nodes. -/
theorem transGen_edge_of_requires (h : build definitions = .ok g) {a b : Definition}
    (hpath : TransGen (Definition.Requires definitions) a b) {i j : Nat}
    (hi : (declared definitions)[i]? = some a) (hj : (declared definitions)[j]? = some b) :
    TransGen g.Edge i j := by
  have hdeclared := Definition.declared_perm definitions
  induction hpath generalizing j with
  | single hrequires =>
    exact TransGen.single ((edge_of_build h i j).mpr ⟨_, _, hi, hj, hrequires.2.2⟩)
  | tail _ hrequires ih =>
    obtain ⟨k, hk⟩ := List.mem_iff_getElem?.mp (hdeclared.mem_iff.mpr hrequires.1)
    exact (ih hk).tail ((edge_of_build h k j).mpr ⟨_, _, hk, hj, hrequires.2.2⟩)

/-- No definition requires itself exactly when the graph has no cycle. -/
theorem acyclic_of_build (h : build definitions = .ok g) :
    Definition.Acyclic definitions ↔ ∀ i, ¬ TransGen g.Edge i i := by
  constructor
  · intro hacyclic i hcycle
    obtain ⟨a, b, ha, hb, hreach⟩ := transGen_requires_of_edge h hcycle
    obtain rfl : a = b := Option.some.inj (ha.symm.trans hb)
    exact hacyclic a hreach
  · intro hacyclic d hcycle
    have hmem : d ∈ definitions := by
      obtain ⟨b, -, hlast⟩ := TransGen.tail'_iff.mp hcycle
      exact hlast.2.1
    obtain ⟨i, hi⟩ := List.mem_iff_getElem?.mp
      ((Definition.declared_perm definitions).mem_iff.mpr hmem)
    exact hacyclic i (transGen_edge_of_requires h hcycle hi hi)

end Graph

end VariableOrder
