import Mathlib.Data.Fintype.Order
import Mathlib.Logic.Relation
import VariableOrder.Proofs.Order.Progress

/-!
# What can not be ordered

A node is blocked when it lies on a cycle or can be reached from one along edges. The ordering of
a well-formed graph emits exactly the nodes that are not blocked: an emitted node has no cycle
behind it, because what it needs was emitted before it, and every node that is left needs another
one that is left, so going back along needs never ends and must come round.
-/

set_option autoImplicit false

namespace VariableOrder.Graph

open Relation (ReflTransGen TransGen)

variable {g : Graph}

/-- Whether a node lies on a cycle or can be reached from one. -/
def Blocked (g : Graph) (node : Nat) : Prop :=
  ∃ c, TransGen g.Edge c c ∧ ReflTransGen g.Edge c node

/-- Everything from which an emitted node can be reached was emitted before it. -/
theorem mem_before_of_transGen {order : List Nat} (h : Stepwise g.IsReady order) {i j : Nat}
    (hpath : TransGen g.Edge i j) :
    ∀ before after, order = before ++ j :: after → i ∈ before := by
  induction hpath with
  | single hedge =>
    intro before after heq
    exact (h before _ after heq).2.2 i hedge
  | @tail m k _ hedge ih =>
    intro before after heq
    have hmem := (h before k after heq).2.2 m hedge
    obtain ⟨front, back, rfl⟩ := List.append_of_mem hmem
    exact List.mem_append_left _ (ih front (back ++ k :: after) (by simp [heq]))

/-- A node that was emitted is not blocked. -/
theorem not_blocked_of_mem {order : List Nat} (h : Stepwise g.IsReady order) {node : Nat}
    (hnode : node ∈ order) : ¬ g.Blocked node := by
  rintro ⟨c, hcycle, hreach⟩
  have hc : c ∈ order := by
    induction hreach with
    | refl => exact hnode
    | tail _ hedge ih => exact ih (mem_of_edge_of_stepwise h hedge hnode)
  obtain ⟨before, after, heq⟩ := List.append_of_mem hc
  exact (h before c after heq).2.1 (mem_before_of_transGen h hcycle before after heq)

/-- When no further node is ready, a node that was not emitted is blocked. -/
theorem blocked_of_not_mem {order : List Nat} (hg : g.WellFormed)
    (hdone : ∀ node, ¬ g.IsReady order node) {node : Nat} (hsize : node < g.size)
    (hnode : node ∉ order) : g.Blocked node := by
  by_contra hfree
  -- the nodes behind `node` that were not emitted; paths among them never come round
  let Left := { i : Fin g.size // i.val ∉ order ∧ ReflTransGen g.Edge i.val node }
  let before : Left → Left → Prop := fun a b => TransGen g.Edge a.1.val b.1.val
  have htrans : IsTrans Left before := ⟨fun _ _ _ hab hbc => hab.trans hbc⟩
  have hirrefl : Std.Irrefl before := ⟨fun a hcycle => hfree ⟨a.1.val, hcycle, a.2.2⟩⟩
  have hwf : WellFounded before := Finite.wellFounded_of_trans_of_irrefl before
  obtain ⟨least, -, hleast⟩ := hwf.has_min Set.univ
    ⟨(⟨⟨node, hsize⟩, hnode, ReflTransGen.refl⟩ : Left), trivial⟩
  obtain ⟨⟨m, hm⟩, hmnot, hmreach⟩ := least
  -- the least of them is not ready, so something it needs was not emitted either
  have hneeds : ∃ i, g.Edge i m ∧ i ∉ order := by
    by_contra hnone
    refine hdone m ⟨hm, hmnot, fun i hedge => ?_⟩
    by_contra hi
    exact hnone ⟨i, hedge, hi⟩
  obtain ⟨i, hedge, hi⟩ := hneeds
  exact hleast ⟨⟨i, (hg.edge_lt hedge).1⟩, hi, ReflTransGen.head hedge hmreach⟩ trivial
    (TransGen.single hedge)

namespace WellFormed

/-- The emitted nodes of a graph were ready in their turn. -/
theorem stepwise_isReady_emittedNodes (h : g.WellFormed) : Stepwise g.IsReady g.emittedNodes :=
  h.stepwise_emittedNodes.imp fun _ _ hfirst => hfirst.1

/-- Blocked nodes are nodes of the graph. -/
theorem lt_size_of_blocked (h : g.WellFormed) {node : Nat} (hblocked : g.Blocked node) :
    node < g.size := by
  obtain ⟨c, hcycle, hreach⟩ := hblocked
  obtain ⟨b, -, hlast⟩ := TransGen.tail'_iff.mp (hcycle.trans_left hreach)
  exact (h.edge_lt hlast).2

/-- Exactly the nodes that are not blocked are emitted. -/
theorem mem_emittedNodes_iff (h : g.WellFormed) (node : Nat) :
    node ∈ g.emittedNodes ↔ node < g.size ∧ ¬ g.Blocked node := by
  constructor
  · intro hmem
    exact ⟨lt_size_of_stepwise h.stepwise_isReady_emittedNodes hmem,
      not_blocked_of_mem h.stepwise_isReady_emittedNodes hmem⟩
  · rintro ⟨hsize, hfree⟩
    by_contra hnot
    exact hfree (blocked_of_not_mem h h.not_isReady_emittedNodes hsize hnot)

/-- What is left over are the blocked nodes. -/
theorem mem_remainder_iff (h : g.WellFormed) (node : Nat) :
    node ∈ g.remainder ↔ g.Blocked node := by
  unfold remainder
  simp only [List.mem_filter, List.mem_range, Bool.not_eq_true', List.contains_eq_mem,
    decide_eq_false_iff_not, h.mem_emittedNodes_iff]
  constructor
  · rintro ⟨hsize, hnot⟩
    by_contra hfree
    exact hnot ⟨hsize, hfree⟩
  · intro hblocked
    exact ⟨h.lt_size_of_blocked hblocked, fun hand => hand.2 hblocked⟩

/-- All nodes are emitted exactly when there is no cycle. -/
theorem length_emittedNodes_iff (h : g.WellFormed) :
    g.emittedNodes.length = g.size ↔ ∀ node, ¬ TransGen g.Edge node node := by
  have hnodup := nodup_of_stepwise h.stepwise_isReady_emittedNodes
  have hsub : g.emittedNodes ⊆ List.range g.size := fun node hnode =>
    List.mem_range.mpr ((h.mem_emittedNodes_iff node).mp hnode).1
  have hsubperm := List.subperm_of_subset hnodup hsub
  constructor
  · intro hlength node hcycle
    have hperm := hsubperm.perm_of_length_le (by simp [hlength])
    have hblocked : g.Blocked node := ⟨node, hcycle, ReflTransGen.refl⟩
    have hmem := hperm.mem_iff.mpr (List.mem_range.mpr (h.lt_size_of_blocked hblocked))
    exact ((h.mem_emittedNodes_iff node).mp hmem).2 hblocked
  · intro hacyclic
    refine Nat.le_antisymm (by simpa using hsubperm.length_le) ?_
    have hsuper : List.range g.size ⊆ g.emittedNodes := by
      intro node hnode
      refine (h.mem_emittedNodes_iff node).mpr ⟨List.mem_range.mp hnode, ?_⟩
      rintro ⟨c, hcycle, -⟩
      exact hacyclic c hcycle
    simpa using (List.subperm_of_subset List.nodup_range hsuper).length_le

end WellFormed

end VariableOrder.Graph
