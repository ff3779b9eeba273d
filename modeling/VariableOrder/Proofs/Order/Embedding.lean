import VariableOrder.Proofs.Order.Deadlock

/-!
# Graphs within graphs

A graph can be found again within a larger one: every node has a place there, and the places have
the edges and the order of declaration of the nodes. When nothing in the larger graph needs a node
that is no place, the other nodes do not matter. Whatever is emitted between the places, a place is
ready exactly when its node is, so the places are emitted in the order of the nodes. When that comes
to a stop, the places that are left are those of the nodes that are left, and both graphs have the
same cycles.
-/

set_option autoImplicit false

namespace VariableOrder

open Relation (TransGen)

/-- If it is settled what comes next, then two sequences that can not be continued are the same. -/
theorem Stepwise.eq_of_maximal {α : Type} {P : List α → α → Prop}
    (hunique : ∀ before a b, P before a → P before b → a = b) {l other : List α}
    (h : Stepwise P l) (hother : Stepwise P other) (hend : ∀ a, ¬ P l a)
    (hend' : ∀ a, ¬ P other a) : l = other := by
  -- both sequences go on in the same way after any common beginning
  have hrest : ∀ rest before back, l = before ++ rest → other = before ++ back → rest = back := by
    intro rest
    induction rest with
    | nil =>
      rintro before (_ | ⟨b, back⟩) hl hback
      · rfl
      · rw [List.append_nil] at hl
        exact absurd (hother before b back hback) (hl ▸ hend b)
    | cons a rest ih =>
      rintro before (_ | ⟨b, back⟩) hl hback
      · rw [List.append_nil] at hback
        exact absurd (h before a rest hl) (hback ▸ hend' a)
      · obtain rfl := hunique before a b (h before a rest hl) (hother before b back hback)
        rw [ih (before ++ [a]) back (by simp [hl]) (by simp [hback])]
  exact hrest l [] other rfl rfl

namespace Graph

variable {g : Graph}

/-- Only one node is the first of the ready ones. -/
theorem IsFirstReady.unique {emitted : List Nat} {i j : Nat} (hi : g.IsFirstReady emitted i)
    (hj : g.IsFirstReady emitted j) : i = j := by
  rcases hi.2 j hj.1 with heq | hij
  · exact heq.symm
  · rcases hj.2 i hi.1 with heq | hji
    · exact heq
    · exact absurd hji hij.asymm

/-- What is emitted are nodes of the graph. -/
theorem lt_size_of_firstReady {order : List Nat} (h : Stepwise g.IsFirstReady order) {node : Nat}
    (hnode : node ∈ order) : node < g.size :=
  lt_size_of_stepwise (h.imp fun _ _ hfirst => hfirst.1) hnode

/-- Nodes are numbered in the order of declaration. -/
theorem WellFormed.before_iff_lt (h : g.WellFormed) {i j : Nat} (hi : i < g.size)
    (hj : j < g.size) : g.Before i j ↔ i < j := by
  have hlt : ∀ i j : Nat, j < g.size → i < j → g.Before i j := by
    intro i j hj hij
    have hplaces : g.sourceOrder i ≤ g.sourceOrder j := by
      have hni := List.getElem?_eq_getElem (show i < g.nodes.length from hij.trans hj)
      have hnj := List.getElem?_eq_getElem (show j < g.nodes.length from hj)
      simp only [sourceOrder, hni, hnj]
      exact List.pairwise_iff_getElem.mp h.declared i j _ _ hij
    refine before_of_ne ?_ (Nat.ne_of_lt hij)
    exact Prod.Lex.toLex_mono ⟨hplaces, hij.le⟩
  constructor
  · intro hbefore
    rcases lt_trichotomy i j with hij | rfl | hji
    · exact hij
    · exact absurd rfl hbefore.ne
    · exact absurd (hlt j i hi hji) hbefore.asymm
  · exact hlt i j hj

/-- Whether a node of another graph is the place of a node. -/
def placed (g : Graph) (place : Nat → Nat) (node : Nat) : Bool :=
  (List.range g.size).any fun i => place i == node

/-- Exactly the places of nodes are recognised as such. -/
theorem placed_iff (place : Nat → Nat) (node : Nat) :
    g.placed place node = true ↔ ∃ i < g.size, place i = node := by
  simp [placed]

/-- Whether the nodes of a graph have places in another one, with the same edges between them and in
the same order of declaration, and nothing else is needed there. -/
structure Embeds (g whole : Graph) (place : Nat → Nat) : Prop where
  lt_size : ∀ i < g.size, place i < whole.size
  before : ∀ i < g.size, ∀ j < g.size, g.Before i j → whole.Before (place i) (place j)
  edge_iff : ∀ i < g.size, ∀ j < g.size, whole.Edge (place i) (place j) ↔ g.Edge i j
  needed : ∀ a b, whole.Edge a b → ∃ i < g.size, place i = a

namespace Embeds

variable {whole : Graph} {place : Nat → Nat}

/-- Different nodes have different places. -/
theorem injective (h : g.Embeds whole place) {i j : Nat} (hi : i < g.size) (hj : j < g.size)
    (heq : place i = place j) : i = j := by
  by_contra hne
  rcases before_or_before (g := g) hne with hbefore | hbefore
  · exact (h.before i hi j hj hbefore).ne heq
  · exact (h.before j hj i hi hbefore).ne heq.symm

/-- Places are in the same order as their nodes. -/
theorem before_iff (h : g.Embeds whole place) {i j : Nat} (hi : i < g.size) (hj : j < g.size) :
    whole.Before (place i) (place j) ↔ g.Before i j := by
  constructor
  · intro hplaces
    have hne : i ≠ j := by
      rintro rfl
      exact hplaces.ne rfl
    rcases before_or_before (g := g) hne with hbefore | hbefore
    · exact hbefore
    · exact absurd (h.before j hj i hi hbefore) hplaces.asymm
  · exact h.before i hi j hj

/-- A node is among some nodes when its place is among their places. -/
theorem place_mem_map_iff (h : g.Embeds whole place) {nodes : List Nat}
    (hnodes : ∀ i ∈ nodes, i < g.size) {i : Nat} (hi : i < g.size) :
    place i ∈ nodes.map place ↔ i ∈ nodes := by
  constructor
  · intro hmem
    obtain ⟨j, hj, heq⟩ := List.mem_map.mp hmem
    exact h.injective (hnodes j hj) hi heq ▸ hj
  · exact List.mem_map_of_mem

section Emission

variable (hg : g.WellFormed) (h : g.Embeds whole place)

include hg h

/-- A place is ready exactly when its node is, whatever is emitted besides the places. -/
theorem isReady_place_iff {emitted others : List Nat} (hemitted : ∀ i ∈ emitted, i < g.size)
    (hplaces : emitted.map place = others.filter (g.placed place)) {i : Nat} (hi : i < g.size) :
    whole.IsReady others (place i) ↔ g.IsReady emitted i := by
  have hmem : ∀ j, j < g.size → (place j ∈ others ↔ j ∈ emitted) := by
    intro j hj
    rw [← h.place_mem_map_iff hemitted hj, hplaces, List.mem_filter, placed_iff]
    exact ⟨fun hin => ⟨hin, j, hj, rfl⟩, And.left⟩
  constructor
  · rintro ⟨-, hnew, hneeds⟩
    refine ⟨hi, mt (hmem i hi).mpr hnew, fun j hedge => ?_⟩
    have hj := (hg.edge_lt hedge).1
    exact (hmem j hj).mp (hneeds _ ((h.edge_iff j hj i hi).mpr hedge))
  · rintro ⟨-, hnew, hneeds⟩
    refine ⟨h.lt_size i hi, mt (hmem i hi).mp hnew, fun a hedge => ?_⟩
    -- all that a place needs is the place of something
    obtain ⟨j, hj, rfl⟩ := h.needed a _ hedge
    exact (hmem j hj).mpr (hneeds j ((h.edge_iff j hj i hi).mp hedge))

/-- The places among nodes that were the first ready ones are those of nodes that were. -/
theorem exists_stepwise {others : List Nat} (hothers : Stepwise whole.IsFirstReady others) :
    ∃ emitted, Stepwise g.IsFirstReady emitted ∧
      emitted.map place = others.filter (g.placed place) := by
  induction others using List.reverseRecOn with
  | nil => exact ⟨[], Stepwise.nil _, rfl⟩
  | append_singleton others node ih =>
    obtain ⟨hbefore, hnode⟩ := stepwise_concat.mp hothers
    obtain ⟨emitted, hemitted, hplaces⟩ := ih hbefore
    by_cases hplaced : g.placed place node = true
    · obtain ⟨i, hi, rfl⟩ := (placed_iff place node).mp hplaced
      have hlt : ∀ j ∈ emitted, j < g.size := fun _ => lt_size_of_firstReady hemitted
      refine ⟨emitted ++ [i], stepwise_concat.mpr ⟨hemitted, ?_, ?_⟩, ?_⟩
      · exact (h.isReady_place_iff hg hlt hplaces hi).mp hnode.1
      · intro other hother
        have hsize := hother.1
        rcases hnode.2 _ ((h.isReady_place_iff hg hlt hplaces hsize).mpr hother) with heq | hlater
        · exact .inl (h.injective hsize hi heq)
        · exact .inr ((h.before_iff hi hsize).mp hlater)
      · rw [List.map_append, hplaces, List.filter_append, List.filter_singleton, hplaced]
        rfl
    · refine ⟨emitted, hemitted, ?_⟩
      rw [Bool.not_eq_true] at hplaced
      rw [List.filter_append, List.filter_singleton, hplaced, hplaces]
      exact (List.append_nil _).symm

/-- The places are emitted in the order in which the nodes are. -/
theorem map_emittedNodes (hwhole : whole.WellFormed) :
    g.emittedNodes.map place = whole.emittedNodes.filter (g.placed place) := by
  obtain ⟨emitted, hemitted, hplaces⟩ := h.exists_stepwise hg hwhole.stepwise_emittedNodes
  have hlt : ∀ i ∈ emitted, i < g.size := fun _ => lt_size_of_firstReady hemitted
  have hend : ∀ i, ¬ g.IsReady emitted i := by
    intro i hready
    exact hwhole.not_isReady_emittedNodes _
      ((h.isReady_place_iff hg hlt hplaces hready.1).mpr hready)
  have hsame : emitted = g.emittedNodes := hemitted.eq_of_maximal
    (fun _ _ _ hi hj => hi.unique hj) hg.stepwise_emittedNodes (fun i hfirst => hend i hfirst.1)
    (fun i hfirst => hg.not_isReady_emittedNodes i hfirst.1)
  rw [← hsame, hplaces]

/-- The places that can not be ordered are those of the nodes that can not be ordered. -/
theorem map_remainder (hwhole : whole.WellFormed) : (g.byDeclaration g.remainder).map place =
    (whole.byDeclaration whole.remainder).filter (g.placed place) := by
  have hplaces := h.map_emittedNodes hg hwhole
  have hemitted : ∀ i ∈ g.emittedNodes, i < g.size := fun _ =>
    lt_size_of_firstReady hg.stepwise_emittedNodes
  have hremains : ∀ (graph : Graph) (i : Nat), i ∈ graph.byDeclaration graph.remainder ↔
      i < graph.size ∧ i ∉ graph.emittedNodes := by
    intro graph i
    rw [(byDeclaration_perm graph.remainder).mem_iff]
    simp [remainder]
  refine eq_of_pairwise_before (g := whole) ?_
    ((pairwise_byDeclaration (nodup_remainder whole)).filter _) fun node => ?_
  · rw [List.pairwise_map]
    refine (pairwise_byDeclaration (nodup_remainder g)).imp_of_mem ?_
    intro i j hi hj
    exact h.before i ((hremains g i).mp hi).1 j ((hremains g j).mp hj).1
  · simp only [List.mem_map, List.mem_filter, placed_iff, hremains]
    have hleft : ∀ i < g.size, (i ∉ g.emittedNodes ↔ place i ∉ whole.emittedNodes) := by
      intro i hi
      rw [← h.place_mem_map_iff hemitted hi, hplaces, List.mem_filter, placed_iff]
      exact not_congr ⟨And.left, fun hin => ⟨hin, i, hi, rfl⟩⟩
    constructor
    · rintro ⟨i, ⟨hi, hnew⟩, rfl⟩
      exact ⟨⟨h.lt_size i hi, (hleft i hi).mp hnew⟩, i, hi, rfl⟩
    · rintro ⟨⟨-, hnew⟩, i, hi, rfl⟩
      exact ⟨i, ⟨hi, (hleft i hi).mpr hnew⟩, rfl⟩

/-- The places label the nodes when all edges are turned round, as no edge comes from elsewhere. -/
theorem isLabelling_swap :
    IsLabelling (Function.swap g.Edge) g.size (Function.swap whole.Edge) place where
  bounded _ _ hedge := (hg.edge_lt hedge).symm
  injective _ hi _ hj := h.injective hi hj
  edges := by
    intro i hi b
    constructor
    · intro hedge
      obtain ⟨j, hj, rfl⟩ := h.needed b _ hedge
      exact ⟨j, (h.edge_iff j hj i hi).mp hedge, rfl⟩
    · rintro ⟨j, hedge, rfl⟩
      exact (h.edge_iff j (hg.edge_lt hedge).1 i hi).mpr hedge

/-- Only places lie on a cycle. -/
theorem exists_place_of_cycle {a : Nat} (hcycle : TransGen whole.Edge a a) :
    ∃ i < g.size, place i = a ∧ TransGen g.Edge i i := by
  obtain ⟨b, hedge, -⟩ := TransGen.head'_iff.mp hcycle
  obtain ⟨i, hi, rfl⟩ := h.needed a b hedge
  have hturned := ((h.isLabelling_swap hg).transGen_iff hi).mp (Relation.transGen_swap.mpr hcycle)
  exact ⟨i, hi, rfl, Relation.transGen_swap.mp hturned⟩

/-- There is a cycle in the whole graph exactly when there is one in the part. -/
theorem exists_cycle_iff : (∃ a, TransGen whole.Edge a a) ↔ ∃ i, TransGen g.Edge i i := by
  constructor
  · rintro ⟨a, hcycle⟩
    obtain ⟨i, -, -, hnode⟩ := h.exists_place_of_cycle hg hcycle
    exact ⟨i, hnode⟩
  · rintro ⟨i, hcycle⟩
    have hlabel := h.isLabelling_swap hg
    have hturned : TransGen (Function.swap g.Edge) i i := Relation.transGen_swap.mpr hcycle
    have hi := hlabel.lt_of_transGen hturned
    exact ⟨place i, Relation.transGen_swap.mp ((hlabel.transGen_iff hi).mpr hturned)⟩

/-- Both graphs have the same cycles, however they are found. -/
theorem map_cyclesAmong (hwhole : whole.WellFormed) {subgraph : Graph → List Nat → Subgraph}
    {components : Subgraph → List (List Nat)}
    (hpart : ∀ graph ∈ [g, whole],
      (subgraph graph graph.remainder).IsInduced graph graph.remainder)
    (hsplit : ∀ graph ∈ [g, whole],
      (subgraph graph graph.remainder).IsSplit (components (subgraph graph graph.remainder))) :
    (g.cyclesAmong subgraph components g.remainder).map (List.map place) =
      whole.cyclesAmong subgraph components whole.remainder := by
  have hcycles := hg.listsCycles_remainder (hpart g (by simp)) (hsplit g (by simp))
  have hothers := hwhole.listsCycles_remainder (hpart whole (by simp)) (hsplit whole (by simp))
  have hmapped := (h.isLabelling_swap hg).listsCycles_map (fun a hcycle => by
      obtain ⟨i, hi, heq, -⟩ := h.exists_place_of_cycle hg (Relation.transGen_swap.mp hcycle)
      exact ⟨i, hi, heq⟩) h.before hcycles.swap
  exact hmapped.eq (fun _ _ => Before.asymm) hothers.swap

end Emission

end Embeds

end Graph

end VariableOrder
