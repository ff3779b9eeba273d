import Mathlib.Data.List.Nodup
import Mathlib.Data.List.Perm.Subperm
import Mathlib.Logic.Relation

/-!
# Components of a relation

Two things are in one component when each can be reached from the other. A component has a cycle
when it has more than one member, or when its only member is related to itself. Both notions are
kept when the things are given other names, as long as the names tell the same edges, and when all
edges are turned round. The components that have a cycle can be listed in one way only, once it is
said what comes before what.
-/

set_option autoImplicit false

namespace VariableOrder

open Relation (ReflTransGen TransGen)

/-- Whether a list holds, each once, all members of a strongly connected component. -/
structure IsComponent {α : Type} (edge : α → α → Prop) (members : List α) : Prop where
  nodup : members.Nodup
  nonempty : members ≠ []
  connected : ∀ a ∈ members, ∀ b,
    b ∈ members ↔ ReflTransGen edge a b ∧ ReflTransGen edge b a

/-- Whether a component has a cycle: it has more than one member, or its only member has an edge
to itself. -/
def HasCycle {α : Type} (edge : α → α → Prop) (members : List α) : Prop :=
  1 < members.length ∨ ∃ a, members = [a] ∧ edge a a

variable {α β : Type} {edge : α → α → Prop}

/-- A component has a cycle exactly when a member of it lies on one. -/
theorem IsComponent.hasCycle_iff {members : List α} (h : IsComponent edge members) {a : α}
    (ha : a ∈ members) : HasCycle edge members ↔ TransGen edge a a := by
  constructor
  · rintro (hlength | ⟨b, rfl, hself⟩)
    · -- another member can be reached from `a`, and `a` from it
      have hother : ∃ b ∈ members, b ≠ a := by
        by_contra hnone
        have hsub : members ⊆ [a] := by
          intro b hb
          by_contra hne
          exact hnone ⟨b, hb, by simpa using hne⟩
        have hshort := (List.subperm_of_subset h.nodup hsub).length_le
        simp only [List.length_singleton] at hshort
        omega
      obtain ⟨b, hb, hne⟩ := hother
      obtain ⟨hto, hback⟩ := (h.connected a ha b).mp hb
      rcases ReflTransGen.cases_head_iff.mp hto with heq | ⟨c, hedge, hrest⟩
      · exact absurd heq.symm hne
      · exact TransGen.head' hedge (hrest.trans hback)
    · rw [List.mem_singleton] at ha
      exact ha ▸ TransGen.single hself
  · intro hcycle
    obtain ⟨b, hedge, hback⟩ := TransGen.head'_iff.mp hcycle
    have hb : b ∈ members := (h.connected a ha b).mpr ⟨ReflTransGen.single hedge, hback⟩
    rcases members with _ | ⟨c, _ | ⟨d, rest⟩⟩
    · exact absurd ha List.not_mem_nil
    · rw [List.mem_singleton] at ha hb
      subst ha hb
      exact .inr ⟨_, rfl, hedge⟩
    · exact .inl (by simp)

/-- Components with a common member have the same members. -/
theorem IsComponent.perm {members others : List α} (h : IsComponent edge members)
    (hothers : IsComponent edge others) {a : α} (ha : a ∈ members) (ha' : a ∈ others) :
    members.Perm others := by
  refine (List.perm_ext_iff_of_nodup h.nodup hothers.nodup).mpr fun b => ?_
  rw [h.connected a ha b, hothers.connected a ha' b]

/-- A component is one in any order of its members. -/
theorem IsComponent.of_perm {members others : List α} (h : IsComponent edge members)
    (hperm : others.Perm members) : IsComponent edge others where
  nodup := hperm.nodup_iff.mpr h.nodup
  nonempty := fun hnil => h.nonempty (hnil ▸ hperm).nil_eq.symm
  connected := by
    intro a ha b
    rw [hperm.mem_iff] at ha ⊢
    exact h.connected a ha b

/-- Whether a component has a cycle does not depend on the order of its members. -/
theorem IsComponent.hasCycle_perm_iff {members others : List α} (h : IsComponent edge members)
    (hperm : others.Perm members) : HasCycle edge others ↔ HasCycle edge members := by
  obtain ⟨a, ha⟩ := List.exists_mem_of_ne_nil members h.nonempty
  rw [(h.of_perm hperm).hasCycle_iff (hperm.mem_iff.mpr ha), h.hasCycle_iff ha]

/-- Whether lists are exactly the components that have a cycle, each once, with their members and
among themselves in the given order. -/
structure ListsCycles {α : Type} (edge before : α → α → Prop) (cycles : List (List α)) : Prop where
  sound : ∀ cycle ∈ cycles, IsComponent edge cycle ∧ HasCycle edge cycle
  complete : ∀ a, TransGen edge a a → ∃ cycle ∈ cycles, a ∈ cycle
  disjoint : cycles.Pairwise List.Disjoint
  members : ∀ cycle ∈ cycles, cycle.Pairwise before
  groups : cycles.Pairwise fun first second =>
    ∃ a b, first.head? = some a ∧ second.head? = some b ∧ before a b

/-- Every component that has a cycle is one of the listed cycles. -/
theorem ListsCycles.exists_perm {before : α → α → Prop} {cycles : List (List α)}
    (h : ListsCycles edge before cycles) {members : List α} (hmembers : IsComponent edge members)
    (hcycle : HasCycle edge members) : ∃ cycle ∈ cycles, cycle.Perm members := by
  obtain ⟨a, ha⟩ := List.exists_mem_of_ne_nil members hmembers.nonempty
  obtain ⟨cycle, hlisted, hmem⟩ := h.complete a ((hmembers.hasCycle_iff ha).mp hcycle)
  exact ⟨cycle, hlisted, (h.sound cycle hlisted).1.perm hmembers hmem ha⟩

/-- When of two things at most one comes before the other, there is only one list of the cycles. -/
theorem ListsCycles.eq {before : α → α → Prop} (hbefore : ∀ a b, before a b → ¬ before b a)
    {cycles others : List (List α)} (h : ListsCycles edge before cycles)
    (hothers : ListsCycles edge before others) : cycles = others := by
  have hsub : ∀ cycles others : List (List α), ListsCycles edge before cycles →
      ListsCycles edge before others → cycles ⊆ others := by
    intro cycles others h hothers cycle hcycle
    obtain ⟨hcomponent, hhas⟩ := h.sound cycle hcycle
    obtain ⟨other, hother, hperm⟩ := hothers.exists_perm hcomponent hhas
    -- a cycle has its members in order in both lists
    have heq : other = cycle := hperm.eq_of_pairwise
      (fun a b _ _ hab hba => absurd hba (hbefore a b hab)) (hothers.members other hother)
      (h.members cycle hcycle)
    exact heq ▸ hother
  have hasymm : ∀ first second : List α,
      (∃ a b, first.head? = some a ∧ second.head? = some b ∧ before a b) →
      ¬ ∃ a b, second.head? = some a ∧ first.head? = some b ∧ before a b := by
    rintro first second ⟨a, b, ha, hb, hab⟩ ⟨b', a', hb', ha', hba⟩
    obtain rfl := Option.some.inj (ha.symm.trans ha')
    obtain rfl := Option.some.inj (hb.symm.trans hb')
    exact hbefore _ _ hab hba
  have hnodup : ∀ cycles : List (List α), ListsCycles edge before cycles → cycles.Nodup := by
    intro cycles h
    refine h.groups.imp fun hgroup heq => ?_
    exact hasymm _ _ hgroup (heq ▸ hgroup)
  have hperm : cycles.Perm others :=
    (List.perm_ext_iff_of_nodup (hnodup cycles h) (hnodup others hothers)).mpr fun cycle =>
      ⟨fun hcycle => hsub cycles others h hothers hcycle,
        fun hcycle => hsub others cycles hothers h hcycle⟩
  exact hperm.eq_of_pairwise (fun a b _ _ hab hba => absurd hba (hasymm a b hab)) h.groups
    hothers.groups

/-- A component is one when all edges are turned around. -/
theorem IsComponent.swap {members : List α} (h : IsComponent edge members) :
    IsComponent (Function.swap edge) members where
  nodup := h.nodup
  nonempty := h.nonempty
  connected := by
    intro a ha b
    have hto : ReflTransGen (Function.swap edge) a b ↔ ReflTransGen edge b a :=
      Relation.reflTransGen_swap
    have hback : ReflTransGen (Function.swap edge) b a ↔ ReflTransGen edge a b :=
      Relation.reflTransGen_swap
    rw [h.connected a ha b, hto, hback, and_comm]

/-- The cycles stay the same when all edges are turned round. -/
theorem ListsCycles.swap {before : α → α → Prop} {cycles : List (List α)}
    (h : ListsCycles edge before cycles) : ListsCycles (Function.swap edge) before cycles where
  sound := fun cycle hcycle => ⟨(h.sound cycle hcycle).1.swap, (h.sound cycle hcycle).2⟩
  complete := fun a ha => h.complete a (Relation.transGen_swap.mp ha)
  disjoint := h.disjoint
  members := h.members
  groups := h.groups

/-- Whether the numbers below a bound are given labels, each its own, such that the edges from a
label are the edges from its number. -/
structure IsLabelling (edge : Nat → Nat → Prop) (count : Nat) (target : β → β → Prop)
    (label : Nat → β) : Prop where
  bounded : ∀ i j, edge i j → i < count ∧ j < count
  injective : ∀ i < count, ∀ j < count, label i = label j → i = j
  edges : ∀ i < count, ∀ b, target (label i) b ↔ ∃ j, edge i j ∧ label j = b

namespace IsLabelling

variable {edge : Nat → Nat → Prop} {count : Nat} {target : β → β → Prop} {label : Nat → β}

/-- There is an edge between two labels exactly when there is one between the numbers. -/
theorem edge_iff (h : IsLabelling edge count target label) {i j : Nat} (hi : i < count)
    (hj : j < count) : target (label i) (label j) ↔ edge i j := by
  rw [h.edges i hi]
  constructor
  · rintro ⟨k, hedge, hlabel⟩
    exact h.injective k (h.bounded i k hedge).2 j hj hlabel ▸ hedge
  · intro hedge
    exact ⟨j, hedge, rfl⟩

/-- What can be reached from a label are the labels of what can be reached from its number. -/
theorem reach (h : IsLabelling edge count target label) {i : Nat} (hi : i < count) (b : β) :
    ReflTransGen target (label i) b ↔ ∃ j < count, ReflTransGen edge i j ∧ label j = b := by
  constructor
  · intro hpath
    induction hpath with
    | refl => exact ⟨i, hi, ReflTransGen.refl, rfl⟩
    | tail _ hedge ih =>
      obtain ⟨k, hk, hreach, rfl⟩ := ih
      obtain ⟨j, hstep, rfl⟩ := (h.edges k hk _).mp hedge
      exact ⟨j, (h.bounded k j hstep).2, hreach.tail hstep, rfl⟩
  · rintro ⟨j, -, hpath, rfl⟩
    induction hpath with
    | refl => exact ReflTransGen.refl
    | tail _ hedge ih =>
      obtain ⟨hk, hj⟩ := h.bounded _ _ hedge
      exact ih.tail ((h.edge_iff hk hj).mpr hedge)

/-- A label is reached from another one exactly when its number is. -/
theorem reflTransGen_iff (h : IsLabelling edge count target label) {i j : Nat} (hi : i < count)
    (hj : j < count) : ReflTransGen target (label i) (label j) ↔ ReflTransGen edge i j := by
  rw [h.reach hi]
  constructor
  · rintro ⟨k, hk, hpath, hlabel⟩
    exact h.injective k hk j hj hlabel ▸ hpath
  · intro hpath
    exact ⟨j, hj, hpath, rfl⟩

/-- A label lies on a cycle exactly when its number does. -/
theorem transGen_iff (h : IsLabelling edge count target label) {i : Nat} (hi : i < count) :
    TransGen target (label i) (label i) ↔ TransGen edge i i := by
  rw [TransGen.head'_iff, TransGen.head'_iff]
  constructor
  · rintro ⟨b, hedge, hback⟩
    obtain ⟨j, hstep, rfl⟩ := (h.edges i hi b).mp hedge
    exact ⟨j, hstep, (h.reflTransGen_iff (h.bounded i j hstep).2 hi).mp hback⟩
  · rintro ⟨j, hstep, hback⟩
    have hj := (h.bounded i j hstep).2
    exact ⟨label j, (h.edge_iff hi hj).mpr hstep, (h.reflTransGen_iff hj hi).mpr hback⟩

/-- The labels of a component are a component. -/
theorem isComponent_map (h : IsLabelling edge count target label) {members : List Nat}
    (hmembers : ∀ i ∈ members, i < count) (hcomponent : IsComponent edge members) :
    IsComponent target (members.map label) where
  nodup := hcomponent.nodup.map_on fun i hi j hj =>
    h.injective i (hmembers i hi) j (hmembers j hj)
  nonempty := by simpa using hcomponent.nonempty
  connected := by
    intro a ha b
    obtain ⟨i, hi, rfl⟩ := List.mem_map.mp ha
    constructor
    · intro hb
      obtain ⟨j, hj, rfl⟩ := List.mem_map.mp hb
      rw [h.reflTransGen_iff (hmembers i hi) (hmembers j hj),
        h.reflTransGen_iff (hmembers j hj) (hmembers i hi)]
      exact (hcomponent.connected i hi j).mp hj
    · rintro ⟨hto, hback⟩
      obtain ⟨j, hj, hpath, rfl⟩ := (h.reach (hmembers i hi) b).mp hto
      rw [h.reflTransGen_iff hj (hmembers i hi)] at hback
      exact List.mem_map_of_mem ((hcomponent.connected i hi j).mpr ⟨hpath, hback⟩)

/-- The labels of a component have a cycle exactly when the component has one. -/
theorem hasCycle_map (h : IsLabelling edge count target label) {members : List Nat}
    (hmembers : ∀ i ∈ members, i < count) (hcomponent : IsComponent edge members) :
    HasCycle target (members.map label) ↔ HasCycle edge members := by
  obtain ⟨i, hi⟩ := List.exists_mem_of_ne_nil members hcomponent.nonempty
  rw [(h.isComponent_map hmembers hcomponent).hasCycle_iff (List.mem_map_of_mem hi),
    hcomponent.hasCycle_iff hi, h.transGen_iff (hmembers i hi)]

/-- What a path starts from is a number below the count. -/
theorem lt_of_transGen (h : IsLabelling edge count target label) {i j : Nat}
    (hpath : TransGen edge i j) : i < count := by
  obtain ⟨k, hedge, -⟩ := TransGen.head'_iff.mp hpath
  exact (h.bounded i k hedge).1

/-- When only labels lie on a cycle, the labels of the cycles are the cycles of the labels. -/
theorem listsCycles_map (h : IsLabelling edge count target label)
    (hcover : ∀ a, TransGen target a a → ∃ i < count, label i = a) {before : Nat → Nat → Prop}
    {earlier : β → β → Prop}
    (hearlier : ∀ i < count, ∀ j < count, before i j → earlier (label i) (label j))
    {cycles : List (List Nat)} (hcycles : ListsCycles edge before cycles) :
    ListsCycles target earlier (cycles.map fun cycle => cycle.map label) := by
  have hlt : ∀ cycle ∈ cycles, ∀ i ∈ cycle, i < count := by
    intro cycle hcycle i hi
    obtain ⟨hcomponent, hhas⟩ := hcycles.sound cycle hcycle
    exact h.lt_of_transGen ((hcomponent.hasCycle_iff hi).mp hhas)
  refine ⟨?_, ?_, ?_, ?_, ?_⟩
  · intro names hnames
    obtain ⟨cycle, hcycle, rfl⟩ := List.mem_map.mp hnames
    obtain ⟨hcomponent, hhas⟩ := hcycles.sound cycle hcycle
    exact ⟨h.isComponent_map (hlt cycle hcycle) hcomponent,
      (h.hasCycle_map (hlt cycle hcycle) hcomponent).mpr hhas⟩
  · intro a hcycle
    obtain ⟨i, hi, rfl⟩ := hcover a hcycle
    obtain ⟨cycle, hlisted, hmem⟩ := hcycles.complete i ((h.transGen_iff hi).mp hcycle)
    exact ⟨_, List.mem_map_of_mem hlisted, List.mem_map_of_mem hmem⟩
  · rw [List.pairwise_map]
    refine hcycles.disjoint.imp_of_mem ?_
    intro a b ha hb hdisjoint name hname hname'
    obtain ⟨i, hi, rfl⟩ := List.mem_map.mp hname
    obtain ⟨j, hj, heq⟩ := List.mem_map.mp hname'
    exact hdisjoint hi (h.injective j (hlt b hb j hj) i (hlt a ha i hi) heq ▸ hj)
  · intro names hnames
    obtain ⟨cycle, hcycle, rfl⟩ := List.mem_map.mp hnames
    rw [List.pairwise_map]
    exact (hcycles.members cycle hcycle).imp_of_mem fun hi hj =>
      hearlier _ (hlt cycle hcycle _ hi) _ (hlt cycle hcycle _ hj)
  · rw [List.pairwise_map]
    refine hcycles.groups.imp_of_mem ?_
    rintro a b ha hb ⟨i, j, hi, hj, hbefore⟩
    refine ⟨label i, label j, by simp [hi], by simp [hj], hearlier i ?_ j ?_ hbefore⟩
    · exact hlt a ha i (List.mem_of_head? hi)
    · exact hlt b hb j (List.mem_of_head? hj)

end IsLabelling

end VariableOrder
