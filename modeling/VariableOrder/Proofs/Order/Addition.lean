import Mathlib.Data.List.NodupEquivFin
import VariableOrder.Proofs.Order.Embedding
import VariableOrder.Proofs.Order.Numbering
import VariableOrder.Proofs.Outcome

/-!
# Definitions that nobody needs

When some definitions are left out that no definition refers to, the graph of the others lies within
the graph of all: leaving out definitions keeps the order of declaration, so every other node has
its place, and what the places need are places. So the others are ordered among themselves as if
nothing else were there, and they are in the same cycles.
-/

set_option autoImplicit false

namespace VariableOrder

namespace Definition

variable {kept definitions : List Definition}

section Kept

variable (hsub : kept.Sublist definitions) (hnodup : (definitions.map (·.name)).Nodup)

include hsub hnodup

/-- Leaving out definitions keeps the positions of the others in their order. -/
theorem position_lt_of_sublist {a b : Definition} (ha : a ∈ kept) (hb : b ∈ kept)
    (hlt : position kept a < position kept b) :
    position definitions a < position definitions b := by
  obtain ⟨place, hplace⟩ := List.sublist_iff_exists_orderEmbedding_getElem?_eq.mp hsub
  have hkept := hnodup.sublist (hsub.map (·.name))
  have hmoved : ∀ d ∈ kept, position definitions d = place (position kept d) := by
    intro d hd
    exact position_eq hnodup ((hplace _).symm.trans (getElem?_position hkept hd))
  rw [hmoved a ha, hmoved b hb]
  exact place.lt_iff_lt.mpr hlt

/-- A definition is kept when its name is. -/
theorem mem_names_kept_iff {d : Definition} (hd : d ∈ definitions) :
    d.name ∈ kept.map (·.name) ↔ d ∈ kept := by
  constructor
  · intro hname
    obtain ⟨e, he, heq⟩ := List.mem_map.mp hname
    exact List.inj_on_of_nodup_map hnodup (hsub.subset he) hd heq ▸ he
  · exact List.mem_map_of_mem

/-- Leaving out definitions keeps the others in the order of declaration. -/
theorem filter_declared :
    (declared definitions).filter (fun d => d.name ∈ kept.map (·.name)) = declared kept := by
  have hkept := hnodup.sublist (hsub.map (·.name))
  have hranks := (pairwise_rank_declared hnodup).filter fun d => d.name ∈ kept.map (·.name)
  have hranks' : (declared kept).Pairwise fun a b => rank definitions a < rank definitions b := by
    refine (pairwise_rank_declared hkept).imp_of_mem ?_
    intro a b ha hb hlt
    rw [(declared_perm kept).mem_iff] at ha hb
    -- the ranks among the kept ones differ from those among all by the positions only
    rcases Prod.Lex.toLex_lt_toLex.mp hlt with hplace | ⟨hplace, hposition⟩
    · exact Prod.Lex.toLex_lt_toLex.mpr (.inl hplace)
    · exact Prod.Lex.toLex_lt_toLex.mpr
        (.inr ⟨hplace, position_lt_of_sublist hsub hnodup ha hb hposition⟩)
  have hperm : ((declared definitions).filter fun d => d.name ∈ kept.map (·.name)).Perm
      (declared kept) := by
    refine (List.perm_ext_iff_of_nodup ((nodup_declared hnodup).of_map.filter _)
      (nodup_declared hkept).of_map).mpr fun d => ?_
    rw [List.mem_filter, (declared_perm definitions).mem_iff, (declared_perm kept).mem_iff,
      decide_eq_true_eq]
    constructor
    · rintro ⟨hd, hname⟩
      exact (mem_names_kept_iff hsub hnodup hd).mp hname
    · intro hd
      exact ⟨hsub.subset hd, List.mem_map_of_mem hd⟩
  exact hperm.eq_of_pairwise (fun _ _ _ _ hab hba => absurd hba (lt_asymm hab)) hranks hranks'

end Kept

end Definition

namespace Graph

open Definition (declared atPositions)

variable {kept definitions : List Definition} {g whole : Graph}

/-- Whether the nodes of a graph have places in another one where they have the same
definitions. -/
structure Keeps (kept definitions : List Definition) (g whole : Graph) (place : Nat → Nat) :
    Prop where
  embeds : g.Embeds whole place
  same : ∀ i : Nat, (declared kept)[i]? = (declared definitions)[place i]?
  mem_kept : ∀ (node : Nat) (d : Definition), (declared definitions)[node]? = some d →
    (g.placed place node = true ↔ d.name ∈ kept.map (·.name))

/-- The graph of the definitions that are kept lies within the graph of all when everything that a
definition refers to is kept. -/
theorem exists_keeps (hg : build kept = .ok g) (hwhole : build definitions = .ok whole)
    (hsub : kept.Sublist definitions)
    (hneeded : ∀ e ∈ definitions, ∀ d ∈ definitions, d.RefersTo e.name → e ∈ kept) :
    ∃ place, Keeps kept definitions g whole place := by
  have hnodup := (build_eq_ok_iff.mp hwhole).1
  have hdeclared : (declared kept).Sublist (declared definitions) := by
    rw [← Definition.filter_declared hsub hnodup]
    exact List.filter_sublist
  obtain ⟨place, hplace⟩ := List.sublist_iff_exists_orderEmbedding_getElem?_eq.mp hdeclared
  have hlt : ∀ i < g.size, place i < whole.size := by
    intro i hi
    rw [← lt_length_declared_iff hg] at hi
    have hd := (hplace i).symm.trans (List.getElem?_eq_getElem hi)
    exact (lt_length_declared_iff hwhole _).mp (List.getElem?_eq_some_iff.mp hd).1
  have hfound : ∀ (node : Nat) (d : Definition), (declared definitions)[node]? = some d →
      d ∈ kept → ∃ i < g.size, place i = node := by
    intro node d hd hkept
    obtain ⟨i, hi⟩ := List.mem_iff_getElem?.mp ((Definition.declared_perm kept).mem_iff.mpr hkept)
    have hsize := (lt_length_declared_iff hg i).mp (List.getElem?_eq_some_iff.mp hi).1
    have hposition := Definition.position_eq (Definition.nodup_declared hnodup)
      ((hplace i).symm.trans hi)
    rw [Definition.position_eq (Definition.nodup_declared hnodup) hd] at hposition
    exact ⟨i, hsize, hposition.symm⟩
  refine ⟨place, ⟨hlt, ?_, ?_, ?_⟩, hplace, ?_⟩
  · intro i hi j hj
    rw [(wellFormed_of_build hg).before_iff_lt hi hj,
      (wellFormed_of_build hwhole).before_iff_lt (hlt i hi) (hlt j hj)]
    exact place.lt_iff_lt.mpr
  · intro i _ j _
    rw [edge_of_build hg, edge_of_build hwhole, hplace i, hplace j]
  · intro a b hedge
    obtain ⟨e, d, he, hd, hrefers⟩ := (edge_of_build hwhole a b).mp hedge
    have hmem : ∀ {i : Nat} {c : Definition}, (declared definitions)[i]? = some c →
        c ∈ definitions := fun hc =>
      (Definition.declared_perm definitions).mem_iff.mp (List.mem_of_getElem? hc)
    exact hfound a e he (hneeded e (hmem he) d (hmem hd) hrefers)
  · intro node d hd
    have hmem := (Definition.declared_perm definitions).mem_iff.mp (List.mem_of_getElem? hd)
    rw [placed_iff, Definition.mem_names_kept_iff hsub hnodup hmem]
    constructor
    · rintro ⟨i, -, rfl⟩
      have hi := (hplace i).trans hd
      exact (Definition.declared_perm kept).mem_iff.mp (List.mem_of_getElem? hi)
    · exact hfound node d hd

/-- The name of a node is the name of a definition. -/
theorem name_mem_of_build (h : build definitions = .ok g) {i : Nat} (hi : i < g.size) :
    g.name i ∈ definitions.map (·.name) := by
  have hd := List.getElem?_eq_getElem ((lt_length_declared_iff h i).mpr hi)
  rw [name_of_build h hd]
  exact List.mem_map_of_mem
    ((Definition.declared_perm definitions).mem_iff.mp (List.mem_of_getElem? hd))

namespace Keeps

variable {place : Nat → Nat} (h : Keeps kept definitions g whole place)

include h

/-- The definitions at places are those that are kept. -/
theorem filter_atPositions (nodes : List Nat) :
    (atPositions (declared definitions) nodes).filter (fun d => d.name ∈ kept.map (·.name)) =
      atPositions (declared definitions) (nodes.filter (g.placed place)) := by
  unfold atPositions
  rw [List.filter_filterMap, List.filterMap_filter]
  apply List.filterMap_congr
  intro node _
  cases hd : (declared definitions)[node]? with
  | none => simp
  | some d =>
    have hplaced := h.mem_kept node d hd
    by_cases hname : d.name ∈ kept.map (·.name)
    · simp [hplaced.mpr hname, hname, Option.filter]
    · simp [mt hplaced.mp hname, hname, Option.filter]

/-- The definitions at the places of nodes are the kept definitions of these nodes. -/
theorem atPositions_map (nodes : List Nat) :
    atPositions (declared definitions) (nodes.map place) = atPositions (declared kept) nodes := by
  unfold atPositions
  rw [List.filterMap_map]
  exact List.filterMap_congr fun i _ => (h.same i).symm

/-- The nodes whose definitions are kept have the same names in both graphs. -/
theorem name_place (hg : build kept = .ok g) (hwhole : build definitions = .ok whole) {i : Nat}
    (hi : i < g.size) : whole.name (place i) = g.name i := by
  have hd := List.getElem?_eq_getElem ((lt_length_declared_iff hg i).mpr hi)
  rw [name_of_build hg hd, name_of_build hwhole ((h.same i).symm.trans hd)]

section Built

variable (hg : build kept = .ok g) (hwhole : build definitions = .ok whole)

include hg hwhole

/-- The definitions that are kept are ordered as if there were no others. -/
theorem filter_emitted :
    (atPositions (declared definitions) whole.emittedNodes).filter
        (fun d => d.name ∈ kept.map (·.name)) =
      atPositions (declared kept) g.emittedNodes := by
  rw [h.filter_atPositions, ← h.embeds.map_emittedNodes (wellFormed_of_build hg)
    (wellFormed_of_build hwhole), h.atPositions_map]

/-- Of the names that can not be ordered, those that are kept can not be ordered without the others
either. -/
theorem filter_names_remainder :
    ((whole.byDeclaration whole.remainder).map whole.name).filter
        (fun name => name ∈ kept.map (·.name)) =
      (g.byDeclaration g.remainder).map g.name := by
  have hremainder := h.embeds.map_remainder (wellFormed_of_build hg) (wellFormed_of_build hwhole)
  have hplaced : (whole.byDeclaration whole.remainder).filter
        (fun node => whole.name node ∈ kept.map (·.name)) =
      (whole.byDeclaration whole.remainder).filter (g.placed place) := by
    apply List.filter_congr
    intro node hnode
    have hsize := whole.lt_size_of_mem_byDeclaration node hnode
    have hd := List.getElem?_eq_getElem ((lt_length_declared_iff hwhole node).mpr hsize)
    rw [name_of_build hwhole hd, Bool.eq_iff_iff, decide_eq_true_eq, h.mem_kept node _ hd]
  rw [List.filter_map]
  change ((whole.byDeclaration whole.remainder).filter
    (fun node => whole.name node ∈ kept.map (·.name))).map whole.name = _
  rw [hplaced, ← hremainder, List.map_map]
  apply List.map_congr_left
  intro i hi
  exact h.name_place hg hwhole (g.lt_size_of_mem_byDeclaration i hi)

/-- The cycles have the same names in both graphs. -/
theorem map_cycles : (whole.cyclesAmong subgraph Subgraph.components whole.remainder).map
      (List.map whole.name) =
    (g.cyclesAmong subgraph Subgraph.components g.remainder).map (List.map g.name) := by
  have hwell := wellFormed_of_build hg
  have hwell' := wellFormed_of_build hwhole
  have hpart : ∀ graph ∈ [g, whole],
      (subgraph graph graph.remainder).IsInduced graph graph.remainder :=
    fun graph _ => isInduced_subgraph graph graph.remainder
  have hsplit : ∀ graph ∈ [g, whole], (subgraph graph graph.remainder).IsSplit
      (subgraph graph graph.remainder).components :=
    fun graph hgraph => Subgraph.isSplit_components (hpart graph hgraph).bounded
  rw [← h.embeds.map_cyclesAmong hwell hwell' hpart hsplit, List.map_map]
  apply List.map_congr_left
  intro cycle hcycle
  rw [Function.comp_apply, List.map_map]
  apply List.map_congr_left
  intro i hi
  exact h.name_place hg hwhole
    (hwell.lt_size_of_mem_cycle (hpart g (by simp)) (hsplit g (by simp)) hcycle hi)

end Built

end Keeps

end Graph

/-- If everything that a definition refers to is kept, then leaving out the other definitions
changes nothing about those that are kept: they are resolved to the same order, or they end in a
deadlock with the same cycles and the same names. -/
theorem resolve_of_sublist {kept definitions : List Definition} {g whole : Graph}
    (hg : Graph.build kept = .ok g) (hwhole : Graph.build definitions = .ok whole)
    (hsub : kept.Sublist definitions)
    (hneeded : ∀ e ∈ definitions, ∀ d ∈ definitions, d.RefersTo e.name → e ∈ kept)
    (external : List String) :
    (∀ o, resolve kept external = .ok o → ∃ o', resolve definitions external = .ok o' ∧
      o'.definitions.filter (fun d => d.name ∈ kept.map (·.name)) = o.definitions) ∧
    ∀ deadlock, resolve kept external = .error (.emit (.deadlock deadlock)) →
      ∃ deadlock', resolve definitions external = .error (.emit (.deadlock deadlock')) ∧
        deadlock'.cycles = deadlock.cycles ∧
        deadlock'.names.filter (fun name => name ∈ kept.map (·.name)) = deadlock.names := by
  obtain ⟨place, hkeeps⟩ := Graph.exists_keeps hg hwhole hsub hneeded
  have hwell := Graph.wellFormed_of_build hg
  have hwell' := Graph.wellFormed_of_build hwhole
  have hcycle := hkeeps.embeds.exists_cycle_iff hwell
  constructor
  · intro o ho
    obtain ⟨g', names, hbuild, horder, hdefinitions⟩ := exists_graph_of_resolve_ok ho
    obtain rfl := Except.ok.inj (hg.symm.trans hbuild)
    obtain ⟨hnone, -⟩ := (Graph.orderBy_eq_ok_iff hwell _ _ names).mp horder
    have horder' : whole.order = .ok (whole.emittedNodes.map whole.name) :=
      (Graph.orderBy_eq_ok_iff hwell' _ _ _).mpr ⟨mt hcycle.mp hnone, rfl⟩
    refine ⟨⟨_, whole.warnings external⟩, by rw [resolve_of_build hwhole, horder'], ?_⟩
    rw [hdefinitions]
    exact hkeeps.filter_emitted hg hwhole
  · intro deadlock hdeadlock
    obtain ⟨g', hbuild, horder⟩ := exists_graph_of_resolve_deadlock hdeadlock
    obtain rfl := Except.ok.inj (hg.symm.trans hbuild)
    obtain ⟨hsome, rfl⟩ := (Graph.orderBy_eq_error_iff hwell _ _ deadlock).mp horder
    have horder' : whole.order = .error _ :=
      (Graph.orderBy_eq_error_iff hwell' _ _ _).mpr ⟨hcycle.mpr hsome, rfl⟩
    exact ⟨_, by rw [resolve_of_build hwhole, horder'], hkeeps.map_cycles hg hwhole,
      hkeeps.filter_names_remainder hg hwhole⟩

section Insert

variable {before after : List Definition} {d : Definition}
  (hnew : d.name ∉ (before ++ after).map (·.name))

include hnew

/-- A name of the enlarged list is a name of the list exactly when it is not the new one. -/
theorem mem_names_insert_iff {name : String} (hname : name ∈ (before ++ d :: after).map (·.name)) :
    name ∈ (before ++ after).map (·.name) ↔ name ≠ d.name := by
  constructor
  · rintro hold rfl
    exact hnew hold
  · intro hne
    simp only [List.map_append, List.map_cons, List.mem_append, List.mem_cons] at hname ⊢
    tauto

/-- A well-formed definition with a new name does not keep the others from having a graph. -/
theorem build_insert {g : Graph} (hbuild : Graph.build (before ++ after) = .ok g)
    (hd : d.WellFormed) : ∃ whole, Graph.build (before ++ d :: after) = .ok whole := by
  obtain ⟨hnodup, hwellFormed, -⟩ := Graph.build_eq_ok_iff.mp hbuild
  refine exists_graph ?_ ?_
  · have hperm : ((before ++ d :: after).map (·.name)).Perm
        (d.name :: (before ++ after).map (·.name)) := by
      simp [List.perm_middle]
    exact hperm.nodup_iff.mpr (List.nodup_cons.mpr ⟨hnew, hnodup⟩)
  · intro e he
    rw [List.mem_append, List.mem_cons] at he
    rcases he with he | rfl | he
    · exact hwellFormed e (List.mem_append_left _ he)
    · exact hd
    · exact hwellFormed e (List.mem_append_right _ he)

/-- A definition is removed from an order by leaving out what has its name. -/
theorem exists_split_of_filter {arrangement kept : List Definition}
    (hperm : arrangement.Perm (before ++ d :: after))
    (hnodup : ((before ++ d :: after).map (·.name)).Nodup)
    (hkept : arrangement.filter (fun e => e.name ∈ (before ++ after).map (·.name)) = kept) :
    ∃ front back, arrangement = front ++ d :: back ∧ kept = front ++ back := by
  have hmem : d ∈ arrangement := hperm.mem_iff.mpr (by simp)
  obtain ⟨front, back, rfl⟩ := List.append_of_mem hmem
  refine ⟨front, back, rfl, ?_⟩
  have hnames := (hperm.map (·.name)).nodup_iff.mpr hnodup
  have hothers : ∀ e ∈ front ++ back, e.name ∈ (before ++ after).map (·.name) := by
    intro e he
    have hin : e ∈ front ++ d :: back := by
      rw [List.mem_append] at he
      rw [List.mem_append, List.mem_cons]
      tauto
    refine (mem_names_insert_iff hnew (List.mem_map_of_mem (hperm.mem_iff.mp hin))).mpr ?_
    -- the name of `d` stands only once in the arrangement
    rw [List.map_append, List.map_cons] at hnames
    have hcons := (List.perm_middle.nodup_iff.mp hnames)
    rw [List.nodup_cons, ← List.map_append] at hcons
    intro heq
    exact hcons.1 (heq ▸ List.mem_map_of_mem he)
  have hfront := List.filter_eq_self.mpr fun e he =>
    decide_eq_true (hothers e (List.mem_append_left _ he))
  have hback := List.filter_eq_self.mpr fun e he =>
    decide_eq_true (hothers e (List.mem_append_right _ he))
  rw [← hkept, List.filter_append, List.filter_cons_of_neg (by simpa using hnew), hfront, hback]

/-- A new definition that nobody refers to changes nothing about the order of the others, and
nothing about a deadlock but that it may be behind one. -/
theorem resolve_insert {g : Graph} (hbuild : Graph.build (before ++ after) = .ok g)
    (hunused : ∀ e ∈ before ++ d :: after, ¬ e.RefersTo d.name) (hd : d.WellFormed)
    (external : List String) :
    (∀ o, resolve (before ++ after) external = .ok o → ∃ o' front back,
      resolve (before ++ d :: after) external = .ok o' ∧
        o'.definitions = front ++ d :: back ∧ o.definitions = front ++ back) ∧
    ∀ deadlock, resolve (before ++ after) external = .error (.emit (.deadlock deadlock)) →
      ∃ deadlock', resolve (before ++ d :: after) external = .error (.emit (.deadlock deadlock')) ∧
        deadlock'.cycles = deadlock.cycles ∧ deadlock'.names.erase d.name = deadlock.names := by
  obtain ⟨whole, hwhole⟩ := build_insert hnew hbuild hd
  have hsub : (before ++ after).Sublist (before ++ d :: after) :=
    (List.Sublist.refl before).append (List.sublist_cons_self d after)
  have hneeded : ∀ e ∈ before ++ d :: after, ∀ c ∈ before ++ d :: after, c.RefersTo e.name →
      e ∈ before ++ after := by
    intro e he c hc hrefers
    rw [List.mem_append, List.mem_cons] at he
    rcases he with he | rfl | he
    · exact List.mem_append_left _ he
    · exact absurd hrefers (hunused c hc)
    · exact List.mem_append_right _ he
  obtain ⟨hordered, hblocked⟩ := resolve_of_sublist hbuild hwhole hsub hneeded external
  constructor
  · intro o ho
    obtain ⟨o', ho', hkept⟩ := hordered o ho
    obtain ⟨g', names, hbuild', horder, hdefinitions⟩ := exists_graph_of_resolve_ok ho'
    have harrangement := (Graph.isArrangement_of_order hbuild' horder).1
    rw [← hdefinitions] at harrangement
    obtain ⟨front, back, hsplit, hrest⟩ := exists_split_of_filter hnew harrangement.perm
      (Graph.build_eq_ok_iff.mp hwhole).1 hkept
    exact ⟨o', front, back, ho', hsplit, hrest⟩
  · intro deadlock hdeadlock
    obtain ⟨deadlock', hdeadlock', hcycles, hkept⟩ := hblocked deadlock hdeadlock
    refine ⟨deadlock', hdeadlock', hcycles, ?_⟩
    obtain ⟨g', hbuild', horder⟩ := exists_graph_of_resolve_deadlock hdeadlock'
    have hg' := Graph.wellFormed_of_build hbuild'
    obtain ⟨-, rfl⟩ := (Graph.orderBy_eq_error_iff hg' _ _ deadlock').mp horder
    have hnodup : ((g'.byDeclaration g'.remainder).map g'.name).Nodup :=
      hg'.pairwise_names_remainder.imp Graph.DeclaredBefore.ne
    rw [← hkept, hnodup.erase_eq_filter]
    apply List.filter_congr
    intro name hname
    obtain ⟨i, hi, rfl⟩ := List.mem_map.mp hname
    have hmem := Graph.name_mem_of_build hbuild' (g'.lt_size_of_mem_byDeclaration i hi)
    rw [Bool.eq_iff_iff, bne_iff_ne, decide_eq_true_eq, mem_names_insert_iff hnew hmem]

end Insert

/-- Suppose a definition is added, anywhere in a list, whose name is new and which neither the list
nor itself refers to. If the list has an order, then so has the larger one, and removing the
definition from it gives the order of the list. If the list ends in a deadlock, then so does the
larger one, with the same cycles and, but for the name of the definition, the same names. -/
theorem requestOrder_insert {before after : List Definition} {d : Definition}
    (hnew : d.name ∉ (before ++ after).map (·.name))
    (hunused : ∀ e ∈ before ++ d :: after, ¬ e.RefersTo d.name) (hd : d.WellFormed)
    (external workers : Data.Value) :
    (∀ o, requestOrder (before ++ after) external workers = .ok o → ∃ o' front back,
      requestOrder (before ++ d :: after) external workers = .ok o' ∧
        o'.definitions = front ++ d :: back ∧ o.definitions = front ++ back) ∧
    ∀ deadlock, requestOrder (before ++ after) external workers =
        .error (.resolution (.emit (.deadlock deadlock))) →
      ∃ deadlock', requestOrder (before ++ d :: after) external workers =
          .error (.resolution (.emit (.deadlock deadlock'))) ∧
        deadlock'.cycles = deadlock.cycles ∧ deadlock'.names.erase d.name = deadlock.names := by
  cases hsettings : Settings.requested external workers with
  | error findings => simp [requestOrder_eq, hsettings]
  | ok settings =>
    simp only [requestOrder_eq, hsettings, mapError_eq_ok_iff, mapError_eq_error_iff,
      RequestFailure.resolution.injEq, exists_eq_right]
    constructor
    · intro o ho
      obtain ⟨g, names, hbuild, -⟩ := exists_graph_of_resolve_ok ho
      exact (resolve_insert hnew hbuild hunused hd settings.external).1 o ho
    · intro deadlock hdeadlock
      obtain ⟨g, hbuild, -⟩ := exists_graph_of_resolve_deadlock hdeadlock
      exact (resolve_insert hnew hbuild hunused hd settings.external).2 deadlock hdeadlock

/-- A definition that needs another one is put behind it in an order, whatever place it is declared
at, and joins those that are behind a cycle. -/
theorem requestOrder_insert_behind :
    let needing (name other : String) (place : Int) : Definition :=
      .ofValues name [.reference ⟨other, false, other⟩] place false none
    let early := Definition.ofValues "early" [] 5 false none
    let waiting := needing "waiting" "early" 0
    let first := needing "first" "early" 2
    let early' := needing "early" "first" 3
    let new := needing "new" "early" 1
    (new.name ∉ ([waiting] ++ [early]).map (·.name) ∧
        new.name ∉ ([first] ++ [early']).map (·.name)) ∧
      ((∀ e ∈ [waiting] ++ new :: [early], ¬ e.RefersTo new.name) ∧
        ∀ e ∈ [first] ++ new :: [early'], ¬ e.RefersTo new.name) ∧ new.WellFormed ∧
      requestOrder ([waiting] ++ [early]) (.list []) .null = .ok ⟨[early, waiting], []⟩ ∧
      (∃ o' front back, requestOrder ([waiting] ++ new :: [early]) (.list []) .null = .ok o' ∧
        o'.definitions = front ++ new :: back ∧ [early, waiting] = front ++ back) ∧
      requestOrder ([first] ++ [early']) (.list []) .null =
        .error (.resolution (.emit (.deadlock ⟨["first", "early"], [["first", "early"]]⟩))) ∧
      ∃ deadlock', requestOrder ([first] ++ new :: [early']) (.list []) .null =
          .error (.resolution (.emit (.deadlock deadlock'))) ∧
        deadlock'.cycles = [["first", "early"]] ∧
        deadlock'.names.erase new.name = ["first", "early"] := by
  intro needing early waiting first early' new
  have hnew : new.name ∉ ([waiting] ++ [early]).map (·.name) := by decide
  have hnew' : new.name ∉ ([first] ++ [early']).map (·.name) := by decide
  have hunused : ∀ e ∈ [waiting] ++ new :: [early], ¬ e.RefersTo new.name := by
    simp only [← Definition.mem_needs_iff]
    decide
  have hunused' : ∀ e ∈ [first] ++ new :: [early'], ¬ e.RefersTo new.name := by
    simp only [← Definition.mem_needs_iff]
    decide
  have hwellFormed : new.WellFormed := by
    rw [← Definition.firstUnsupported_eq_none_iff]
    decide
  have hordered : requestOrder ([waiting] ++ [early]) (.list []) .null =
      .ok ⟨[early, waiting], []⟩ := by
    have hdeclared := Definition.declared_eq_self ([waiting] ++ [early]) (by decide)
    let g : Graph := ⟨[⟨"waiting", 0, [1], []⟩, ⟨"early", 5, [], []⟩]⟩
    have hbuild : Graph.build ([waiting] ++ [early]) = .ok g := by
      refine Graph.build_eq_ok_of_found hdeclared (by decide) ?_ (by decide +kernel) (by decide)
      simp only [← Definition.firstUnsupported_eq_none_iff]
      decide
    have hemitted : g.emittedNodes = [1, 0] := by
      rw [Graph.emittedNodes, (Graph.wellFormed_of_build hbuild).start_eq]
      decide +kernel
    have hresolve := resolve_eq_ok_of_emitted hbuild (by rw [hemitted]; rfl) []
    rw [hdeclared, hemitted] at hresolve
    rw [requestOrder_plain, hresolve]
    rfl
  have hblocked : requestOrder ([first] ++ [early']) (.list []) .null =
      .error (.resolution (.emit (.deadlock ⟨["first", "early"], [["first", "early"]]⟩))) := by
    let g : Graph := ⟨[⟨"first", 2, [1], []⟩, ⟨"early", 3, [0], []⟩]⟩
    have hdeclared := Definition.declared_eq_self ([first] ++ [early']) (by decide)
    have hbuild : Graph.build ([first] ++ [early']) = .ok g := by
      refine Graph.build_eq_ok_of_found hdeclared (by decide) ?_ (by decide +kernel) (by decide)
      simp only [← Definition.firstUnsupported_eq_none_iff]
      decide
    have horder : g.order = .error ⟨["first", "early"], [["first", "early"]]⟩ := by
      have hg := Graph.wellFormed_of_build hbuild
      have hemitted : g.emittedNodes = [] := by
        rw [Graph.emittedNodes, hg.start_eq]
        decide +kernel
      rw [hg.order_eq_error (by rw [hemitted]; decide), Graph.remainder, hemitted]
      decide +kernel
    rw [requestOrder_plain, resolve_of_build hbuild, horder]
    rfl
  exact ⟨⟨hnew, hnew'⟩, ⟨hunused, hunused'⟩, hwellFormed, hordered,
    (requestOrder_insert hnew hunused hwellFormed (.list []) .null).1 _ hordered, hblocked,
    (requestOrder_insert hnew' hunused' hwellFormed (.list []) .null).2 _ hblocked⟩

end VariableOrder
