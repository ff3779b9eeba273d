import VariableOrder.Order.Request
import VariableOrder.Proofs.Definition.Settings
import VariableOrder.Proofs.Order.Arrangement
import VariableOrder.Proofs.Order.Emission

/-!
# When definitions have an order

Well-formed definitions are resolved exactly when their names are distinct and none of them
requires itself, and then the result is an arrangement of them. Otherwise a repeated name is
reported first, and a deadlock only when all names are distinct. The order that the graph yields
always fits the definitions, so it is never refused afterwards.
-/

set_option autoImplicit false

namespace VariableOrder

open Definition (IsArrangement)

variable {definitions : List Definition}

/-- Among definitions with distinct names the last one with the name of a definition is that
definition. -/
theorem Definition.last?_eq_some (h : (definitions.map (·.name)).Nodup) {d : Definition}
    (hd : d ∈ definitions) : last? definitions d.name = some d := by
  obtain ⟨before, after, rfl⟩ := List.append_of_mem hd
  refine last?_eq_some_iff.mpr ⟨rfl, before, after, rfl, ?_⟩
  intro e he heq
  rw [List.map_append, List.map_cons] at h
  exact (List.nodup_cons.mp h.of_append_right).1 (heq ▸ List.mem_map_of_mem he)

/-- An order that names every definition once is filled with the definitions again. -/
theorem emit_of_perm (h : (definitions.map (·.name)).Nodup) {arrangement : List Definition}
    (hperm : arrangement.Perm definitions) (warnings : List Warning) :
    emit (.ok (arrangement.map (·.name))) definitions warnings = .ok ⟨arrangement, warnings⟩ := by
  have hnames := hperm.map (·.name)
  have hfilled : (arrangement.map (·.name)).filterMap (Definition.last? definitions) =
      arrangement := by
    rw [List.filterMap_map]
    have hsome := (List.filterMap_eq_map_iff_forall_eq_some (g := id)).mpr fun d hd =>
      Definition.last?_eq_some h (hperm.mem_iff.mp hd)
    rwa [List.map_id] at hsome
  refine emit_eq_ok_iff.mpr ⟨_, rfl, ⟨hnames.nodup_iff.mpr h, fun name => hnames.mem_iff⟩, ?_⟩
  rw [hfilled]

namespace Graph

variable {g : Graph}

/-- The ordering of a graph without a cycle yields an arrangement of its definitions, in which
every node was the first ready one in its turn. -/
theorem order_of_acyclic (h : build definitions = .ok g)
    (hacyclic : Definition.Acyclic definitions) :
    g.emittedNodes.Perm (List.range g.size) ∧
      g.order = .ok ((Definition.atPositions (Definition.declared definitions)
        g.emittedNodes).map (·.name)) := by
  have hg := wellFormed_of_build h
  have hlength := hg.length_emittedNodes_iff.mpr ((acyclic_of_build h).mp hacyclic)
  have hbound : ∀ i ∈ g.emittedNodes, i < g.size := fun i hi =>
    ((hg.mem_emittedNodes_iff i).mp hi).1
  constructor
  · have hsub : g.emittedNodes ⊆ List.range g.size := fun i hi => List.mem_range.mpr (hbound i hi)
    refine (List.subperm_of_subset ?_ hsub).perm_of_length_le (by simp [hlength])
    exact nodup_of_stepwise hg.stepwise_isReady_emittedNodes
  · rw [Definition.map_atPositions (fun i d hd => name_of_build h hd)
      fun i hi => (lt_length_declared_iff h i).mpr (hbound i hi)]
    simp only [order, orderBy, hlength, if_true]

/-- The ordering of a graph ends in a deadlock exactly when there is a cycle. -/
theorem orderBy_eq_error_iff (hg : g.WellFormed) (subgraph : Graph → List Nat → Subgraph)
    (components : Subgraph → List (List Nat)) (d : Deadlock) :
    g.orderBy subgraph components = .error d ↔ (∃ i, Relation.TransGen g.Edge i i) ∧
      d = ⟨(g.byDeclaration g.remainder).map g.name,
        (g.cyclesAmong subgraph components g.remainder).map fun cycle => cycle.map g.name⟩ := by
  by_cases hlength : g.emittedNodes.length = g.size
  · have hacyclic := hg.length_emittedNodes_iff.mp hlength
    simp [orderBy, hlength, hacyclic]
  · have hcycle : ∃ i, Relation.TransGen g.Edge i i := by
      by_contra hnone
      exact hlength (hg.length_emittedNodes_iff.mpr fun i hi => hnone ⟨i, hi⟩)
    simp [orderBy, hlength, hcycle, eq_comm]

/-- The ordering of a graph succeeds exactly when there is no cycle. -/
theorem orderBy_eq_ok_iff (hg : g.WellFormed) (subgraph : Graph → List Nat → Subgraph)
    (components : Subgraph → List (List Nat)) (names : List String) :
    g.orderBy subgraph components = .ok names ↔ (¬ ∃ i, Relation.TransGen g.Edge i i) ∧
      names = g.emittedNodes.map g.name := by
  by_cases hcycle : ∃ i, Relation.TransGen g.Edge i i
  · rw [(orderBy_eq_error_iff hg subgraph components _).mpr ⟨hcycle, rfl⟩]
    simp [hcycle]
  · have hlength := hg.length_emittedNodes_iff.mpr fun i hi => hcycle ⟨i, hi⟩
    simp [orderBy, hlength, hcycle, eq_comm]

end Graph

/-- Well-formed definitions with distinct names have a graph. -/
theorem exists_graph (hnodup : (definitions.map (·.name)).Nodup)
    (hwellFormed : ∀ d ∈ definitions, d.WellFormed) : ∃ g, Graph.build definitions = .ok g :=
  ⟨_, Graph.build_eq_ok_iff.mpr ⟨hnodup, hwellFormed, rfl⟩⟩

/-- Definitions that have an arrangement are resolved to one, with the warnings of their graph. -/
theorem resolve_of_acyclic (hnodup : (definitions.map (·.name)).Nodup)
    (hwellFormed : ∀ d ∈ definitions, d.WellFormed) (hacyclic : Definition.Acyclic definitions)
    (external : List String) :
    ∃ o, resolve definitions external = .ok o ∧ IsArrangement definitions o.definitions := by
  obtain ⟨g, hbuild⟩ := exists_graph hnodup hwellFormed
  obtain ⟨hperm, horder⟩ := Graph.order_of_acyclic hbuild hacyclic
  have harrangement := Graph.isArrangement_of_stepwise hbuild hperm
    (Graph.wellFormed_of_build hbuild).stepwise_isReady_emittedNodes
  refine ⟨⟨Definition.atPositions (Definition.declared definitions) g.emittedNodes,
    g.warnings external⟩, ?_, harrangement⟩
  simp only [resolve, hbuild, horder, emit_of_perm hnodup harrangement.perm]

/-- Definitions with a repeated name are refused for it, whatever they refer to. -/
theorem resolve_of_not_nodup (h : ¬ (definitions.map (·.name)).Nodup) (external : List String) :
    ∃ name first second,
      resolve definitions external = .error (.build (.duplicate name first second)) := by
  obtain ⟨name, first, second, hbuild⟩ := Graph.build_of_not_nodup h
  exact ⟨name, first, second, by simp only [resolve, hbuild]⟩

/-- Definitions with distinct names that require each other in a circle end in a deadlock. -/
theorem resolve_of_not_acyclic (hnodup : (definitions.map (·.name)).Nodup)
    (hwellFormed : ∀ d ∈ definitions, d.WellFormed) (hcyclic : ¬ Definition.Acyclic definitions)
    (external : List String) :
    ∃ deadlock, resolve definitions external = .error (.emit (.deadlock deadlock)) := by
  obtain ⟨g, hbuild⟩ := exists_graph hnodup hwellFormed
  have hcycle : ∃ i, Relation.TransGen g.Edge i i := by
    by_contra hnone
    exact hcyclic ((Graph.acyclic_of_build hbuild).mpr fun i hi => hnone ⟨i, hi⟩)
  have horder : ∃ deadlock, g.order = .error deadlock :=
    ⟨_, (Graph.orderBy_eq_error_iff (Graph.wellFormed_of_build hbuild) Graph.subgraph
      Subgraph.components _).mpr ⟨hcycle, rfl⟩⟩
  obtain ⟨deadlock, horder⟩ := horder
  exact ⟨deadlock, by simp only [resolve, hbuild, horder, emit]⟩

/-- When the ordering of a graph succeeds, the definitions of the emitted nodes are an
arrangement with the names of the order. -/
theorem Graph.isArrangement_of_order {g : Graph} (h : Graph.build definitions = .ok g)
    {names : List String} (horder : g.order = .ok names) :
    IsArrangement definitions
      (Definition.atPositions (Definition.declared definitions) g.emittedNodes) ∧
    names = (Definition.atPositions (Definition.declared definitions) g.emittedNodes).map
      (·.name) := by
  have hg := wellFormed_of_build h
  obtain ⟨hnone, -⟩ := (orderBy_eq_ok_iff hg subgraph Subgraph.components names).mp horder
  obtain ⟨hperm, hfilled⟩ := order_of_acyclic h ((acyclic_of_build h).mpr fun i hi => hnone ⟨i, hi⟩)
  exact ⟨isArrangement_of_stepwise h hperm hg.stepwise_isReady_emittedNodes,
    Except.ok.inj (horder.symm.trans hfilled)⟩

/-- The count of workers has no influence on what definitions are resolved to. -/
theorem resolve_workers (definitions : List Definition) (external : List String)
    (workers : Option Int) : resolve definitions external workers = resolve definitions external := by
  simp only [resolve, Graph.build_workers]

/-- A request under accepted settings is answered with what the definitions are resolved to. -/
theorem requestOrder_eq (definitions : List Definition) (external workers : Data.Value) :
    requestOrder definitions external workers =
      match Settings.requested external workers with
      | .error findings => .error (.settings findings)
      | .ok settings => (resolve definitions settings.external).mapError .resolution := by
  unfold requestOrder
  cases Settings.requested external workers with
  | error findings => rfl
  | ok settings => simp only [resolve_workers]

/-- What definitions with a graph are resolved to. -/
theorem resolve_of_build {g : Graph} (h : Graph.build definitions = .ok g)
    (external : List String) :
    resolve definitions external = match g.order with
      | .ok _ => .ok ⟨Definition.atPositions (Definition.declared definitions) g.emittedNodes,
          g.warnings external⟩
      | .error deadlock => .error (.emit (.deadlock deadlock)) := by
  cases horder : g.order with
  | error deadlock => simp only [resolve, h, horder, emit]
  | ok names =>
    obtain ⟨harrangement, rfl⟩ := Graph.isArrangement_of_order h horder
    simp only [resolve, h, horder, emit_of_perm (Graph.build_eq_ok_iff.mp h).1 harrangement.perm]

/-- What is resolved to an order has a graph whose ordering succeeds. -/
theorem exists_graph_of_resolve_ok {external : List String} {o : Ordered}
    (h : resolve definitions external = .ok o) :
    ∃ g names, Graph.build definitions = .ok g ∧ g.order = .ok names ∧
      o.definitions =
        Definition.atPositions (Definition.declared definitions) g.emittedNodes := by
  cases hbuild : Graph.build definitions with
  | error failure => simp only [resolve, hbuild, reduceCtorEq] at h
  | ok g =>
    rw [resolve_of_build hbuild] at h
    cases horder : g.order with
    | error deadlock => simp only [horder, reduceCtorEq] at h
    | ok names =>
      simp only [horder, Except.ok.injEq] at h
      exact ⟨g, names, rfl, horder, h ▸ rfl⟩

/-- A resolved order holds the definitions that were asked about, each as it was. -/
theorem perm_of_resolve {external : List String} {o : Ordered}
    (h : resolve definitions external = .ok o) : o.definitions.Perm definitions := by
  obtain ⟨g, names, hbuild, horder, hdefinitions⟩ := exists_graph_of_resolve_ok h
  rw [hdefinitions]
  exact (Graph.isArrangement_of_order hbuild horder).1.perm

/-- What is resolved to a deadlock has a graph whose ordering ends in it. -/
theorem exists_graph_of_resolve_deadlock {external : List String} {deadlock : Deadlock}
    (h : resolve definitions external = .error (.emit (.deadlock deadlock))) :
    ∃ g, Graph.build definitions = .ok g ∧ g.order = .error deadlock := by
  cases hbuild : Graph.build definitions with
  | error failure => simp only [resolve, hbuild, Except.error.injEq, reduceCtorEq] at h
  | ok g =>
    rw [resolve_of_build hbuild] at h
    cases horder : g.order with
    | ok names => simp only [horder, reduceCtorEq] at h
    | error found =>
      simp only [horder, Except.error.injEq, ResolveFailure.emit.injEq,
        EmitFailure.deadlock.injEq] at h
      exact ⟨g, rfl, h ▸ horder⟩

/-- A request with well-formed definitions and a valid count of workers is answered with an
arrangement of the definitions exactly when their names are distinct and none of them requires
itself. A repeated name is reported before any deadlock, a deadlock exactly when there is a
circle, and an order is never refused for not fitting the definitions. -/
theorem requestOrder_outcome (definitions : List Definition) (external : List String)
    (workers : Option Int) (hwellFormed : ∀ d ∈ definitions, d.WellFormed)
    (hworkers : ∀ n, workers = some n → 1 ≤ n) :
    let outcome := requestOrder definitions (.list (external.map .text))
      (Settings.workersValue workers)
    ((∃ o, outcome = .ok o) ↔
      (definitions.map (·.name)).Nodup ∧ Definition.Acyclic definitions) ∧
    (∀ o, outcome = .ok o → IsArrangement definitions o.definitions) ∧
    (¬ (definitions.map (·.name)).Nodup → ∃ name first second,
      outcome = .error (.resolution (.build (.duplicate name first second)))) ∧
    ((definitions.map (·.name)).Nodup → ¬ Definition.Acyclic definitions → ∃ deadlock,
      outcome = .error (.resolution (.emit (.deadlock deadlock)))) ∧
    ∀ order, outcome ≠ .error (.resolution (.emit (.notPermutation order))) := by
  intro outcome
  have houtcome : outcome = (resolve definitions external).mapError .resolution := by
    simp only [outcome, requestOrder_eq, Settings.requested_eq_ok external workers hworkers]
  by_cases hnodup : (definitions.map (·.name)).Nodup
  · by_cases hacyclic : Definition.Acyclic definitions
    · obtain ⟨o, hresolve, harrangement⟩ :=
        resolve_of_acyclic hnodup hwellFormed hacyclic external
      have hok : outcome = .ok o := by
        rw [houtcome, hresolve]
        rfl
      refine ⟨by simp [hok, hnodup, hacyclic], ?_, by simp [hnodup], by simp [hacyclic],
        by simp [hok]⟩
      intro other hother
      rw [hok] at hother
      exact Except.ok.inj hother ▸ harrangement
    · obtain ⟨deadlock, hresolve⟩ :=
        resolve_of_not_acyclic hnodup hwellFormed hacyclic external
      have herror : outcome = .error (.resolution (.emit (.deadlock deadlock))) := by
        rw [houtcome, hresolve]
        rfl
      exact ⟨by simp [herror, hacyclic], by simp [herror], by simp [hnodup],
        fun _ _ => ⟨deadlock, herror⟩, by simp [herror]⟩
  · obtain ⟨name, first, second, hresolve⟩ := resolve_of_not_nodup hnodup external
    have herror : outcome = .error (.resolution (.build (.duplicate name first second))) := by
      rw [houtcome, hresolve]
      rfl
    exact ⟨by simp [herror, hnodup], by simp [herror], fun _ => ⟨name, first, second, herror⟩,
      by simp [hnodup], by simp [herror]⟩

/-- Two definitions that refer to each other are refused for a deadlock. -/
theorem requestOrder_outcome_mutual :
    let definitions := Definition.ofSpecs
      [("first", .reference ⟨"second", false, "second"⟩),
        ("second", .reference ⟨"first", false, "first"⟩)] []
    (∀ d ∈ definitions, d.WellFormed) ∧ (∀ n, some (4 : Int) = some n → 1 ≤ n) ∧
      ∃ deadlock, requestOrder definitions (.list (["host"].map .text))
        (Settings.workersValue (some 4)) = .error (.resolution (.emit (.deadlock deadlock))) := by
  intro definitions
  have hwellFormed : ∀ d ∈ definitions, d.WellFormed := by
    simp only [← Definition.firstUnsupported_eq_none_iff]
    decide
  have hworkers : ∀ n, some (4 : Int) = some n → 1 ≤ n := by simp
  have hcyclic : ¬ Definition.Acyclic definitions := by
    have hrefers : ∀ a ∈ definitions, ∀ b ∈ definitions, a.name ≠ b.name →
        b.RefersTo a.name := by
      simp only [← Definition.mem_needs_iff]
      decide
    have hto : Definition.Requires definitions definitions[0] definitions[1] :=
      ⟨by simp, by simp, hrefers _ (by simp) _ (by simp) (by decide)⟩
    have hback : Definition.Requires definitions definitions[1] definitions[0] :=
      ⟨by simp, by simp, hrefers _ (by simp) _ (by simp) (by decide)⟩
    intro hacyclic
    exact hacyclic definitions[0] ((Relation.TransGen.single hto).tail hback)
  exact ⟨hwellFormed, hworkers, (requestOrder_outcome definitions ["host"] (some 4) hwellFormed
    hworkers).2.2.2.1 (by decide) hcyclic⟩

end VariableOrder
