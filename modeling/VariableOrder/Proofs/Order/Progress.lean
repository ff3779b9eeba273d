import Mathlib.Data.List.Induction
import Mathlib.Data.List.Perm.Basic
import Mathlib.Data.List.Nodup
import VariableOrder.Proofs.Graph.WellFormed
import VariableOrder.Proofs.Order.Declaration

/-!
# The invariant of emission

In every progress of the ordering of a well-formed graph the count of a node is the number of
needed nodes that are not emitted, the ready nodes are exactly those that can be emitted next,
and every emitted node was the first ready one when it was emitted. One step keeps this, hence
every run does. A run of as many steps as there are nodes ends where no node is ready.
-/

set_option autoImplicit false

namespace VariableOrder

/-- Every member of a list is related to the members in front of it. -/
def Stepwise {α : Type} (P : List α → α → Prop) (l : List α) : Prop :=
  ∀ before a after, l = before ++ a :: after → P before a

/-- No element is needed to begin with. -/
theorem Stepwise.nil {α : Type} (P : List α → α → Prop) : Stepwise P [] := by
  intro before a after h
  simp at h

/-- A member is added at the end when it is related to all that is there already. -/
theorem stepwise_concat {α : Type} {P : List α → α → Prop} {l : List α} {a : α} :
    Stepwise P (l ++ [a]) ↔ Stepwise P l ∧ P l a := by
  constructor
  · intro h
    refine ⟨?_, h l a [] rfl⟩
    intro before b after hl
    exact h before b (after ++ [a]) (by simp [hl])
  · rintro ⟨hl, ha⟩ before b after heq
    rcases List.eq_nil_or_concat after with rfl | ⟨init, last, rfl⟩
    · obtain ⟨rfl, hb⟩ := List.append_inj' heq rfl
      rw [List.singleton_inj] at hb
      exact hb ▸ ha
    · have hsplit : l ++ [a] = (before ++ b :: init) ++ [last] := by simp [heq]
      exact hl before b init (List.append_inj' hsplit rfl).1

/-- What holds step by step may be weakened step by step. -/
theorem Stepwise.imp {α : Type} {P Q : List α → α → Prop} {l : List α} (h : Stepwise P l)
    (hPQ : ∀ before a, P before a → Q before a) : Stepwise Q l :=
  fun before a after heq => hPQ before a (h before a after heq)

namespace Graph

/-- Whether a node can be emitted next: it is not emitted yet, but everything that it needs is. -/
def IsReady (g : Graph) (emitted : List Nat) (node : Nat) : Prop :=
  node < g.size ∧ node ∉ emitted ∧ ∀ i, g.Edge i node → i ∈ emitted

/-- Whether a node can be emitted next and is declared before all others that can. -/
def IsFirstReady (g : Graph) (emitted : List Nat) (node : Nat) : Prop :=
  g.IsReady emitted node ∧ ∀ other, g.IsReady emitted other → other = node ∨ g.Before node other

variable {g : Graph}

/-- A sequence of nodes that were ready one after the other has no repetition. -/
theorem nodup_of_stepwise {order : List Nat} (h : Stepwise g.IsReady order) : order.Nodup := by
  induction order using List.reverseRecOn with
  | nil => exact List.nodup_nil
  | append_singleton l a ih =>
    obtain ⟨hl, ha⟩ := stepwise_concat.mp h
    exact List.nodup_append.mpr ⟨ih hl, List.nodup_singleton a, by
      intro x hx y hy
      rw [List.mem_singleton] at hy
      rintro rfl
      exact ha.2.1 (hy ▸ hx)⟩

/-- What is emitted step by step are nodes of the graph. -/
theorem lt_size_of_stepwise {order : List Nat} (h : Stepwise g.IsReady order) {node : Nat}
    (hnode : node ∈ order) : node < g.size := by
  obtain ⟨before, after, rfl⟩ := List.append_of_mem hnode
  exact (h before node after rfl).1

/-- What an emitted node needs is emitted, too. -/
theorem mem_of_edge_of_stepwise {order : List Nat} (h : Stepwise g.IsReady order) {i j : Nat}
    (hedge : g.Edge i j) (hj : j ∈ order) : i ∈ order := by
  obtain ⟨before, after, rfl⟩ := List.append_of_mem hj
  exact List.mem_append_left _ ((h before j after rfl).2.2 i hedge)

/-- No more nodes are emitted than there are. -/
theorem length_le_of_stepwise {order : List Nat} (h : Stepwise g.IsReady order) :
    order.length ≤ g.size := by
  have hsub : order ⊆ List.range g.size := fun node hnode =>
    List.mem_range.mpr (lt_size_of_stepwise h hnode)
  simpa using (List.subperm_of_subset (nodup_of_stepwise h) hsub).length_le

end Graph

namespace Progress

variable {g : Graph} {p : Progress}

/-- Inserting a node adds it to the ready ones and loses none. -/
theorem insertReady_perm (node : Nat) (ready : List Nat) :
    (insertReady g node ready).Perm (node :: ready) := by
  induction ready with
  | nil => exact List.Perm.refl _
  | cons head rest ih =>
    unfold insertReady
    split_ifs
    · exact List.Perm.refl _
    · exact (ih.cons head).trans (List.Perm.swap node head rest)

/-- The ready nodes after inserting one are this one and those before. -/
theorem mem_insertReady (node other : Nat) (ready : List Nat) :
    other ∈ insertReady g node ready ↔ other = node ∨ other ∈ ready := by
  rw [(insertReady_perm node ready).mem_iff, List.mem_cons]

/-- Inserting a new node keeps the ready nodes in the order of declaration. -/
theorem pairwise_insertReady (node : Nat) (ready : List Nat) (h : ready.Pairwise g.Before)
    (hnew : node ∉ ready) : (insertReady g node ready).Pairwise g.Before := by
  induction ready with
  | nil => simp [insertReady]
  | cons head rest ih =>
    obtain ⟨hhead, hrest⟩ := List.pairwise_cons.mp h
    obtain ⟨hne, hnotin⟩ := not_or.mp (fun hor => hnew (List.mem_cons.mpr hor))
    unfold insertReady
    split_ifs with hle
    · have hbefore := Graph.before_of_ne ((Graph.declaredUpTo_iff node head).mp hle) hne
      refine List.pairwise_cons.mpr ⟨?_, h⟩
      intro other hother
      rcases List.mem_cons.mp hother with rfl | hmem
      · exact hbefore
      · exact hbefore.trans (hhead other hmem)
    · refine List.pairwise_cons.mpr ⟨?_, ih hrest hnotin⟩
      intro other hother
      rcases (mem_insertReady node other rest).mp hother with rfl | hmem
      · exact Graph.before_of_not_declaredUpTo hle
      · exact hhead other hmem

/-- Releasing nodes emits none. -/
@[simp]
theorem foldl_release_emitted (p : Progress) (nodes : List Nat) :
    (nodes.foldl (release g) p).emitted = p.emitted := by
  induction nodes generalizing p with
  | nil => rfl
  | cons node rest ih => exact ih (release g p node)

/-- Releasing nodes keeps a count for every node. -/
@[simp]
theorem foldl_release_length (p : Progress) (nodes : List Nat) :
    (nodes.foldl (release g) p).pending.length = p.pending.length := by
  induction nodes generalizing p with
  | nil => rfl
  | cons node rest ih =>
    rw [List.foldl_cons, ih]
    simp [release]

/-- Releasing a node lowers its count by one and no other. -/
theorem release_pending (p : Progress) {node : Nat} (hnode : node < p.pending.length) (v : Nat) :
    (release g p node).pending.getD v 0 = p.pending.getD v 0 - if v = node then 1 else 0 := by
  simp only [release, List.getD_eq_getElem?_getD, List.getElem?_set]
  by_cases hv : v = node
  · subst hv
    simp [hnode]
  · simp [hv, Ne.symm hv]

/-- Releasing different nodes lowers the count of each of them by one. -/
theorem foldl_release_pending (p : Progress) (nodes : List Nat) (hnodup : nodes.Nodup)
    (hbound : ∀ node ∈ nodes, node < p.pending.length) (v : Nat) :
    (nodes.foldl (release g) p).pending.getD v 0 =
      p.pending.getD v 0 - if v ∈ nodes then 1 else 0 := by
  induction nodes generalizing p with
  | nil => simp
  | cons node rest ih =>
    obtain ⟨hnotin, hrest⟩ := List.nodup_cons.mp hnodup
    have hlength : (release g p node).pending.length = p.pending.length := by simp [release]
    rw [List.foldl_cons, ih (release g p node) hrest
      (fun n hn => hlength ▸ hbound n (List.mem_cons_of_mem node hn)),
      release_pending p (hbound node List.mem_cons_self)]
    by_cases hv : v = node
    · subst hv
      simp [hnotin]
    · simp [hv]

/-- Releasing a node makes it ready when it was waiting for one more node only. -/
theorem mem_release_ready (p : Progress) (node v : Nat) :
    v ∈ (release g p node).ready ↔ v ∈ p.ready ∨ v = node ∧ p.pending.getD node 0 = 1 := by
  unfold release
  dsimp only
  split_ifs with hleft
  · have hone : p.pending.getD node 0 = 1 := by omega
    simp only [mem_insertReady, hone, and_true]
    tauto
  · have hmore : p.pending.getD node 0 ≠ 1 := by omega
    simp only [hmore, and_false, or_false]

/-- Releasing different nodes makes those of them ready that were waiting for one more node
only. -/
theorem mem_foldl_release_ready (p : Progress) (nodes : List Nat) (hnodup : nodes.Nodup)
    (hbound : ∀ node ∈ nodes, node < p.pending.length) (v : Nat) :
    v ∈ (nodes.foldl (release g) p).ready ↔
      v ∈ p.ready ∨ v ∈ nodes ∧ p.pending.getD v 0 = 1 := by
  induction nodes generalizing p with
  | nil => simp
  | cons node rest ih =>
    obtain ⟨hnotin, hrest⟩ := List.nodup_cons.mp hnodup
    have hlength : (release g p node).pending.length = p.pending.length := by simp [release]
    rw [List.foldl_cons, ih (release g p node) hrest
      (fun n hn => hlength ▸ hbound n (List.mem_cons_of_mem node hn)), mem_release_ready,
      release_pending p (hbound node List.mem_cons_self)]
    by_cases hv : v = node
    · subst hv
      simp [hnotin]
    · simp [hv]

/-- Releasing different nodes that are not ready yet keeps the ready ones strictly ascending. -/
theorem pairwise_foldl_release_ready (p : Progress) (nodes : List Nat) (hnodup : nodes.Nodup)
    (hnew : ∀ node ∈ nodes, node ∉ p.ready) (h : p.ready.Pairwise g.Before) :
    (nodes.foldl (release g) p).ready.Pairwise g.Before := by
  induction nodes generalizing p with
  | nil => exact h
  | cons node rest ih =>
    obtain ⟨hnotin, hrest⟩ := List.nodup_cons.mp hnodup
    rw [List.foldl_cons]
    refine ih (release g p node) hrest ?_ ?_
    · intro n hn hready
      rcases (mem_release_ready p node n).mp hready with hold | ⟨rfl, -⟩
      · exact hnew n (List.mem_cons_of_mem node hn) hold
      · exact hnotin hn
    · unfold release
      dsimp only
      split_ifs
      · exact pairwise_insertReady node p.ready h (hnew node List.mem_cons_self)
      · exact h

/-- Emitting a needed node that was not emitted leaves one needed node less. -/
theorem length_filter_concat {needed emitted : List Nat} {node : Nat} (hneeded : needed.Nodup)
    (hnode : node ∉ emitted) :
    (needed.filter fun i => i ∉ emitted ++ [node]).length + (if node ∈ needed then 1 else 0) =
      (needed.filter fun i => i ∉ emitted).length := by
  have herase : (needed.filter fun i => i ∉ emitted ++ [node]) =
      (needed.filter fun i => i ∉ emitted).erase node := by
    rw [(hneeded.filter _).erase_eq_filter, List.filter_filter]
    apply List.filter_congr
    intro i _
    by_cases hi : i = node <;> simp [hi]
  rw [herase]
  by_cases hmem : node ∈ needed
  · rw [if_pos hmem]
    exact List.length_erase_add_one (List.mem_filter.mpr ⟨hmem, by simpa using hnode⟩)
  · have hnone : node ∉ needed.filter fun i => i ∉ emitted := mt List.mem_of_mem_filter hmem
    rw [if_neg hmem, List.erase_of_not_mem hnone, Nat.add_zero]

/-- What holds of every progress in the ordering of a graph. -/
structure Sound (g : Graph) (p : Progress) : Prop where
  length : p.pending.length = g.size
  counts : ∀ node < g.size,
    p.pending.getD node 0 = ((g.predecessorsOf node).filter fun i => i ∉ p.emitted).length
  declared : p.ready.Pairwise g.Before
  mem_ready : ∀ node, node ∈ p.ready ↔ g.IsReady p.emitted node
  emitted : Stepwise g.IsFirstReady p.emitted

/-- The emitted nodes were ready in their turn. -/
theorem Sound.stepwise_ready (h : p.Sound g) : Stepwise g.IsReady p.emitted :=
  h.emitted.imp fun _ _ hfirst => hfirst.1

/-- The progress before the first step is sound. -/
theorem sound_start (g : Graph) : (start g).Sound g where
  length := by simp [start, Graph.size]
  counts := by
    intro node hnode
    have hn := List.getElem?_eq_getElem (show node < g.nodes.length from hnode)
    simp [start, Graph.predecessorsOf, hn]
  declared := Graph.pairwise_byDeclaration
    ((pairwise_positions g.nodes fun n => n.dependencies.isEmpty).imp ne_of_lt)
  mem_ready := by
    intro node
    refine (Graph.byDeclaration_perm _).mem_iff.trans ?_
    refine (mem_positions g.nodes (fun n => n.dependencies.isEmpty) node).trans ?_
    constructor
    · rintro ⟨n, hn, hempty⟩
      refine ⟨(List.getElem?_eq_some_iff.mp hn).1, List.not_mem_nil, ?_⟩
      intro i hedge
      obtain ⟨m, hm, hi⟩ := (Graph.edge_iff i node).mp hedge
      obtain rfl : n = m := Option.some.inj (hn.symm.trans hm)
      rw [List.isEmpty_iff.mp hempty] at hi
      exact absurd hi List.not_mem_nil
    · rintro ⟨hsize, -, hneeds⟩
      have hsome := List.getElem?_eq_getElem (show node < g.nodes.length from hsize)
      refine ⟨_, hsome, List.isEmpty_iff.mpr (List.eq_nil_iff_forall_not_mem.mpr ?_)⟩
      intro i hi
      exact absurd (hneeds i ((Graph.edge_iff i node).mpr ⟨_, hsome, hi⟩)) List.not_mem_nil
  emitted := Stepwise.nil _

/-- A node that needs a ready node is neither emitted nor ready. -/
theorem Sound.waits (h : p.Sound g) {node v : Nat} (hnode : node ∈ p.ready)
    (hedge : g.Edge node v) : v ∉ p.emitted ∧ v ∉ p.ready := by
  have hready := (h.mem_ready node).mp hnode
  constructor
  · intro hv
    exact hready.2.1 (Graph.mem_of_edge_of_stepwise h.stepwise_ready hedge hv)
  · intro hv
    exact hready.2.1 (((h.mem_ready v).mp hv).2.2 node hedge)

/-- A node that is not emitted waits for no other node than a given one exactly when all that it
needs is emitted as soon as that one is. -/
theorem Sound.waits_only_for (hg : g.WellFormed) (h : p.Sound g) {node v : Nat}
    (hnode : node ∉ p.emitted) (hedge : g.Edge node v) :
    p.pending.getD v 0 = 1 ↔ ∀ i, g.Edge i v → i ∈ p.emitted ++ [node] := by
  have hcount := length_filter_concat
    ((hg.pairwise_predecessorsOf v).imp fun hlt => Nat.ne_of_lt hlt) hnode
  rw [if_pos (show node ∈ g.predecessorsOf v from hedge)] at hcount
  rw [h.counts v (hg.edge_lt hedge).2]
  have hzero : ((g.predecessorsOf v).filter fun i => i ∉ p.emitted ++ [node]).length = 0 ↔
      ∀ i, g.Edge i v → i ∈ p.emitted ++ [node] := by
    rw [List.length_eq_zero_iff, List.filter_eq_nil_iff]
    simp only [decide_eq_true_eq, not_not]
    rfl
  rw [← hzero]
  omega

/-- A step emits the first ready node and releases what needs it. -/
theorem step_of_ready {node : Nat} {rest : List Nat} (hready : p.ready = node :: rest) :
    p.step g = (g.successorsOf node).foldl (release g) ⟨p.pending, rest, p.emitted ++ [node]⟩ := by
  simp only [step, hready]

/-- The nodes that need a node are different nodes with a count each. -/
theorem Sound.releasable (hg : g.WellFormed) (h : p.Sound g) (node : Nat) :
    (g.successorsOf node).Nodup ∧ ∀ v ∈ g.successorsOf node, v < p.pending.length := by
  refine ⟨(Graph.pairwise_successorsOf node).imp fun hlt => Nat.ne_of_lt hlt, ?_⟩
  intro v hv
  rw [h.length]
  exact (hg.edge_lt ((Graph.mem_successorsOf node v).mp hv)).2

/-- After the first ready node is emitted, counts are numbers of needed nodes again. -/
theorem Sound.step_counts (hg : g.WellFormed) (h : p.Sound g) {node : Nat} {rest : List Nat}
    (hready : p.ready = node :: rest) {v : Nat} (hv : v < g.size) :
    (p.step g).pending.getD v 0 =
      ((g.predecessorsOf v).filter fun i => i ∉ p.emitted ++ [node]).length := by
  obtain ⟨hnodup, hbound⟩ := h.releasable hg node
  have hnode : node ∉ p.emitted := ((h.mem_ready node).mp (by simp [hready])).2.1
  have hcount := length_filter_concat
    ((hg.pairwise_predecessorsOf v).imp fun hlt => Nat.ne_of_lt hlt) hnode
  rw [step_of_ready hready,
    foldl_release_pending ⟨p.pending, rest, p.emitted ++ [node]⟩ _ hnodup hbound, h.counts v hv]
  by_cases hneeded : node ∈ g.predecessorsOf v
  · rw [if_pos hneeded] at hcount
    rw [if_pos ((Graph.mem_successorsOf node v).mpr hneeded)]
    omega
  · rw [if_neg hneeded] at hcount
    rw [if_neg (mt (Graph.mem_successorsOf node v).mp hneeded)]
    omega

/-- After the first ready node is emitted, the ready nodes are those that can be emitted next. -/
theorem Sound.mem_step_ready (hg : g.WellFormed) (h : p.Sound g) {node : Nat} {rest : List Nat}
    (hready : p.ready = node :: rest) (v : Nat) :
    v ∈ (p.step g).ready ↔ g.IsReady (p.emitted ++ [node]) v := by
  obtain ⟨hnodup, hbound⟩ := h.releasable hg node
  have hnode : node ∈ p.ready := by simp [hready]
  have hfirst := (h.mem_ready node).mp hnode
  have habove := (List.pairwise_cons.mp (hready ▸ h.declared)).1
  rw [step_of_ready hready,
    mem_foldl_release_ready ⟨p.pending, rest, p.emitted ++ [node]⟩ _ hnodup hbound,
    Graph.mem_successorsOf]
  constructor
  · rintro (hmem | ⟨hedge, hone⟩)
    · have hv := (h.mem_ready v).mp (hready ▸ List.mem_cons_of_mem node hmem)
      have hne : v ≠ node := (habove v hmem).ne.symm
      exact ⟨hv.1, by simp [hv.2.1, hne], fun i hi => List.mem_append_left _ (hv.2.2 i hi)⟩
    · have hwaits := h.waits hnode hedge
      have hne : v ≠ node := by
        rintro rfl
        exact hwaits.2 hnode
      exact ⟨(hg.edge_lt hedge).2, by simp [hwaits.1, hne],
        (h.waits_only_for hg hfirst.2.1 hedge).mp hone⟩
  · rintro ⟨hsize, hnotin, hneeds⟩
    by_cases hedge : g.Edge node v
    · exact .inr ⟨hedge, (h.waits_only_for hg hfirst.2.1 hedge).mpr hneeds⟩
    · rw [List.mem_append, List.mem_singleton, not_or] at hnotin
      have hv : v ∈ p.ready := by
        refine (h.mem_ready v).mpr ⟨hsize, hnotin.1, fun i hi => ?_⟩
        rcases List.mem_append.mp (hneeds i hi) with hmem | hmem
        · exact hmem
        · exact absurd (List.mem_singleton.mp hmem ▸ hi) hedge
      rw [hready] at hv
      exact .inl ((List.mem_cons.mp hv).resolve_left hnotin.2)

/-- The first member of the ready nodes is the first ready node. -/
theorem Sound.isFirstReady (h : p.Sound g) {node : Nat} {rest : List Nat}
    (hready : p.ready = node :: rest) : g.IsFirstReady p.emitted node := by
  refine ⟨(h.mem_ready node).mp (by simp [hready]), ?_⟩
  intro other hother
  have hmem := (h.mem_ready other).mpr hother
  rw [hready] at hmem
  rcases List.mem_cons.mp hmem with rfl | hmem
  · exact .inl rfl
  · exact .inr ((List.pairwise_cons.mp (hready ▸ h.declared)).1 other hmem)

/-- One step keeps a progress sound. -/
theorem Sound.step (hg : g.WellFormed) (h : p.Sound g) : (p.step g).Sound g := by
  cases hready : p.ready with
  | nil =>
    have hstay : p.step g = p := by simp [Progress.step, hready]
    rw [hstay]
    exact h
  | cons node rest =>
    have hemitted : (p.step g).emitted = p.emitted ++ [node] := by simp [step_of_ready hready]
    refine ⟨?_, ?_, ?_, ?_, ?_⟩
    · simpa [step_of_ready hready] using h.length
    · intro v hv
      rw [hemitted]
      exact h.step_counts hg hready hv
    · rw [step_of_ready hready]
      refine pairwise_foldl_release_ready _ _ (h.releasable hg node).1 ?_
        (List.pairwise_cons.mp (hready ▸ h.declared)).2
      intro v hv hmem
      exact (h.waits (by simp [hready]) ((Graph.mem_successorsOf node v).mp hv)).2
        (hready ▸ List.mem_cons_of_mem node hmem)
    · intro v
      rw [hemitted]
      exact h.mem_step_ready hg hready v
    · rw [hemitted]
      exact stepwise_concat.mpr ⟨h.emitted, h.isFirstReady hready⟩

/-- Soundness is preserved by any count of steps. -/
theorem Sound.run (hg : g.WellFormed) (count : Nat) (h : p.Sound g) :
    (run g count p).Sound g := by
  induction count generalizing p with
  | zero => exact h
  | succ count ih => exact ih (h.step hg)

/-- One more step may be taken at the end. -/
theorem run_succ (count : Nat) (p : Progress) : run g (count + 1) p = (run g count p).step g := by
  induction count generalizing p with
  | zero => rfl
  | succ count ih => exact ih (p.step g)

/-- As long as a node is ready, every step emits one. -/
theorem length_emitted_run (count : Nat) (h : ∀ earlier < count, (run g earlier p).ready ≠ []) :
    (run g count p).emitted.length = p.emitted.length + count := by
  induction count with
  | zero => rfl
  | succ count ih =>
    obtain ⟨node, rest, hready⟩ := List.exists_cons_of_ne_nil (h count (Nat.lt_succ_self count))
    rw [run_succ, step_of_ready hready, foldl_release_emitted, List.length_append,
      ih fun earlier hlt => h earlier (by omega), List.length_singleton]
    omega

/-- Where no node is ready nothing changes any more. -/
theorem run_of_ready_eq_nil {last count : Nat} (hlast : (run g last p).ready = [])
    (h : last ≤ count) : run g count p = run g last p := by
  induction count, h using Nat.le_induction with
  | base => rfl
  | succ count _ ih =>
    rw [run_succ, ih]
    simp [step, hlast]

/-- A run emits one node in each step unless it ends where no node is ready. -/
theorem run_ready_or_length (g : Graph) (count : Nat) (p : Progress) :
    (run g count p).ready = [] ∨ (run g count p).emitted.length = p.emitted.length + count := by
  by_cases hends : ∃ earlier < count, (run g earlier p).ready = []
  · obtain ⟨earlier, hlt, hready⟩ := hends
    left
    rw [run_of_ready_eq_nil hready (Nat.le_of_lt hlt), hready]
  · right
    apply length_emitted_run
    intro earlier hlt hready
    exact hends ⟨earlier, hlt, hready⟩

end Progress

namespace Graph

variable {g : Graph}

/-- The progress after as many steps as there are nodes is sound. -/
theorem WellFormed.sound_run (h : g.WellFormed) :
    (Progress.run g g.size (Progress.start g)).Sound g :=
  (Progress.sound_start g).run h g.size

/-- Every emitted node was the first ready one when it was emitted. -/
theorem WellFormed.stepwise_emittedNodes (h : g.WellFormed) :
    Stepwise g.IsFirstReady g.emittedNodes :=
  h.sound_run.emitted

/-- No node is ready after the last step. -/
theorem WellFormed.not_isReady_emittedNodes (h : g.WellFormed) (node : Nat) :
    ¬ g.IsReady g.emittedNodes node := by
  intro hready
  have hsound := h.sound_run
  rcases Progress.run_ready_or_length g g.size (Progress.start g) with hdone | hcount
  · have hmem := (hsound.mem_ready node).mpr hready
    rw [hdone] at hmem
    exact absurd hmem List.not_mem_nil
  · have hlonger := length_le_of_stepwise (stepwise_concat.mpr ⟨hsound.stepwise_ready, hready⟩)
    have hlength : g.emittedNodes.length = g.size := by
      simpa [emittedNodes, Progress.start] using hcount
    simp only [List.length_append, List.length_singleton] at hlonger
    change g.emittedNodes.length + 1 ≤ g.size at hlonger
    omega

end Graph

end VariableOrder
