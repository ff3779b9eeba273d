import Mathlib.Data.Finset.Card
import Mathlib.Data.Nat.Find
import VariableOrder.Proofs.Graph.References
import VariableOrder.Proofs.Order.Numbering

/-!
# Each node is made ready once

After any count of steps the counts, the ready nodes and the emitted ones of a built graph fit
together: a count is the number of needed nodes that are not emitted yet, and ready is what is not
emitted although its count is zero. All nodes that were ever made ready are either emitted or ready
still, hence none was made ready twice, and the steps come to an end.
-/

set_option autoImplicit false

namespace VariableOrder

namespace Progress

/-- The nodes that are made ready when nodes are released one after the other, in their turn. -/
def freed (g : Graph) : Progress → List Nat → List Nat
  | _, [] => []
  | p, node :: rest =>
    if p.pending.getD node 0 - 1 = 0 then node :: freed g (release g p node) rest
    else freed g (release g p node) rest

/-- The nodes that the next step makes ready. -/
def freedNext (g : Graph) (p : Progress) : List Nat :=
  match p.ready with
  | [] => []
  | node :: rest =>
    freed g { p with ready := rest, emitted := p.emitted ++ [node] } (g.successorsOf node)

/-- All nodes that are made ready before the first step and by the given count of steps. -/
def madeReady (g : Graph) : Nat → List Nat
  | 0 => (start g).ready
  | count + 1 => madeReady g count ++ freedNext g (run g count (start g))

/-- How the counts, the ready nodes and the emitted nodes fit together. -/
structure Consistent (g : Graph) (p : Progress) : Prop where
  length : p.pending.length = g.size
  pending : ∀ node < g.size,
    p.pending.getD node 0 = ((g.predecessorsOf node).toFinset \ p.emitted.toFinset).card
  bounded : ∀ node ∈ p.emitted, node < g.size
  nodup_emitted : p.emitted.Nodup
  closed : ∀ i j, g.Edge i j → j ∈ p.emitted → i ∈ p.emitted
  nodup_ready : p.ready.Nodup
  mem_ready : ∀ node, node ∈ p.ready ↔
    node < g.size ∧ node ∉ p.emitted ∧ p.pending.getD node 0 = 0

variable {g : Graph} {p : Progress}

/-- Releasing nodes adds those to the ready ones that are made ready, once for each time. -/
theorem foldl_release_ready_perm (p : Progress) (nodes : List Nat) :
    (nodes.foldl (release g) p).ready.Perm (p.ready ++ freed g p nodes) := by
  induction nodes generalizing p with
  | nil => simp [freed]
  | cons node rest ih =>
    rw [List.foldl_cons]
    refine (ih (release g p node)).trans ?_
    simp only [freed]
    split_ifs with hleft
    · have hready : (release g p node).ready = insertReady g node p.ready := by
        simp only [release, hleft, if_true]
      rw [hready]
      exact ((insertReady_perm node p.ready).append_right _).trans List.perm_middle.symm
    · have hready : (release g p node).ready = p.ready := by
        simp only [release, hleft, if_false]
      rw [hready]

/-- A step takes the first ready node away and adds those that it makes ready. -/
theorem step_ready_perm (p : Progress) :
    (p.step g).ready.Perm (p.ready.tail ++ freedNext g p) := by
  unfold step freedNext
  cases hready : p.ready with
  | nil => simp [hready]
  | cons node rest => exact foldl_release_ready_perm _ _

/-- What was made ready is emitted or ready still. -/
theorem madeReady_perm (g : Graph) (count : Nat) :
    (madeReady g count).Perm
      ((run g count (start g)).emitted ++ (run g count (start g)).ready) := by
  induction count with
  | zero => simp [madeReady, run, start]
  | succ count ih =>
    rw [madeReady, run_succ]
    generalize run g count (start g) = p at ih ⊢
    refine (ih.append_right _).trans ?_
    cases hready : p.ready with
    | nil => simp [freedNext, step, hready]
    | cons node rest =>
      have hemitted : (p.step g).emitted = p.emitted ++ [node] := by simp [step_of_ready hready]
      have hstep := step_ready_perm (g := g) p
      rw [hready, List.tail_cons] at hstep
      rw [hemitted]
      simpa using (hstep.symm.append_left (p.emitted ++ [node]))

/-- What holds of every progress in the ordering of a graph makes it consistent. -/
theorem Sound.consistent (hg : g.WellFormed) (h : p.Sound g) : p.Consistent g where
  length := h.length
  pending := by
    intro node hnode
    have hneeded : (g.predecessorsOf node).Nodup :=
      (hg.pairwise_predecessorsOf node).imp fun hlt => Nat.ne_of_lt hlt
    rw [h.counts node hnode, ← List.toFinset_card_of_nodup (hneeded.filter _)]
    congr 2
    ext i
    simp
  bounded := fun _ hnode => Graph.lt_size_of_stepwise h.stepwise_ready hnode
  nodup_emitted := Graph.nodup_of_stepwise h.stepwise_ready
  closed := fun _ _ hedge hj => Graph.mem_of_edge_of_stepwise h.stepwise_ready hedge hj
  nodup_ready := h.declared.imp fun hbefore => hbefore.ne
  mem_ready := by
    intro node
    rw [h.mem_ready]
    refine and_congr_right fun hnode => and_congr_right fun _ => ?_
    rw [h.counts node hnode]
    simp [Graph.Edge]

/-- No node is emitted and ready at once, and none is either of them twice. -/
theorem Consistent.nodup (h : p.Consistent g) : (p.emitted ++ p.ready).Nodup := by
  rw [List.nodup_append]
  refine ⟨h.nodup_emitted, h.nodup_ready, ?_⟩
  intro i hi j hj
  rintro rfl
  exact ((h.mem_ready i).mp hj).2.1 hi

end Progress

namespace Graph

open Progress (run start)

variable {g : Graph}

/-- The steps end after as many of them as nodes are emitted, which are no more than there are. -/
theorem WellFormed.exists_last (h : g.WellFormed) :
    ∃ last ≤ g.size, (∀ count, (run g count (start g)).ready = [] ↔ last ≤ count) ∧
      (∀ count ≤ last, (run g count (start g)).emitted.length = count) ∧
      (run g last (start g)).emitted = g.emittedNodes := by
  have hdone : (run g g.size (start g)).ready = [] := by
    rw [List.eq_nil_iff_forall_not_mem]
    intro node hnode
    exact h.not_isReady_emittedNodes node ((h.sound_run.mem_ready node).mp hnode)
  have hends : ∃ last, (run g last (start g)).ready = [] := ⟨g.size, hdone⟩
  have hlast := Nat.find_spec hends
  have hle := Nat.find_min' hends hdone
  refine ⟨Nat.find hends, hle, ?_, ?_, ?_⟩
  · intro count
    constructor
    · exact fun hcount => Nat.find_min' hends hcount
    · intro hcount
      rw [Progress.run_of_ready_eq_nil hlast hcount, hlast]
  · intro count hcount
    rw [Progress.length_emitted_run count fun earlier hlt => Nat.find_min hends (by omega)]
    exact Nat.zero_add count
  · rw [emittedNodes, Progress.run_of_ready_eq_nil hlast hle]

/-- After any count of steps in the ordering of a built graph the counts, the ready nodes and the
emitted ones fit together, and what was ever made ready, no node twice, is emitted or ready still.
No node is ready any more from some step on, which is not behind the count of nodes; up to it each
step emits one node, and then the emitted nodes are the order. -/
theorem consistent_run_of_build {definitions : List Definition} (h : build definitions = .ok g) :
    (∀ count, (run g count (start g)).Consistent g ∧ (Progress.madeReady g count).Nodup ∧
      (Progress.madeReady g count).Perm
        ((run g count (start g)).emitted ++ (run g count (start g)).ready) ∧
      (run g (count + 1) (start g)).ready.Perm ((run g count (start g)).ready.tail ++
        Progress.freedNext g (run g count (start g)))) ∧
    ∃ last ≤ g.size, (∀ count, (run g count (start g)).ready = [] ↔ last ≤ count) ∧
      (∀ count ≤ last, (run g count (start g)).emitted.length = count) ∧
      (run g last (start g)).emitted = g.emittedNodes := by
  have hg := wellFormed_of_build h
  refine ⟨?_, hg.exists_last⟩
  intro count
  have hconsistent := ((Progress.sound_start g).run hg count).consistent hg
  have hperm := Progress.madeReady_perm g count
  refine ⟨hconsistent, hperm.nodup_iff.mpr hconsistent.nodup, hperm, ?_⟩
  rw [Progress.run_succ]
  exact Progress.step_ready_perm _

/-- Two variables need a third one and are needed by a fourth one, which waits for both of them; a
fifth one needs itself and never becomes ready. -/
theorem consistent_run_of_build_diamond :
    let definitions := Definition.ofSpecs [("top", .ofText "$left $right"), ("left", .ofText "$base"),
      ("base", .ofText ""), ("self", .ofText "$self/$base"), ("right", .ofText "${base}${base}")] []
    let g : Graph := ⟨[⟨"top", 0, [1, 4], []⟩, ⟨"left", 1, [2], []⟩, ⟨"base", 2, [], []⟩,
      ⟨"self", 3, [2, 3], []⟩, ⟨"right", 4, [2], []⟩]⟩
    build definitions = .ok g ∧ run g 2 (start g) = ⟨[1, 0, 0, 1, 0], [4], [2, 1]⟩ ∧
      (run g 2 (start g)).Consistent g ∧ Progress.madeReady g 2 = [2, 1, 4] ∧
      ∃ last ≤ 5, (run g last (start g)).ready = [] ∧ (run g last (start g)).emitted = [2, 1, 4, 0] := by
  intro definitions g
  have hbuild : build definitions = .ok g := by
    have hordered := Definition.declared_eq_self definitions (by decide)
    refine build_eq_ok_of_found hordered (by decide) ?_ (by decide +kernel) (by decide)
    apply Definition.wellFormed_ofSpecs
    simp [Expr.wellFormed_ofText]
  obtain ⟨hrun, last, hle, hends, -, hemitted⟩ := consistent_run_of_build hbuild
  have hstart : start g = ⟨[2, 1, 0, 2, 1], [2], []⟩ := by
    rw [(wellFormed_of_build hbuild).start_eq]
    decide +kernel
  have hmade : Progress.madeReady g 2 = [2, 1, 4] := by
    simp only [Progress.madeReady, hstart]
    decide +kernel
  refine ⟨hbuild, by rw [hstart]; decide +kernel, (hrun 2).1, hmade, last, hle,
    (hends last).mpr le_rfl, ?_⟩
  rw [hemitted, emittedNodes, hstart]
  decide +kernel

end Graph

end VariableOrder
