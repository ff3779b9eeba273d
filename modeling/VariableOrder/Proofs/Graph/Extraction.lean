import Mathlib.Data.List.Nodup
import Mathlib.Logic.Relation
import VariableOrder.Graph.Build
import VariableOrder.Proofs.Ascending

/-!
# The order of collected references

Workers finish their tasks in an order that nobody knows. Every step of a pool of workers keeps the
tasks that wait, the tasks in work and the results together the same, so a pool that has come to its
end holds the result of every task; read off by number, these are the results in the order of the
tasks. So a graph does not depend on the count of workers, nor does the failure to build one.
-/

set_option autoImplicit false

namespace VariableOrder

namespace Workers

variable {α β : Type} {f : α → β} {tasks : List α}

/-- Finished tasks are the results with their numbers. -/
theorem map_finish_zipIdx (f : α → β) (tasks : List α) :
    tasks.zipIdx.map (finish f) = (tasks.map f).zipIdx :=
  List.zipIdx_map.symm

/-- The results of all tasks are read off in the order of the tasks, in whatever order they have
come in. -/
theorem inOrder_of_perm {results : List (β × Nat)} (h : results.Perm (tasks.map f).zipIdx) :
    inOrder results = tasks.map f := by
  have hsorted := pairwise_mergeSort_key (fun r : β × Nat => r.2) (fun a b => a.2 ≤ b.2)
    (fun _ _ => decide_eq_true_iff) results
  have hperm := (List.mergeSort_perm results fun a b => a.2 ≤ b.2).trans h
  -- a result is found again by its number, so two of one number are the same
  have hsame : ∀ a b, a ∈ (tasks.map f).zipIdx → b ∈ (tasks.map f).zipIdx → a.2 = b.2 →
      a = b := by
    rintro ⟨a, i⟩ ⟨b, j⟩ ha hb hij
    have ha := List.mem_zipIdx_iff_getElem?.mp ha
    have hb := List.mem_zipIdx_iff_getElem?.mp hb
    dsimp only at ha hb hij
    subst hij
    rw [Option.some.inj (ha.symm.trans hb)]
  have heq : (results.mergeSort fun a b => a.2 ≤ b.2) = (tasks.map f).zipIdx := by
    refine hperm.eq_of_pairwise ?_ hsorted ((pairwise_zipIdx _).imp le_of_lt)
    intro a b ha hb hab hba
    exact hsame a b (hperm.mem_iff.mp ha) hb (le_antisymm hab hba)
  unfold inOrder
  rw [heq, List.zipIdx_map_fst]

section Turns

/-- Workers who take turns do all tasks, each of them once. -/
theorem flatMap_share_perm {count : Nat} (hcount : 0 < count) (tasks : List α) :
    ((List.range count).flatMap fun turn => share count turn tasks.zipIdx).Perm
      tasks.zipIdx := by
  have hnodup : tasks.zipIdx.Nodup := (pairwise_zipIdx tasks).imp fun hlt heq =>
    hlt.ne (congrArg Prod.snd heq)
  refine (List.perm_ext_iff_of_nodup ?_ hnodup).mpr fun task => ?_
  · rw [List.nodup_flatMap]
    refine ⟨fun turn _ => hnodup.filter _, ?_⟩
    refine List.nodup_range.imp ?_
    intro first second hne task hfirst hsecond
    simp only [share, List.mem_filter, decide_eq_true_eq] at hfirst hsecond
    exact hne (hfirst.2.symm.trans hsecond.2)
  · simp only [share, List.mem_flatMap, List.mem_range, List.mem_filter, decide_eq_true_eq]
    constructor
    · rintro ⟨turn, -, hmem, -⟩
      exact hmem
    · exact fun hmem => ⟨task.2 % count, Nat.mod_lt _ hcount, hmem, rfl⟩

/-- The results of workers who take turns are read off in the order of the tasks. -/
theorem inOrder_results {count : Nat} (hcount : 0 < count) (f : α → β) (tasks : List α) :
    inOrder (results count f tasks) = tasks.map f := by
  apply inOrder_of_perm
  rw [← map_finish_zipIdx]
  cases tasks with
  | nil => simp [results]
  | cons task rest =>
    have hpositive : 0 < min count (task :: rest).length := by
      rw [List.length_cons]
      omega
    unfold results
    dsimp only
    rw [← List.map_flatMap]
    exact (flatMap_share_perm hpositive (task :: rest)).map (finish f)

end Turns

section Steps

/-- Tasks that wait for a worker, tasks that are in work, and the results so far. -/
structure Pool (α β : Type) where
  waiting : List (α × Nat)
  running : List (α × Nat)
  results : List (β × Nat)

/-- A free worker takes the next task, or any of the workers comes to an end. -/
inductive Pool.Step (f : α → β) (count : Nat) : Pool α β → Pool α β → Prop
  | take {task : α × Nat} {waiting running : List (α × Nat)} {results : List (β × Nat)}
      (hfree : running.length < count) :
    Step f count ⟨task :: waiting, running, results⟩ ⟨waiting, task :: running, results⟩
  | finish {task : α × Nat} {waiting before after : List (α × Nat)} {results : List (β × Nat)} :
    Step f count ⟨waiting, before ++ task :: after, results⟩
      ⟨waiting, before ++ after, finish f task :: results⟩

/-- The results of a pool together with those that are to come. -/
def Pool.account (f : α → β) (p : Pool α β) : List (β × Nat) :=
  (p.waiting ++ p.running).map (Workers.finish f) ++ p.results

/-- A step changes neither the results nor those to come, up to their order. -/
theorem Pool.Step.perm {count : Nat} {p q : Pool α β} (h : Step f count p q) :
    (q.account f).Perm (p.account f) := by
  cases h with
  | take hfree =>
    unfold account
    exact (List.perm_middle.map _).append_right _
  | @finish task waiting before after results =>
    have hsplit : waiting ++ (before ++ task :: after) = waiting ++ before ++ task :: after := by
      rw [List.append_assoc]
    unfold account
    dsimp only
    rw [hsplit, ← List.append_assoc waiting before after]
    refine List.perm_middle.trans ?_
    exact (List.perm_middle.map (Workers.finish f)).symm.append_right results

/-- A pool that has come to its end holds the results of all tasks, and they are read off in the
order of the tasks: it does not matter which worker was when at its turn. -/
theorem Pool.inOrder_of_run {count : Nat} {results : List (β × Nat)}
    (h : Relation.ReflTransGen (Step f count) ⟨tasks.zipIdx, [], []⟩ ⟨[], [], results⟩) :
    inOrder results = tasks.map f := by
  have hrun : ∀ p, Relation.ReflTransGen (Step f count) ⟨tasks.zipIdx, [], []⟩ p →
      (p.account f).Perm (tasks.map f).zipIdx := by
    intro p hp
    induction hp with
    | refl => simp [account, map_finish_zipIdx]
    | tail _ hstep ih => exact hstep.perm.trans ih
  exact inOrder_of_perm (by simpa [account] using hrun _ h)

end Steps

end Workers

namespace Definition

/-- Collecting fails for the first raw value of all, and otherwise yields what each definition
needs. -/
theorem collectEach_eq (definitions : List Definition) :
    collectEach definitions =
      match definitions.findSome? firstUnsupported with
      | some raw => .error raw
      | none => .ok (definitions.map needs) := by
  unfold collectEach
  induction definitions with
  | nil => rfl
  | cons d rest ih =>
    rw [List.mapM_cons, ih, List.findSome?_cons, collected]
    cases d.firstUnsupported with
    | some raw => rfl
    | none => cases rest.findSome? firstUnsupported <;> rfl

/-- Several workers collect what one of them does. -/
theorem collectShared_eq {workers : Nat} (hworkers : 0 < workers) (definitions : List Definition) :
    collectShared workers definitions = collectEach definitions := by
  rw [collectShared, Workers.inOrder_results hworkers, List.mapM_map]
  rfl

/-- The count of workers has no influence on what is collected. -/
theorem collectAll_eq (workers : Option Int) (definitions : List Definition) :
    collectAll workers definitions = collectEach definitions := by
  cases workers with
  | none => rfl
  | some count =>
    unfold collectAll
    dsimp only
    split
    · exact collectShared_eq (by omega) definitions
    · rfl

end Definition

namespace Graph

open Definition (declared)

/-- With whatever workers, a graph is built of the nodes of the definitions, unless a name is
repeated or an expression is none. -/
theorem build_eq (definitions : List Definition) (workers : Option Int) :
    build definitions workers =
      match Definition.firstDuplicate [] (declared definitions) with
      | some (name, first, second) => .error (.duplicate name first second)
      | none =>
        match (declared definitions).findSome? Definition.firstUnsupported with
        | some raw => .error (.unsupported raw)
        | none => .ok ⟨(declared definitions).map (Definition.node (declared definitions))⟩ := by
  unfold build
  dsimp only
  rw [Definition.collectAll_eq, Definition.collectEach_eq]
  cases Definition.firstDuplicate [] (declared definitions) with
  | some found => rfl
  | none =>
    cases (declared definitions).findSome? Definition.firstUnsupported with
    | some raw => rfl
    | none =>
      dsimp only
      rw [List.zipWith_map_right, List.zipWith_self]
      rfl

/-- The count of workers has no influence on the graph. -/
theorem build_workers (definitions : List Definition) (workers : Option Int) :
    build definitions workers = build definitions := by
  rw [build_eq, build_eq]

end Graph

end VariableOrder
