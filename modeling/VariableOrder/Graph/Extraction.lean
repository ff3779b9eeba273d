import VariableOrder.Definition.Basic

/-!
# Collecting references

The names that definitions need are collected from one definition after the other. With more than
one worker and more than one definition the workers take turns instead: each keeps the numbers of
its definitions with its results, and the results are read off in the order of the numbers.
-/

set_option autoImplicit false

namespace VariableOrder

namespace Workers

variable {α β : Type}

/-- The tasks of one of some workers who take turns. -/
def share (count turn : Nat) (tasks : List (α × Nat)) : List (α × Nat) :=
  tasks.filter fun t => t.2 % count = turn

/-- A task with its result in its place. -/
def finish (f : α → β) (task : α × Nat) : β × Nat :=
  (f task.1, task.2)

/-- The results of all workers, of whom there are no more than tasks. -/
def results (count : Nat) (f : α → β) (tasks : List α) : List (β × Nat) :=
  let count := min count tasks.length
  (List.range count).flatMap fun turn => (share count turn tasks.zipIdx).map (finish f)

/-- Results in the order of their tasks. -/
def inOrder (results : List (β × Nat)) : List β :=
  (results.mergeSort fun a b => a.2 ≤ b.2).map (·.1)

end Workers

namespace Definition

/-- The names that a definition needs, or the first raw value that keeps them from being
collected. -/
def collected (d : Definition) : Except Data.Value (List String) :=
  match d.firstUnsupported with
  | some raw => .error raw
  | none => .ok d.needs

/-- The names that the definitions need, one after the other, or the first raw value of all. -/
def collectEach (definitions : List Definition) : Except Data.Value (List (List String)) :=
  definitions.mapM collected

/-- The same with some workers, none of whom stops where another one fails. -/
def collectShared (workers : Nat) (definitions : List Definition) :
    Except Data.Value (List (List String)) :=
  (Workers.inOrder (Workers.results workers collected definitions)).mapM id

/-- The names that the definitions need, with as many workers as are asked for. -/
def collectAll (workers : Option Int) (definitions : List Definition) :
    Except Data.Value (List (List String)) :=
  match workers with
  | some count =>
    if 1 < count ∧ 1 < definitions.length then collectShared count.toNat definitions
    else collectEach definitions
  | none => collectEach definitions

end Definition

end VariableOrder
