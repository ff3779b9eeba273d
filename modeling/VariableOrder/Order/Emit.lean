import VariableOrder.Definition.Basic
import VariableOrder.Graph.Warning
import VariableOrder.Order.Cycle
import VariableOrder.Order.Sort

/-!
# From an order to the ordered variables

Ordering a graph yields all its names, or the deadlock that keeps the rest of them from being
ordered. An order of names is turned into the ordered definitions only when it names every
definition once; nothing partial is ever handed on.
-/

set_option autoImplicit false

namespace VariableOrder

/-- What can not be ordered: all variables on a cycle or behind one, and the cycles themselves. -/
structure Deadlock where
  names : List String
  cycles : List (List String)
  deriving DecidableEq, Repr

/-- The wording of a deadlock. -/
def Deadlock.message (d : Deadlock) : String :=
  "A circular dependency was detected in the variable definitions; cannot order: "
    ++ Text.commaList d.names ++ "."
    ++ (if d.cycles.isEmpty then ""
        else " Cycles: "
          ++ String.intercalate "; " (d.cycles.map (String.intercalate " <-> ")) ++ ".")

namespace Graph

/-- The names of a graph in their evaluation order, given how a part of a graph is taken and how
it is split into strongly connected components. -/
def orderBy (subgraph : Graph → List Nat → Subgraph) (components : Subgraph → List (List Nat))
    (g : Graph) : Except Deadlock (List String) :=
  let emitted := g.emittedNodes
  if emitted.length = g.size then .ok (emitted.map g.name)
  else
    let cycles := g.cyclesAmong subgraph components g.remainder
    .error ⟨(g.byDeclaration g.remainder).map g.name, cycles.map fun cycle => cycle.map g.name⟩

/-- The names of a graph in their evaluation order. -/
def order (g : Graph) : Except Deadlock (List String) :=
  g.orderBy subgraph Subgraph.components

end Graph

/-- Definitions in their evaluation order, with the warnings found on the way. -/
structure Ordered where
  definitions : List Definition
  warnings : List Warning

namespace Ordered

/-- The names in their evaluation order. -/
def names (o : Ordered) : List String :=
  o.definitions.map (·.name)

/-- The resource of the ordered variables. -/
def resource (o : Ordered) : Resource :=
  .list (o.definitions.map Definition.resource)

/-- The first raw value that would have to be written as an expression. -/
def firstUnwritable (o : Ordered) : Option Data.Value :=
  o.definitions.findSome? Definition.firstUnwritable

end Ordered

/-- Why an outcome is not turned into ordered variables. -/
inductive EmitFailure where
  | deadlock (d : Deadlock)
  | notPermutation (order : List String)

/-- The wording of a failure. -/
def EmitFailure.message : EmitFailure → String
  | .deadlock d => d.message
  | .notPermutation order =>
    "Ordered result is not a permutation of the variable definitions: " ++ Text.commaList order

namespace Definition

/-- The last definition with a name. -/
def last? (definitions : List Definition) (name : String) : Option Definition :=
  definitions.reverse.find? fun d => d.name == name

/-- Whether an order has the names of the definitions as its own, each once. -/
def isOrderOf (order : List String) (definitions : List Definition) : Bool :=
  order.mergeSort (· ≤ ·) == Text.sortedNames (definitions.map (·.name))

end Definition

/-- Turns the outcome of ordering into the ordered definitions. -/
def emit (outcome : Except Deadlock (List String)) (definitions : List Definition)
    (warnings : List Warning) : Except EmitFailure Ordered :=
  match outcome with
  | .error d => .error (.deadlock d)
  | .ok order =>
    if Definition.isOrderOf order definitions then
      .ok ⟨order.filterMap (Definition.last? definitions), warnings⟩
    else .error (.notPermutation order)

end VariableOrder
