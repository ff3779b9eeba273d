import VariableOrder.Graph.Build
import VariableOrder.Order.Emit

/-!
# Resolving definitions

The whole way from definitions to their evaluation order: the graph is built, ordered, and the
order is filled with the definitions again.
-/

set_option autoImplicit false

namespace VariableOrder

/-- Why definitions have no evaluation order. -/
inductive ResolveFailure where
  | build (f : BuildFailure)
  | emit (f : EmitFailure)

/-- The wording of a failure. -/
def ResolveFailure.message : ResolveFailure → String
  | .build f => f.message
  | .emit f => f.message

/-- The evaluation order of definitions, given the names that are provided from outside and a count
of workers. -/
def resolve (definitions : List Definition) (external : List String)
    (workers : Option Int := none) : Except ResolveFailure Ordered :=
  match Graph.build definitions workers with
  | .error f => .error (.build f)
  | .ok g =>
    match emit g.order definitions (g.warnings external) with
    | .error f => .error (.emit f)
    | .ok ordered => .ok ordered

end VariableOrder
