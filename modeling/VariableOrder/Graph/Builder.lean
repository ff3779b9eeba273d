import VariableOrder.Graph.Build

/-!
# Graph builders

A builder holds definitions, the names that are provided from outside, a count of workers, and the
warnings of all graphs that it has built so far. Definitions that have no graph leave no warning.
-/

set_option autoImplicit false

namespace VariableOrder

/-- Definitions to build a graph of, and the warnings so far. -/
structure GraphBuilder where
  definitions : List Definition
  external : List String
  warnings : List Warning := []
  workers : Option Int := none

namespace GraphBuilder

/-- Builds the graph; its warnings are added behind those so far. -/
def build (b : GraphBuilder) : Except BuildFailure Graph × GraphBuilder :=
  match Graph.build b.definitions b.workers with
  | .ok g => (.ok g, { b with warnings := b.warnings ++ g.warnings b.external })
  | .error f => (.error f, b)

end GraphBuilder

end VariableOrder
