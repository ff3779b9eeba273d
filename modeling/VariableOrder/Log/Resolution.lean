import VariableOrder.Log.Basic
import VariableOrder.Order.Resolve
import VariableOrder.Provider.Catalogue

/-!
# The log of a resolution

The entries are told after the fact, from what they are about: the catalogue, the graph, and the
order or the deadlock that ended the ordering. Definitions without a graph leave no entry.
-/

set_option autoImplicit false

namespace VariableOrder

namespace Catalogue

/-- The entry about a provider that is always there. -/
def providerEntry (p : Provider) : LogEntry :=
  ⟨.debug, .catalogue, "Registered provider type: '" ++ p.typeName ++ "'"⟩

/-- The entries about the providers that are always there. -/
def standardEntries : List LogEntry :=
  standardProviders.map providerEntry

/-- The entry about a plugin. -/
def PluginNote.entry (n : PluginNote) : LogEntry :=
  match n with
  | .registered _ _ => ⟨.info, .catalogue, n.message⟩
  | .failed _ _ => ⟨.warning, .catalogue, n.message⟩

end Catalogue

namespace Graph

/-- The entry about an edge. -/
def edgeEntry (referenced dependent : String) : LogEntry :=
  ⟨.debug, .graph, "Edge '" ++ referenced ++ "' -> '" ++ dependent ++ "'"⟩

/-- The entries about a node: its edges by name, and then its warnings. -/
def nodeEntries (g : Graph) (external : List String) (n : Node) : List LogEntry :=
  (Text.sortedNames (n.dependencies.map g.name)).map (edgeEntry · n.name)
    ++ (nodeWarnings external n).map fun w => ⟨.warning, .graph, w.message⟩

/-- The entries about a graph. -/
def buildEntries (g : Graph) (external : List String) : List LogEntry :=
  g.nodes.flatMap (g.nodeEntries external)
    ++ [⟨.debug, .graph, "Built dependency graph with " ++ toString g.size ++ " variables and "
          ++ toString g.edgeCount ++ " edges"⟩]

/-- The entries about the ordering of a graph. -/
def orderEntries (g : Graph) : List LogEntry :=
  (g.emittedNodes.map fun i => ⟨.debug, .order, "Emitting variable '" ++ g.name i ++ "'"⟩)
    ++ match g.order with
      | .ok _ => []
      | .error d => [⟨.debug, .order, "Ordering failed: " ++ d.message⟩]

end Graph

/-- The entries about the outcome of a resolution. -/
def outcomeEntries (g : Graph) : Except ResolveFailure Ordered → List LogEntry
  | .ok o =>
    [⟨.info, .resolution, "Ordered " ++ toString o.definitions.length ++ " variables ("
        ++ toString g.edgeCount ++ " dependencies, " ++ toString o.warnings.length
        ++ " unresolved references)"⟩]
  | .error _ => []

/-- The entries about resolving definitions. -/
def resolveEntries (definitions : List Definition) (external : List String)
    (workers : Option Int := none) : List LogEntry :=
  match Graph.build definitions workers with
  | .ok g =>
    g.buildEntries external ++ g.orderEntries
      ++ outcomeEntries g (resolve definitions external workers)
  | .error _ => []

end VariableOrder
