import VariableOrder.Graph.Basic
import VariableOrder.Graph.Extraction
import VariableOrder.Graph.Warning

/-!
# From definitions to the graph

Definitions are put into the order of declaration first; those declared at the same place keep
their order. A name that is declared twice is refused before any expression is looked at. The
needs of a definition are then split: declared names become edges, all others are unknown, and
an unknown name that is not provided from outside is warned about.
-/

set_option autoImplicit false

namespace VariableOrder

/-- Why definitions have no graph. -/
inductive BuildFailure where
  | duplicate (name : String) (first second : Int)
  | unsupported (raw : Data.Value)

/-- The wording of a failure. -/
def BuildFailure.message : BuildFailure → String
  | .duplicate name first second =>
    "Variable '" ++ name ++ "' is defined more than once (declarations #" ++ toString first
      ++ " and #" ++ toString second ++ ")."
  | .unsupported raw => "Unsupported expression node: " ++ raw.literal

namespace Definition

/-- The definitions in the order of declaration. -/
def declared (definitions : List Definition) : List Definition :=
  definitions.mergeSort fun a b => a.sourceOrder ≤ b.sourceOrder

/-- The first definition whose name is among those in front of it, as the name and the places of
the first definition with that name and of the repeated one. -/
def firstDuplicate (seen : List Definition) : List Definition → Option (String × Int × Int)
  | [] => none
  | d :: rest =>
    match seen.find? fun e => e.name == d.name with
    | some e => some (d.name, e.sourceOrder, d.sourceOrder)
    | none => firstDuplicate (seen ++ [d]) rest

/-- The position of the first definition with a name. -/
def position? (definitions : List Definition) (name : String) : Option Nat :=
  definitions.findIdx? fun d => d.name == name

/-- The node of a definition among all definitions, given the names that it needs. -/
def nodeOf (definitions : List Definition) (d : Definition) (needs : List String) : Node :=
  { name := d.name
    sourceOrder := d.sourceOrder
    dependencies := (needs.filterMap (position? definitions)).mergeSort (· ≤ ·)
    unknown := needs.filter fun name => (position? definitions name).isNone }

/-- The node of a definition among all definitions. -/
def node (definitions : List Definition) (d : Definition) : Node :=
  nodeOf definitions d d.needs

end Definition

namespace Graph

/-- The warnings of a node, given the names that are provided from outside. -/
def nodeWarnings (external : List String) (n : Node) : List Warning :=
  (n.unknown.filter fun name => !external.contains name && !providedNames.contains name).map
    fun name => ⟨n.name, name⟩

/-- The warnings of a graph: by node, and by name within a node. -/
def warnings (g : Graph) (external : List String) : List Warning :=
  g.nodes.flatMap (nodeWarnings external)

/-- The graph of definitions, whose references are collected by some workers. -/
def build (definitions : List Definition) (workers : Option Int := none) :
    Except BuildFailure Graph :=
  let declared := Definition.declared definitions
  match Definition.firstDuplicate [] declared with
  | some (name, first, second) => .error (.duplicate name first second)
  | none =>
    match Definition.collectAll workers declared with
    | .error raw => .error (.unsupported raw)
    | .ok needs => .ok ⟨List.zipWith (Definition.nodeOf declared) declared needs⟩

end Graph

end VariableOrder
