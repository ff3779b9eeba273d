/-!
# The reference graph

Every variable is a node, and the nodes are numbered in the order of declaration. A node knows
the numbers of the declared variables that it needs, in ascending order, and the names that it
needs but nobody declares. An edge goes from the variable that is needed to the one that needs
it. All views of the graph are read off the nodes, so they agree with each other.
-/

set_option autoImplicit false

namespace VariableOrder

/-- A variable in the graph. -/
structure Node where
  name : String
  sourceOrder : Int
  dependencies : List Nat
  unknown : List String
  deriving DecidableEq, Repr

/-- The reference graph of some definitions. -/
structure Graph where
  nodes : List Node
  deriving DecidableEq, Repr

namespace Graph

/-- The count of variables. -/
def size (g : Graph) : Nat :=
  g.nodes.length

/-- The names of the variables in the order of declaration. -/
def names (g : Graph) : List String :=
  g.nodes.map (·.name)

/-- The name of a node. -/
def name (g : Graph) (node : Nat) : String :=
  match g.nodes[node]? with
  | some n => n.name
  | none => ""

/-- The number of the variable with a name. -/
def index? (g : Graph) (name : String) : Option Nat :=
  g.nodes.findIdx? fun n => n.name == name

/-- Whether a variable with the name is declared. -/
def contains (g : Graph) (name : String) : Bool :=
  (g.index? name).isSome

/-- The nodes that a node needs. -/
def predecessorsOf (g : Graph) (node : Nat) : List Nat :=
  match g.nodes[node]? with
  | some n => n.dependencies
  | none => []

/-- The nodes that need a node. -/
def successorsOf (g : Graph) (node : Nat) : List Nat :=
  g.nodes.zipIdx.filterMap fun (n, i) => if n.dependencies.contains node then some i else none

/-- For each node the nodes that need it. -/
def successors (g : Graph) : List (List Nat) :=
  (List.range g.size).map g.successorsOf

/-- For each node the nodes that it needs. -/
def predecessors (g : Graph) : List (List Nat) :=
  (List.range g.size).map g.predecessorsOf

/-- Whether there is an edge between two nodes. -/
def hasEdgeAt (g : Graph) (referenced dependent : Nat) : Bool :=
  (g.predecessorsOf dependent).contains referenced

/-- Whether both names are declared and the second variable needs the first. -/
def hasEdge (g : Graph) (referenced dependent : String) : Bool :=
  match g.index? referenced, g.index? dependent with
  | some r, some d => g.hasEdgeAt r d
  | _, _ => false

/-- The edges as pairs of names, by the needed node and then by the node that needs it. -/
def edges (g : Graph) : List (String × String) :=
  (List.range g.size).flatMap fun i => (g.successorsOf i).map fun j => (g.name i, g.name j)

/-- The count of edges. -/
def edgeCount (g : Graph) : Nat :=
  (g.nodes.flatMap fun n => n.dependencies).length

/-- The names that have to be computed before a variable, if it is declared. -/
def dependenciesOf? (g : Graph) (name : String) : Option (List String) :=
  (g.index? name).map fun i => (g.predecessorsOf i).map g.name

/-- The names that can only be computed after a variable, if it is declared. -/
def dependentsOf? (g : Graph) (name : String) : Option (List String) :=
  (g.index? name).map fun i => (g.successorsOf i).map g.name

end Graph

end VariableOrder
