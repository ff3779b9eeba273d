import VariableOrder.Order.Sort

/-!
# Cycles

Two variables lie on a common cycle when each is reachable from the other. Cycles are looked for
among the nodes that can not be ordered: their part of the graph is numbered anew and split into
its strongly connected components. A component is a cycle when it has more than one member, or
when its only member needs itself; a variable that only depends on a cycle is in none. The
members of a cycle get back their numbers in the whole graph, and both the members and the
cycles are put into the order of declaration.

Taking the part and splitting it into components are arguments of the search, so that nothing
depends on how the part is numbered or on the order in which components are found.
-/

set_option autoImplicit false

namespace VariableOrder

/-- A node of a part of a graph: its number in the whole graph, and the nodes of the part that
need it. -/
structure SubgraphNode where
  origin : Nat
  successors : List Nat
  deriving DecidableEq, Repr

/-- A part of a graph: some of its nodes, numbered anew. -/
structure Subgraph where
  nodes : List SubgraphNode
  deriving DecidableEq, Repr

namespace Subgraph

/-- The count of nodes. -/
def size (s : Subgraph) : Nat :=
  s.nodes.length

/-- The number of a node in the whole graph. -/
def origin (s : Subgraph) (node : Nat) : Nat :=
  match s.nodes[node]? with
  | some n => n.origin
  | none => 0

/-- The nodes of the part that need a node. -/
def successorsOf (s : Subgraph) (node : Nat) : List Nat :=
  match s.nodes[node]? with
  | some n => n.successors
  | none => []

/-- Whether there is an edge between two nodes. -/
def hasEdge (s : Subgraph) (referenced dependent : Nat) : Bool :=
  (s.successorsOf referenced).contains dependent

/-- A set of nodes as the bits of a number. -/
def rowOf (nodes : List Nat) : Nat :=
  nodes.foldl (fun row node => row ||| 1 <<< node) 0

/-- For each node the set of nodes that one edge leads to. -/
def edgeRows (s : Subgraph) : List Nat :=
  s.nodes.map fun n => rowOf n.successors

/-- Adds to each row all that is reached by a stop at one node. -/
def throughNode (rows : List Nat) (stop : Nat) : List Nat :=
  let further := rows.getD stop 0
  rows.map fun row => if row.testBit stop then row ||| further else row

/-- For each node the set of nodes that one or more edges lead to. -/
def reachRows (s : Subgraph) : List Nat :=
  (List.range s.size).foldl throughNode s.edgeRows

/-- Whether the rows lead from one node to another. -/
def leads (rows : List Nat) (source target : Nat) : Bool :=
  (rows.getD source 0).testBit target

/-- A node and the nodes on a common cycle with it, in ascending order. -/
def componentOf (rows : List Nat) (node : Nat) : List Nat :=
  (List.range rows.length).filter fun other =>
    other == node || leads rows node other && leads rows other node

/-- The strongly connected components, each once, by their first nodes. -/
def components (s : Subgraph) : List (List Nat) :=
  let rows := s.reachRows
  (List.range s.size).filterMap fun node =>
    let component := componentOf rows node
    if component.head? = some node then some component else none

/-- Whether a component is a cycle: it has more than one member, or its only member needs
itself. -/
def isCycle (s : Subgraph) : List Nat → Bool
  | [node] => s.hasEdge node node
  | _ => true

end Subgraph

namespace Graph

/-- The part of a graph that consists of some nodes and all edges between them. -/
def subgraph (g : Graph) (nodes : List Nat) : Subgraph :=
  ⟨nodes.map fun node =>
    let dependents := g.successorsOf node
    { origin := node
      successors := nodes.zipIdx.filterMap fun (other, i) =>
        if dependents.contains other then some i else none }⟩

/-- The cycles among some nodes, given how a part of a graph is taken and how it is split into
strongly connected components. -/
def cyclesAmong (subgraph : Graph → List Nat → Subgraph)
    (components : Subgraph → List (List Nat)) (g : Graph) (nodes : List Nat) : List (List Nat) :=
  let s := subgraph g nodes
  let cycles := ((components s).filter s.isCycle).map fun component =>
    g.byDeclaration (component.map s.origin)
  cycles.mergeSort fun a b => g.declaredUpTo (a.headD 0) (b.headD 0)

end Graph

end VariableOrder
