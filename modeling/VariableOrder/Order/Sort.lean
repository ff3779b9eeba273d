import VariableOrder.Graph.Basic

/-!
# The evaluation order

Variables are emitted one by one. A variable is ready as soon as everything that it needs has
been emitted; of all ready variables the one that was declared first is emitted next, so the ready
ones are kept in the order of declaration. Each step emits one node, hence as many steps as there
are nodes always suffice.
-/

set_option autoImplicit false

namespace VariableOrder

namespace Graph

/-- The place where the variable of a node was declared. -/
def sourceOrder (g : Graph) (node : Nat) : Int :=
  match g.nodes[node]? with
  | some n => n.sourceOrder
  | none => 0

/-- Whether a node is declared no later than another one; nodes that are declared at the same
place go by their numbers. -/
def declaredUpTo (g : Graph) (first second : Nat) : Bool :=
  g.sourceOrder first < g.sourceOrder second
    || g.sourceOrder first == g.sourceOrder second && first ≤ second

/-- Nodes in the order of declaration. -/
def byDeclaration (g : Graph) (nodes : List Nat) : List Nat :=
  nodes.mergeSort g.declaredUpTo

end Graph

/-- How far the ordering has come: for each node the count of needed nodes that are not emitted
yet, the ready nodes in the order of declaration, and the emitted nodes. -/
structure Progress where
  pending : List Int
  ready : List Nat
  emitted : List Nat
  deriving DecidableEq, Repr

namespace Progress

/-- Inserts a node at its place among nodes in the order of declaration. -/
def insertReady (g : Graph) (node : Nat) : List Nat → List Nat
  | [] => [node]
  | head :: rest =>
    if g.declaredUpTo node head then node :: head :: rest else head :: insertReady g node rest

/-- The progress before the first step: the ready nodes are those that need nothing. -/
def start (g : Graph) : Progress :=
  { pending := g.nodes.map fun n => (n.dependencies.length : Int)
    ready := g.byDeclaration <| g.nodes.zipIdx.filterMap fun (n, i) =>
      if n.dependencies.isEmpty then some i else none
    emitted := [] }

/-- Notes for one node that something it needs has been emitted. -/
def release (g : Graph) (p : Progress) (node : Nat) : Progress :=
  let left := p.pending.getD node 0 - 1
  { p with
    pending := p.pending.set node left
    ready := if left = 0 then insertReady g node p.ready else p.ready }

/-- Emits the first ready node, if there is one. -/
def step (g : Graph) (p : Progress) : Progress :=
  match p.ready with
  | [] => p
  | node :: rest =>
    (g.successorsOf node).foldl (release g) { p with ready := rest, emitted := p.emitted ++ [node] }

/-- Takes the given count of steps. -/
def run (g : Graph) : Nat → Progress → Progress
  | 0, p => p
  | count + 1, p => run g count (p.step g)

end Progress

namespace Graph

/-- The nodes that can be ordered, in their order. -/
def emittedNodes (g : Graph) : List Nat :=
  (Progress.run g g.size (Progress.start g)).emitted

/-- The nodes that can not be ordered, in ascending order. -/
def remainder (g : Graph) : List Nat :=
  let emitted := g.emittedNodes
  (List.range g.size).filter fun i => !emitted.contains i

end Graph

end VariableOrder
