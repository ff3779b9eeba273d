import VariableOrder.Data.Arrangement
import VariableOrder.Document.Merging
import VariableOrder.Document.ScalarValue

/-!
# What the nodes of a document come to

A scalar comes to a value at once. A collection is first only announced, so that it can stand inside
itself, and is filled later: collections are filled in the order in which they were announced, and a
fault is told when it is met on this way. Every node comes to one thing, wherever it stands.
-/

set_option autoImplicit false

namespace VariableOrder.Document

open Data (Value)

/-- What a node comes to: a value, or a collection of what other nodes come to. -/
inductive Shape where
  | leaf (v : Value)
  | list (items : List NodeId)
  | record (entries : List (Value × NodeId))
  | members (values : List Value)
  | pairs (items : List Entry)

/-- How far it is known what nodes come to: the nodes, the shapes by node, and the collections that
are announced but not filled, in two parts of which the second is backwards. -/
structure Making where
  nodes : Nodes
  shapes : Array (Option Shape)
  waiting : List NodeId
  announced : List NodeId

/-- Finding out what nodes come to. -/
abbrev Maker := StateT Making (Except Fault)

namespace Nodes

/-- The text that a node counts as where a text is asked for: a scalar's own, and for a mapping that
of its value under a lone equal sign. A mapping may ask for its own text; each step of any other
search leads to another node. -/
def textOf (ns : Nodes) : Nat → NodeId → Except Fault String
  | 0, _ => .error .endless
  | fuel + 1, id =>
    match ns.content id with
    | .scalar text => .ok text
    | .sequence _ => .error .malformed
    | .mapping entries =>
      match entries.find? fun e => ns.tag e.1 = .scalar .default with
      | some e => ns.textOf fuel e.2
      | none => .error .malformed

/-- The value of a node of a scalar kind that counts as the given text. A mapping is no moment. -/
def scalarOf (ns : Nodes) (id : NodeId) (kind : ScalarKind) (text : String) :
    Except Fault Value :=
  match kind, ns.content id with
  | .moment, .mapping _ => .error .momentOfRecord
  | _, _ => scalarValue kind text

/-- The value of a node whose tag tells a scalar that has one. -/
def leafOf (ns : Nodes) (id : NodeId) : Except Fault Value :=
  match ns.tag id with
  | .scalar kind =>
    if kind.isMark then .error .malformed
    else (ns.textOf (ns.size + 1) id).bind (ns.scalarOf id kind)
  | .binary => (ns.textOf (ns.size + 1) id).bind bytesOf
  | _ => .error .malformed

/-- Whether a node stands for the one value that is no number and has a spelling of its own. -/
def namesNoNumber (ns : Nodes) (id : NodeId) : Bool :=
  match ns.textOf (ns.size + 1) id with
  | .ok text => isNoNumber text
  | .error _ => false

/-- Whether the keys of two nodes are the same. A value that is no number differs from all others,
but is the same as itself. -/
def sameKey (ns : Nodes) (a b : NodeId × Value) : Bool :=
  match a.2, b.2 with
  | .fraction x, .fraction y =>
    if x.isNaN && y.isNaN then a.1 = b.1 || (ns.namesNoNumber a.1 && ns.namesNoNumber b.1)
    else a.2.sameKey b.2
  | _, _ => a.2.sameKey b.2

/-- Puts an entry in the place of one with the same key, which is kept, or else at the end. -/
def putEntry (ns : Nodes) (key : NodeId × Value) (value : NodeId) :
    List ((NodeId × Value) × NodeId) → List ((NodeId × Value) × NodeId)
  | [] => [(key, value)]
  | (k, v) :: rest =>
    if ns.sameKey k key then (k, value) :: rest else (k, v) :: ns.putEntry key value rest

end Nodes

namespace Maker

/-- Gives up. -/
def fail {α : Type} (f : Fault) : Maker α :=
  throw f

/-- Records what a node comes to. -/
def record (id : NodeId) (s : Shape) : Maker Unit :=
  modify fun m => { m with shapes := m.shapes.setIfInBounds id (some s) }

/-- Announces a collection. -/
def announce (id : NodeId) (s : Shape) : Maker Unit := do
  record id s
  modify fun m => { m with announced := id :: m.announced }

/-- Makes sure that it is known or announced what a node comes to. -/
def visit (id : NodeId) : Maker Unit := do
  let m ← get
  match m.shapes.getD id none with
  | some _ => return
  | none =>
    match m.nodes.tag id with
    | .sequence => announce id (.list [])
    | .orderedMap => announce id (.pairs [])
    | .pairs => announce id (.pairs [])
    | .mapping => announce id (.record [])
    | .set => announce id (.members [])
    | _ => do
      let v ← m.nodes.leafOf id
      record id (.leaf v)

/-- The key that a node comes to. A collection is no key. -/
def key (id : NodeId) : Maker Value := do
  visit id
  match (← get).shapes.getD id none with
  | some (.leaf v) => return v
  | _ => fail .malformed

/-- The items of a node that has to be a sequence. -/
def items (id : NodeId) : Maker (List NodeId) := do
  match (← get).nodes.content id with
  | .sequence items => return items
  | _ => fail .malformed

/-- The items of a sequence. -/
def fillList (id : NodeId) : Maker Unit := do
  let items ← items id
  items.forM visit
  record id (.list items)

/-- The only entry of a node that has to be a mapping. -/
def onlyEntry (id : NodeId) : Maker Entry := do
  match (← get).nodes.content id with
  | .mapping [entry] => return entry
  | _ => fail .malformed

/-- The pair that a mapping with one entry comes to. -/
def pair (id : NodeId) : Maker Entry := do
  let entry ← onlyEntry id
  visit entry.1
  visit entry.2
  return entry

/-- The pairs of a sequence of mappings with one entry each. -/
def fillPairs (id : NodeId) : Maker Unit := do
  let pairs ← (← items id).mapM pair
  record id (.pairs pairs)

/-- The entries of a mapping, each with the node of its key; of equal keys the first gives the key
and the last the value. -/
def entries (id : NodeId) : Maker (List ((NodeId × Value) × NodeId)) := do
  let (entries, nodes) ← (← get).nodes.mergedEntries id
  modify fun m => { m with nodes := nodes }
  entries.foldlM (fun done entry => do
    let v ← key entry.1
    visit entry.2
    return nodes.putEntry (entry.1, v) entry.2 done) []

/-- Fills an announced collection. -/
def fill (id : NodeId) : Maker Unit := do
  match (← get).nodes.tag id with
  | .sequence => fillList id
  | .orderedMap => fillPairs id
  | .pairs => fillPairs id
  | .set => record id (.members (Data.arranged ((← entries id).map fun e => e.1.2)))
  | _ => record id (.record ((← entries id).map fun e => (e.1.2, e.2)))

/-- The next collection to fill. -/
def next? : Maker (Option NodeId) := do
  let m ← get
  match m.waiting with
  | id :: rest => do
    set { m with waiting := rest }
    return some id
  | [] =>
    match m.announced.reverse with
    | id :: rest => do
      set { m with waiting := rest, announced := [] }
      return some id
    | [] => return none

/-- Fills all announced collections, of which there is at most one for each node. -/
def fillAll : Nat → Maker Unit
  | 0 => return
  | fuel + 1 => do
    match ← next? with
    | some id => do
      fill id
      fillAll fuel
    | none => return

end Maker

/-- What the nodes come to that a root refers to. -/
def Nodes.shapes (ns : Nodes) (root : NodeId) : Except Fault (Array (Option Shape)) := do
  let start : Making :=
    { nodes := ns, shapes := Array.replicate ns.size none, waiting := [], announced := [] }
  let ((), m) ← (do Maker.visit root; Maker.fillAll (ns.size + 1) : Maker Unit).run start
  return m.shapes

end VariableOrder.Document
