import VariableOrder.Document.Fault
import VariableOrder.Document.Node

/-!
# Merging mappings

In a mapping the key of two angle brackets stands for the entries of another mapping, or of several
in a sequence, the last of them first; they go in front of the mapping's own entries. A lone equal
sign that is a key becomes a text. Both changes are made in the table, where other places that refer
to the same nodes see them, and are made once. A mapping may bring in itself: what it brings in are
then the entries that it has by then.
-/

set_option autoImplicit false

namespace VariableOrder.Document

/-- Changing the nodes of a document. -/
abbrev Merging := StateT Nodes (Except Fault)

namespace Merging

/-- The entries of a mapping. -/
def entries (id : NodeId) : Merging (List Entry) := do
  match (← get).content id with
  | .mapping entries => return entries
  | _ => throw .malformed

/-- The entries of a node that has to be a mapping, after merging. -/
def mergedEntries (merge : NodeId → Merging Unit) (id : NodeId) : Merging (List Entry) := do
  match (← get).content id with
  | .mapping _ => do
    merge id
    entries id
  | _ => throw .malformed

/-- The entries that a node under a merge key stands for. -/
def broughtIn (merge : NodeId → Merging Unit) (id : NodeId) : Merging (List Entry) := do
  match (← get).content id with
  | .sequence items => return (← items.mapM (mergedEntries merge)).reverse.flatten
  | _ => mergedEntries merge id

/-- Looks at the entries of a mapping that follow those seen, which are given latest first, and
yields what its merge keys bring in. Once the mapping has been merged on the way, nothing is left to
look at. -/
def lookAt (merge : NodeId → Merging Unit) (id : NodeId) (seen : List Entry) :
    List Entry → Merging (List Entry)
  | [] => return []
  | (key, value) :: rest => do
    match (← get).tag key with
    | .scalar .merge => do
      modify fun ns => ns.setContent id (.mapping (seen.reverse ++ rest))
      let first ← broughtIn merge value
      if ((← get).get id).isMerged then return first
      else return first ++ (← lookAt merge id seen rest)
    | .scalar .default => do
      modify fun ns => ns.setTag key (.scalar .text)
      lookAt merge id ((key, value) :: seen) rest
    | _ => lookAt merge id ((key, value) :: seen) rest

/-- Merges other mappings into one. Each mapping that is merged on the way has taken up an entry
with a merge key, so the count of entries bounds how deep this goes. -/
def merge : Nat → NodeId → Merging Unit
  | 0, _ => throw .malformed
  | fuel + 1, id => do
    if !((← get).get id).isMerged then
      let brought ← lookAt (merge fuel) id [] (← entries id)
      let own ← entries id
      modify fun ns =>
        ns.set id { ns.get id with content := .mapping (brought ++ own), isMerged := true }

end Merging

/-- The count of entries of a node. -/
def Node.entryCount (n : Node) : Nat :=
  match n.content with
  | .mapping entries => entries.length
  | _ => 0

/-- The count of entries of all nodes. -/
def Nodes.entryCount (ns : Nodes) : Nat :=
  ns.table.foldl (fun count n => count + n.entryCount) 0

/-- The entries of a mapping with other mappings merged in, and the nodes after that. -/
def Nodes.mergedEntries (ns : Nodes) (id : NodeId) : Except Fault (List Entry × Nodes) :=
  (Merging.mergedEntries (Merging.merge (ns.entryCount + 2)) id).run ns

end VariableOrder.Document
