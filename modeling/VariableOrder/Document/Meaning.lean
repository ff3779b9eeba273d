import VariableOrder.Document.NodeReader
import VariableOrder.Document.Unfolding

/-!
# The data of a document

A document is read block by block and cut into tokens, which make a graph of nodes; the nodes come
to values and collections, and these are told as data.
-/

set_option autoImplicit false

namespace VariableOrder.Document

open Data (Value)

/-- The data of a document; a text without a document is null. -/
def readText (t : SourceText) : Except Fault Value := do
  let (root, nodes) ← Nodes.read t
  match root with
  | some root => return dataOf (← nodes.shapes root) root
  | none => return .null

/-- The data of a file with the given bytes. -/
def read (bytes : List UInt8) : Except Fault Value :=
  readText (.ofBytes bytes)

end VariableOrder.Document
