import VariableOrder.Document.Scalar

/-!
# Nodes of a document

A document is a graph of scalars, sequences and mappings, each with a tag that tells its kind. A
node that has a name may stand at several places, and even inside itself, so nodes are kept in a
table and refer to each other by their places in it.
-/

set_option autoImplicit false

namespace VariableOrder.Document

/-- The kinds that a tag can tell. -/
inductive Tag where
  | scalar (kind : ScalarKind)
  | binary
  | sequence
  | mapping
  | set
  | orderedMap
  | pairs
  | other
  deriving DecidableEq, Repr

/-- What the names of the common tags start with. -/
def commonTags : String := "tag:yaml.org,2002:"

/-- The common tags by name. -/
def tagNames : List (String × Tag) :=
  [("str", .scalar .text), ("null", .scalar .null), ("bool", .scalar .flag),
    ("int", .scalar .integer), ("float", .scalar .fraction), ("timestamp", .scalar .moment),
    ("merge", .scalar .merge), ("value", .scalar .default), ("binary", .binary),
    ("seq", .sequence), ("map", .mapping), ("set", .set), ("omap", .orderedMap),
    ("pairs", .pairs)]

/-- The tag with a name. -/
def Tag.ofName (name : String) : Tag :=
  match tagNames.find? fun t => commonTags ++ t.1 == name with
  | some (_, tag) => tag
  | none => .other

/-- The place of a node in the table of a document. -/
abbrev NodeId := Nat

/-- A key and a value. -/
abbrev Entry := NodeId × NodeId

/-- What a node is made of. -/
inductive Content where
  | scalar (text : String)
  | sequence (items : List NodeId)
  | mapping (entries : List Entry)
  deriving DecidableEq, Repr

/-- A node of a document. The flag says that the entries of other mappings are merged in. -/
structure Node where
  tag : Tag
  content : Content
  isMerged : Bool := false
  deriving DecidableEq, Repr

/-- A node of an unknown kind, which stands where there is none. -/
def Node.unknown : Node :=
  { tag := .other, content := .scalar "" }

/-- The nodes of a document. -/
structure Nodes where
  table : Array Node

namespace Nodes

/-- No nodes. -/
def empty : Nodes := ⟨#[]⟩

/-- The count of nodes. -/
def size (ns : Nodes) : Nat :=
  ns.table.size

/-- The node at a place. -/
def get (ns : Nodes) (id : NodeId) : Node :=
  ns.table.getD id .unknown

/-- Puts a node at a place. -/
def set (ns : Nodes) (id : NodeId) (n : Node) : Nodes :=
  ⟨ns.table.setIfInBounds id n⟩

/-- Adds a node behind the others; its place is their count. -/
def push (ns : Nodes) (n : Node) : Nodes :=
  ⟨ns.table.push n⟩

/-- The tag of a node. -/
def tag (ns : Nodes) (id : NodeId) : Tag :=
  (ns.get id).tag

/-- What a node is made of. -/
def content (ns : Nodes) (id : NodeId) : Content :=
  (ns.get id).content

/-- Gives a node another tag. -/
def setTag (ns : Nodes) (id : NodeId) (t : Tag) : Nodes :=
  ns.set id { ns.get id with tag := t }

/-- Gives a node another content. -/
def setContent (ns : Nodes) (id : NodeId) (c : Content) : Nodes :=
  ns.set id { ns.get id with content := c }

end Nodes

end VariableOrder.Document
