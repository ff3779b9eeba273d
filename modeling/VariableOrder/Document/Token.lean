import VariableOrder.Document.Cursor

/-!
# Tokens

The tokens of a document. Where the structure is told by indentation, the tokens tell it by
explicit starts and ends.
-/

set_option autoImplicit false

namespace VariableOrder.Document

/-- An instruction in front of a document. -/
inductive Directive where
  | version (major : Nat)
  | tag (handle target : String)
  | other
  deriving DecidableEq, Repr

/-- A token of a document. -/
inductive Token where
  | directive (d : Directive)
  | documentStart
  | documentEnd
  | listStart
  | recordStart
  | blockEnd
  | flowListStart
  | flowListEnd
  | flowRecordStart
  | flowRecordEnd
  | entry
  | separator
  | key
  | value
  | alias (name : String)
  | anchor (name : String)
  | tag (handle : Option String) (suffix : String)
  | scalar (text : String) (isPlain : Bool)
  | streamEnd
  deriving DecidableEq, Repr

end VariableOrder.Document
