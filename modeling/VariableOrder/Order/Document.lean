import VariableOrder.Document.Printer
import VariableOrder.Order.Emit

/-!
# The written order

The document that the installer reads holds the ordered variables under one name. Variables have
none if a raw value stands in the place of an expression, or if they are nested too deep for the
printer.
-/

set_option autoImplicit false

namespace VariableOrder

/-- The name under which the installer looks for the ordered variables. -/
def resourceName : String := "dynvariables"

/-- Why ordered variables have no document. -/
inductive DocumentFailure where
  | unwritable (raw : Data.Value)
  | nesting

/-- The wording of a failure. -/
def DocumentFailure.message : DocumentFailure → String
  | .unwritable raw => Expr.unwritableMessage raw
  | .nesting => "maximum recursion depth exceeded"

namespace Ordered

/-- The record of the ordered variables. -/
def fields (o : Ordered) : List (String × Resource) :=
  [(resourceName, o.resource)]

/-- How many collections stand within each other in the record of the ordered variables. -/
def depth (o : Ordered) : Nat :=
  (Resource.record o.fields).depth

/-- The document of the ordered variables. -/
def document (o : Ordered) : String :=
  Document.print o.fields

/-- The document of the ordered variables as a printer with the given room writes it. -/
def document? (room : Nat) (o : Ordered) : Except DocumentFailure String :=
  match o.firstUnwritable with
  | some raw => .error (.unwritable raw)
  | none =>
    match Document.print? room o.fields with
    | some text => .ok text
    | none => .error .nesting

end Ordered

end VariableOrder
