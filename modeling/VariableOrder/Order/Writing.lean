import VariableOrder.Files.Access
import VariableOrder.Order.Document
import VariableOrder.Text.Encoding

/-!
# Writing the order

The file is opened before the document is printed, and opening empties it. So ordered variables
without a document leave an empty file behind.
-/

set_option autoImplicit false

namespace VariableOrder

/-- Why ordered variables are not written. -/
inductive WriteFailure where
  | file (f : Files.Failure)
  | document (f : DocumentFailure)

/-- Writes the document of the ordered variables to the end of a path: opens the file, prints the
document, and fills the file with it. -/
def Ordered.write (room : Nat) (o : Ordered) (t : Files.Tree) (path : String) :
    Files.Tree × Option WriteFailure :=
  match Files.Access.openFile t path with
  | (t, .error f) => (t, some (.file f))
  | (t, .ok place) =>
    match o.document? room with
    | .error f => (t, some (.document f))
    | .ok text => (t.fill place (Text.encodeUtf8 text.toList), none)

end VariableOrder
