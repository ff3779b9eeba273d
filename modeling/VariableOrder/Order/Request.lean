import VariableOrder.Definition.Settings
import VariableOrder.Order.Resolve

/-!
# Requesting an order

An order is requested by definitions, the names that are provided from outside and a count of
workers. The names and the count are raw settings and are checked before the definitions are
looked at.
-/

set_option autoImplicit false

namespace VariableOrder

/-- Why a request has no evaluation order. -/
inductive RequestFailure where
  | settings (findings : List Schema.Finding)
  | resolution (f : ResolveFailure)

/-- The settings that are given by names from outside and a count of workers. -/
def Settings.requested (external workers : Data.Value) : Schema.Checked Settings :=
  ofFields [(.text externalField, external), (.text workersField, workers)]

/-- The evaluation order of definitions under requested settings. -/
def requestOrder (definitions : List Definition) (external workers : Data.Value) :
    Except RequestFailure Ordered :=
  match Settings.requested external workers with
  | .error findings => .error (.settings findings)
  | .ok settings =>
    (resolve definitions settings.external settings.workers).mapError .resolution

end VariableOrder
