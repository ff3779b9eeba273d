import VariableOrder.Schema.Collection

/-!
# Settings

The settings of a run: names that are known to be provided from outside, and a count of workers,
which is checked but never changes an answer.
-/

set_option autoImplicit false

namespace VariableOrder

open Data (Value Record)
open Schema (Checked)

/-- The settings of a run. -/
structure Settings where
  external : List String := []
  workers : Option Int := none
  deriving DecidableEq, Repr

namespace Settings

/-- The field of the names that are provided from outside. -/
def externalField : String := "external_variables"

/-- The field of the count of workers. -/
def workersField : String := "max_workers"

/-- Checks the fields of settings. -/
def ofFields (entries : Record Value) : Checked Settings :=
  let external := Schema.defaulted entries externalField [] (Schema.checkList Schema.checkText)
  let workers := Schema.defaulted entries workersField none (Schema.checkOptionalAtLeast 1)
  let others := Schema.forbidOthers entries [externalField, workersField]
  match external, workers, others with
  | .ok external, .ok workers, [] => .ok ⟨external, workers⟩
  | external, workers, others => .error (external.findings ++ workers.findings ++ others)

/-- Checks for settings. -/
def ofValue (v : Value) : Checked Settings :=
  match v with
  | .record entries => ofFields entries
  | _ => .refuse (.recordOf "ResolverSettings")

/-- A count of workers as a raw value. -/
def workersValue : Option Int → Value
  | some n => .integer n
  | none => .null

/-- Settings with further names from outside and, unless it is null, another count of workers;
all of it is checked again. -/
def extended (s : Settings) (external : List Value) (workers : Value) : Checked Settings :=
  ofFields [(.text externalField, .list (s.external.map .text ++ external)),
    (.text workersField, if workers.isNull then workersValue s.workers else workers)]

end Settings

end VariableOrder
