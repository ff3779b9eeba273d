import VariableOrder.Order.Emit

/-!
# The report

A summary of an order for people: a line for each variable with its place in the order, and
below them the references that are left open, if there are any.
-/

set_option autoImplicit false

namespace VariableOrder

/-- A number with spaces in front up to three characters. -/
def paddedIndex (n : Nat) : String :=
  let digits := Nat.toDigits 10 n
  String.ofList (List.replicate (3 - digits.length) ' ' ++ digits)

/-- The line of a variable at a place of the order. -/
def variableLine (place : Nat) (d : Definition) : String :=
  paddedIndex place ++ ". " ++ d.name ++ (if d.isStatic then " (static)" else "") ++ "\n"

/-- The line of an open reference. -/
def warningLine (w : Warning) : String :=
  "  - " ++ w.dependent ++ " -> " ++ w.reference ++ "\n"

/-- The report of an order; the source is named in its first line. -/
def Ordered.report (o : Ordered) (source : String) : String :=
  "Installer built from '" ++ source ++ "' has this ordering of variable computation:\n"
    ++ String.join (o.definitions.zipIdx.map fun (d, i) => variableLine (i + 1) d)
    ++ (if o.warnings.isEmpty then ""
        else "\nUnresolved references (left to install time):\n"
          ++ String.join (o.warnings.map warningLine))

end VariableOrder
