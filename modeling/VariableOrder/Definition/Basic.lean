import VariableOrder.Expression.Resource

/-!
# Definitions

A variable has a name and one or more candidate values. Which candidate is used is decided
when the installer runs, by conditions that are carried along untouched. A definition needs
what any of its candidates needs, and it remembers where it was declared.
-/

set_option autoImplicit false

namespace VariableOrder

/-- A candidate value of a variable, with its condition and its evaluation flags. -/
structure Candidate where
  value : Expr
  condition : Option String := none
  checkOnce : Bool := false
  ignoreFailure : Bool := true
  autoUnset : Bool := true

/-- The definition of a variable. -/
structure Definition where
  name : String
  candidates : List Candidate
  isStatic : Bool
  sourceOrder : Int

namespace Candidate

/-- The field of a condition; an empty condition has none. -/
def conditionField : Option String → List (String × Resource)
  | some text => if text = "" then [] else [("condition", .text text)]
  | none => []

/-- The resource of a candidate. -/
def resource (c : Candidate) : Resource :=
  .record ([("value", c.value.resource)] ++ conditionField c.condition
    ++ [("checkonce", .flag c.checkOnce), ("ignorefailure", .flag c.ignoreFailure),
        ("unset", .flag c.autoUnset)])

end Candidate

namespace Definition

/-- The names that a definition needs, ascending and each once. -/
def needs (d : Definition) : List String :=
  Text.sortedNames (d.candidates.flatMap fun c => c.value.referencedNames)

/-- The first raw value that stands in the place of an expression. -/
def firstUnsupported (d : Definition) : Option Data.Value :=
  d.candidates.findSome? fun c => c.value.firstUnsupported

/-- The first raw value that would have to be written as an expression. -/
def firstUnwritable (d : Definition) : Option Data.Value :=
  d.candidates.findSome? fun c => c.value.firstUnwritable

/-- The resource of a definition. -/
def resource (d : Definition) : Resource :=
  .record [("name", .text d.name), ("static", .flag d.isStatic), ("order", .number d.sourceOrder),
    ("values", .list (d.candidates.map Candidate.resource))]

/-- A definition with one candidate for each value, all under one condition. Without any value
the variable is empty text. -/
def ofValues (name : String) (values : List Expr) (sourceOrder : Int) (isStatic : Bool)
    (condition : Option String) : Definition :=
  let values := if values.isEmpty then [.ofText ""] else values
  { name := name
    candidates := values.map fun v => { value := v, condition := condition }
    isStatic := isStatic
    sourceOrder := sourceOrder }

/-- One definition for each name and value, declared in the order of the list. -/
def ofSpecs (specs : List (String × Expr)) (staticNames : List String) : List Definition :=
  specs.zipIdx.map fun ((name, value), i) =>
    ofValues name [value] i (staticNames.contains name) none

end Definition

end VariableOrder
