/-!
# Sorted names

Sets of names are kept as lists in ascending order of code points without repetition, so
that whatever is reported about them never depends on the order in which they were found.
-/

set_option autoImplicit false

namespace VariableOrder.Text

/-- Inserts a name at its place, unless it is there already. -/
def insertName (name : String) : List String → List String
  | [] => [name]
  | head :: rest =>
    if name < head then name :: head :: rest
    else if name = head then head :: rest
    else head :: insertName name rest

/-- The names of a list, ascending and each once. -/
def sortedNames (names : List String) : List String :=
  names.foldr insertName []

/-- Joins texts with a comma and a space between them. -/
def commaList (names : List String) : String :=
  String.intercalate ", " names

end VariableOrder.Text
