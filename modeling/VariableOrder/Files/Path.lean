/-!
# Paths

A path names a place by the names on the way to it, divided by slashes. It starts at the root if
it begins with a slash, and otherwise at the place where one is. Repeated slashes count as one; a
slash at the end says that the place has to be a directory.
-/

set_option autoImplicit false

namespace VariableOrder.Files

/-- The steps of a path, and whether a slash stands in front of the first and behind the last. -/
structure Path where
  fromRoot : Bool
  steps : List String
  closed : Bool
  deriving DecidableEq, Repr

namespace Path

/-- Divides characters at the slashes; runs without characters are left out. -/
def stepsOf (run : List Char) : List Char → List String
  | [] => if run.isEmpty then [] else [String.ofList run.reverse]
  | c :: rest =>
    if c = '/' then
      (if run.isEmpty then [] else [String.ofList run.reverse]) ++ stepsOf [] rest
    else stepsOf (c :: run) rest

/-- Reads a path. -/
def ofText (text : String) : Path :=
  let cs := text.toList
  { fromRoot := cs.head? = some '/', steps := stepsOf [] cs, closed := cs.getLast? = some '/' }

/-- The characters up to the last slash, and those behind it. -/
def cut (cs : List Char) : List Char × List Char :=
  let back := cs.reverse
  let last := back.takeWhile (· != '/')
  ((back.drop last.length).reverse, last.reverse)

/-- Takes the slashes at the end away, unless there is nothing else. -/
def unclosed (cs : List Char) : List Char :=
  let bare := (cs.reverse.dropWhile (· = '/')).reverse
  if bare.isEmpty then cs else bare

/-- The text of a path up to its last step, and the last step, which is empty behind a slash at
the end. -/
def split (cs : List Char) : List Char × List Char :=
  let (head, last) := cut cs
  (unclosed head, last)

end Path

end VariableOrder.Files
