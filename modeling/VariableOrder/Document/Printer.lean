import VariableOrder.Document.ScalarText
import VariableOrder.Expression.Resource

/-!
# Writing resources

A resource is written as a document in block style: a line for each field of a record and a dash
for each item of a list, indented by two further spaces at each level. The dashes of a list stand
below the key that the list belongs to. A key that is empty, long, or longer than one line is
marked by a question mark, and its value by a colon on a line of its own.

A printer goes all the way down into a resource before it writes anything, and it has room for so
many collections within each other. How many these are depends on where it runs, so it is a
parameter; a resource that is nested deeper is not written at all.
-/

set_option autoImplicit false

namespace VariableOrder.Document

/-- The indentation of one level. -/
def levelIndent : Nat := 2

/-- Keys have to be shorter than this to stand in front of their value. -/
def keyLimit : Nat := 123

/-- Whether a key can stand on one line with its value. -/
def isSimpleKey (cs : List Char) : Bool :=
  !cs.isEmpty && !cs.any isBreak && cs.length < keyLimit

/-- Writes a text behind an indicator that ends at a column. -/
def textBehind (indent column : Nat) (cs : List Char) : List Char :=
  ' ' :: scalarText true (indent + levelIndent) (column + 1) cs

mutual

/-- Writes a value behind an indicator that ends at a column. The indentation is that of the
collection around it; the flag says that the value may start its own lines behind the indicator,
as it may behind a dash but not behind a key. -/
def written (indent column : Nat) (inLine : Bool) : Resource → List Char
  | .text s => textBehind indent column s.toList
  | .flag b => ' ' :: (if b then "true" else "false").toList
  | .number n => ' ' :: (toString n).toList
  | .list items =>
    if items.isEmpty then " []".toList
    else if inLine then writtenItems (indent + levelIndent) [' '] items
    else writtenItems indent (newLine indent) items
  | .record entries =>
    if entries.isEmpty then " \x7b\x7d".toList
    else if inLine then writtenFields (indent + levelIndent) [' '] entries
    else writtenFields (indent + levelIndent) (newLine (indent + levelIndent)) entries

/-- Writes the items of a list, the first of them behind the given characters. -/
def writtenItems (indent : Nat) (lead : List Char) : List Resource → List Char
  | [] => []
  | item :: rest =>
    lead ++ '-' :: written indent (indent + 1) true item
      ++ writtenItems indent (newLine indent) rest

/-- Writes the fields of a record, the first of them behind the given characters. -/
def writtenFields (indent : Nat) (lead : List Char) : List (String × Resource) → List Char
  | [] => []
  | (name, value) :: rest =>
    let key := name.toList
    let field :=
      if isSimpleKey key then
        let keyText := scalarText false (indent + levelIndent) indent key
        keyText ++ ':' :: written indent (indent + keyText.length + 1) false value
      else
        '?' :: textBehind indent (indent + 1) key
          ++ newLine indent ++ ':' :: written indent (indent + 1) true value
    lead ++ field ++ writtenFields indent (newLine indent) rest

end

/-- The document of a record. -/
def print (entries : List (String × Resource)) : String :=
  if entries.isEmpty then "\x7b\x7d\n"
  else String.ofList (writtenFields 0 [] entries ++ ['\n'])

/-- The document of a record as a printer with the given room writes it. -/
def print? (room : Nat) (entries : List (String × Resource)) : Option String :=
  if (Resource.record entries).depth ≤ room then some (print entries) else none

end VariableOrder.Document
