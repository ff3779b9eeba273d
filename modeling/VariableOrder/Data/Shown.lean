import VariableOrder.Data.Value
import VariableOrder.Number.FloatText
import VariableOrder.Number.Integer
import VariableOrder.Text.Quoted

/-!
# The text of raw data

Two texts of a value are needed. Its literal is how a message shows it: text is quoted and
collections show their parts. Its plain text is how it enters an expression or a sentence:
text as it is, days and moments as dates, all else as its literal.
-/

set_option autoImplicit false

namespace VariableOrder.Data

namespace Value

/-- What messages call the kind of a value. -/
def typeName : Value → String
  | .null => "NoneType"
  | .flag _ => "bool"
  | .integer _ => "int"
  | .fraction _ => "float"
  | .text _ => "str"
  | .bytes _ => "bytes"
  | .day _ => "datetime.date"
  | .moment _ => "datetime.datetime"
  | .list _ => "list"
  | .collection _ => "set"
  | .pair _ _ => "tuple"
  | .record _ => "dict"
  | .again .list => "list"
  | .again .pair => "tuple"
  | .again .record => "dict"

/-- What messages call the kind of the first part of a value that keeps it from being a key. -/
def growingName : Value → String
  | .pair first second => if first.isKey then second.growingName else first.growingName
  | v => v.typeName

mutual

/-- The literal of a value. -/
def literal : Value → String
  | .null => "None"
  | .flag b => if b then "True" else "False"
  | .integer n => toString n
  | .fraction x => Number.floatText x
  | .text s => Text.quoted s
  | .bytes bs => Text.quotedBytes bs
  | .day d => d.literal
  | .moment m => m.literal
  | .list items => "[" ++ String.intercalate ", " (literals items) ++ "]"
  | .collection [] => "set()"
  | .collection (m :: ms) =>
    "\x7b" ++ String.intercalate ", " (m.literal :: literals ms) ++ "\x7d"
  | .pair a b => "(" ++ a.literal ++ ", " ++ b.literal ++ ")"
  | .record entries => "\x7b" ++ String.intercalate ", " (entryLiterals entries) ++ "\x7d"
  | .again .list => "[...]"
  | .again .pair => "(...)"
  | .again .record => "\x7b...\x7d"

/-- The literals of the items of a list. -/
def literals : List Value → List String
  | [] => []
  | v :: rest => v.literal :: literals rest

/-- The literals of the entries of a record. -/
def entryLiterals : List (Value × Value) → List String
  | [] => []
  | (k, v) :: rest => (k.literal ++ ": " ++ v.literal) :: entryLiterals rest

end

/-- Whether a whole number has so many digits that it is not written. -/
def isTooLong (n : Int) : Bool :=
  Number.longestNumber < (Nat.toDigits 10 n.natAbs).length

mutual

/-- Whether a value can be written: no whole number in it is too long. -/
def isWritable : Value → Bool
  | .integer n => !isTooLong n
  | .list items => areWritable items
  | .collection members => areWritable members
  | .pair a b => a.isWritable && b.isWritable
  | .record entries => entriesAreWritable entries
  | _ => true

/-- Whether the items of a list can be written. -/
def areWritable : List Value → Bool
  | [] => true
  | v :: rest => v.isWritable && areWritable rest

/-- Whether the entries of a record can be written. -/
def entriesAreWritable : List (Value × Value) → Bool
  | [] => true
  | (k, v) :: rest => k.isWritable && v.isWritable && entriesAreWritable rest

end

/-- The plain text of a value. -/
def plain : Value → String
  | .text s => s
  | .day d => d.text
  | .moment m => m.text
  | v => v.literal

end Value

end VariableOrder.Data
