import VariableOrder.Data.Shown

/-!
# Findings

Raw data is checked against what is expected of it, and everything that does not fit is found in
one go. A finding names the place by the path that leads to it and says what is expected there.
-/

set_option autoImplicit false

namespace VariableOrder.Schema

open Data (Value)

/-- What raw data has to be but is not. -/
inductive Complaint where
  | missing
  | notExpected
  | keyNotText
  | text
  | textBytes
  | emptyText
  | blankName
  | integer
  | integerText
  | integerSize
  | wholeNumber
  | finiteNumber
  | atLeast (least : Int)
  | flag
  | flagText
  | list
  | record
  | recordOf (name : String)
  deriving DecidableEq, Repr

/-- The wording of a complaint. -/
def Complaint.message : Complaint → String
  | .missing => "Field required"
  | .notExpected => "Extra inputs are not permitted"
  | .keyNotText => "Keys should be strings"
  | .text => "Input should be a valid string"
  | .textBytes => "Input should be a valid string, unable to parse raw data as a unicode string"
  | .emptyText => "String should have at least 1 character"
  | .blankName => "Value error, variable name must not be blank"
  | .integer => "Input should be a valid integer"
  | .integerText => "Input should be a valid integer, unable to parse string as an integer"
  | .integerSize => "Unable to parse input string as an integer, exceeded maximum size"
  | .wholeNumber => "Input should be a valid integer, got a number with a fractional part"
  | .finiteNumber => "Input should be a finite number"
  | .atLeast least => "Input should be greater than or equal to " ++ toString least
  | .flag => "Input should be a valid boolean"
  | .flagText => "Input should be a valid boolean, unable to interpret input"
  | .list => "Input should be a valid list"
  | .record => "Input should be a valid dictionary"
  | .recordOf name => "Input should be a valid dictionary or instance of " ++ name

/-- A complaint about the data at the end of a path. -/
structure Finding where
  path : List String
  complaint : Complaint
  deriving DecidableEq, Repr

/-- The text of a path; the empty one stands for the entry as a whole. -/
def pathText (path : List String) : String :=
  let text := String.intercalate "." path
  if text = "" then "entry" else text

/-- The wording of a finding. -/
def Finding.message (f : Finding) : String :=
  pathText f.path ++ ": " ++ f.complaint.message

/-- The wording of several findings. -/
def findingsText (findings : List Finding) : String :=
  String.intercalate "; " (findings.map Finding.message)

/-- The outcome of a check: the data as it is understood, or the findings. -/
abbrev Checked (α : Type) := Except (List Finding) α

namespace Checked

variable {α : Type}

/-- The outcome of a failed check with one complaint about the data itself. -/
def refuse (c : Complaint) : Checked α :=
  .error [⟨[], c⟩]

/-- The findings of a check. -/
def findings : Checked α → List Finding
  | .ok _ => []
  | .error fs => fs

/-- A check of data that stands under a label. -/
def under (label : String) (checked : Checked α) : Checked α :=
  checked.mapError fun fs => fs.map fun f => { f with path := label :: f.path }

end Checked

/-- The label of a key that can not be written. -/
def unwritableLabel (v : Value) : String :=
  "<unprintable " ++ v.typeName ++ " object>"

/-- The label of a key in a path: a text stands for itself, a whole number is written as one, and
anything else by its literal. -/
def keyLabel : Value → String
  | .text s => s
  | .flag b => if b then "1" else "0"
  | v => if v.isWritable then v.literal else unwritableLabel v

end VariableOrder.Schema
