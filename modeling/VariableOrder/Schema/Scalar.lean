import VariableOrder.Number.Decimal
import VariableOrder.Schema.Finding
import VariableOrder.Text.Encoding

/-!
# Checking scalars

Texts, truth values and whole numbers are accepted in more than one form. Bytes count as the text
that they encode. A truth value may be a number or one of a few words. A whole number may be a
fraction without a fractional part, or a text with blanks around it, a plus sign, leading zeros
(even in front of a minus sign), single underscores among its digits, or a point with at least one
zero behind it.
-/

set_option autoImplicit false

namespace VariableOrder.Schema

open Data (Value)

/-- The text of a value that is a text, or bytes that encode one. -/
def textOf? : Value → Option (Except Unit String)
  | .text s => some (.ok s)
  | .bytes bs =>
    match Text.decodeUtf8 bs with
    | .ok cs => some (.ok (String.ofList cs))
    | .error _ => some (.error ())
  | _ => none

/-- Checks for a text. -/
def checkText (v : Value) : Checked String :=
  match textOf? v with
  | some (.ok s) => .ok s
  | some (.error _) => .refuse .textBytes
  | none => .refuse .text

/-- Checks for a text or null. -/
def checkOptionalText (v : Value) : Checked (Option String) :=
  if v.isNull then .ok none else (checkText v).map some

/-- Checks for the name of a variable; blanks around it do not belong to it. -/
def checkName (v : Value) : Checked String := do
  let s ← checkText v
  if s = "" then .refuse .emptyText
  else if Text.isAllBlank s.toList then .refuse .blankName
  else return String.ofList (Text.strip s.toList)

/-- The words for the truth values. -/
def trueWords : List String := ["1", "on", "t", "true", "y", "yes"]

/-- The words for the false truth value. -/
def falseWords : List String := ["0", "off", "f", "false", "n", "no"]

/-- The truth value of a word in upper or lower case. -/
def flagOfText (s : String) : Checked Bool :=
  let word := String.ofList (s.toList.map Char.toLower)
  if trueWords.contains word then .ok true
  else if falseWords.contains word then .ok false
  else .refuse .flagText

/-- Fractions below this size are read as whole numbers. -/
def wholeLimit : Int := 0x8000000000000000

/-- The truth value of a number. A number beyond 64 bits is not even tried. -/
def flagOfInteger (n : Int) : Checked Bool :=
  if n = 1 then .ok true
  else if n = 0 then .ok false
  else if -wholeLimit ≤ n && n < wholeLimit then .refuse .flagText
  else .refuse .flag

/-- The whole number that a fraction stands for. -/
def integerOfFraction (x : Float) : Checked Int :=
  if x.isNaN || x.isInf then .refuse .finiteNumber
  else
    match Number.wholeValue? x with
    | none => .refuse .wholeNumber
    | some n => if -wholeLimit < n && n < wholeLimit then .ok n else .refuse .integerSize

/-- Checks for a truth value. -/
def checkFlag (v : Value) : Checked Bool :=
  match v with
  | .flag b => .ok b
  | .integer n => flagOfInteger n
  | .fraction x =>
    match integerOfFraction x with
    | .ok n => flagOfInteger n
    | .error _ => .refuse .flag
  | v =>
    match textOf? v with
    | some (.ok s) => flagOfText s
    | some (.error _) => .refuse .flagText
    | none => .refuse .flag

/-- The whole number that is written with digits only, and a minus sign where it is negative. A
number that starts well but is too long is told from other texts. -/
def plainInteger (cs : List Char) : Except Complaint Int :=
  let negative := cs.head? = some '-'
  let body := if negative then cs.drop 1 else cs
  let digits := body.takeWhile Char.isDigit
  let zeroFirst := digits.head? = some '0'
  if !zeroFirst && Number.longestNumber < cs.length - body.length + digits.length then
    .error .integerSize
  else if digits.isEmpty || digits.length < body.length || (zeroFirst && 1 < digits.length) then
    .error .integerText
  else .ok (Number.signed negative (Number.naturalOf digits))

/-- Drops zeros and underscores in front of a number or of its sign, and keeps a zero that stands
alone or in front of a point. -/
def withoutZerosAfter (last : Char) : List Char → Option (List Char)
  | [] => some [last]
  | c :: rest =>
    if c = '0' || c = '_' then withoutZerosAfter c rest
    else if c.isDigit || c = '-' then some (c :: rest)
    else if c = '.' then some (last :: c :: rest)
    else none

/-- Drops zeros in front of a number that starts with one; other numbers stay as they are. -/
def withoutZeros : List Char → Option (List Char)
  | [] => none
  | c :: rest =>
    if c = '0' then withoutZerosAfter c rest
    else if c.isDigit || c = '-' then some (c :: rest)
    else none

/-- Drops a point that is followed by zeros and nothing else. -/
def withoutZeroPart (cs : List Char) : List Char :=
  match cs.dropWhile (· != '.') with
  | _ :: part =>
    if !part.isEmpty && part.all (· = '0') then cs.takeWhile (· != '.') else cs
  | [] => cs

/-- Whether two underscores are neighbours. -/
def hasDoubleUnderscore : List Char → Bool
  | c :: d :: rest => (c = '_' && d = '_') || hasDoubleUnderscore (d :: rest)
  | _ => false

/-- Drops underscores, unless one stands at an end of the digits or beside another. -/
def withoutUnderscores (cs : List Char) : List Char :=
  let digits := if cs.head? = some '-' then cs.drop 1 else cs
  if digits.head? = some '_' || cs.getLast? = some '_' || hasDoubleUnderscore cs then cs
  else cs.filter (· != '_')

/-- A number with all that does not count removed. -/
def cleaned (cs : List Char) : Option (List Char) := do
  let trimmed := Text.trim Text.isWhiteSpace cs
  let unsigned ←
    match trimmed with
    | '+' :: '-' :: _ => none
    | '+' :: rest => some rest
    | _ => some trimmed
  let digits ← withoutZeros unsigned
  return withoutUnderscores (withoutZeroPart digits)

/-- The whole number that a text stands for. -/
def integerOfText (s : String) : Checked Int :=
  match plainInteger s.toList with
  | .ok n => .ok n
  | .error .integerSize => .refuse .integerSize
  | .error _ =>
    match (cleaned s.toList).map plainInteger with
    | some (.ok n) => .ok n
    | _ => .refuse .integerText

/-- Checks for a whole number. -/
def checkInteger (v : Value) : Checked Int :=
  match v with
  | .flag b => .ok (if b then 1 else 0)
  | .integer n => .ok n
  | .fraction x => integerOfFraction x
  | v =>
    match textOf? v with
    | some (.ok s) => integerOfText s
    | some (.error _) => .refuse .integerText
    | none => .refuse .integer

/-- Checks for a whole number that is at least the given one, or null. -/
def checkOptionalAtLeast (least : Int) (v : Value) : Checked (Option Int) :=
  if v.isNull then .ok none
  else do
    let n ← checkInteger v
    if n < least then .refuse (.atLeast least) else return some n

end VariableOrder.Schema
