import VariableOrder.Data.Value
import VariableOrder.Document.Fault
import VariableOrder.Document.Scalar
import VariableOrder.Number.Decimal
import VariableOrder.Text.LowerCase

/-!
# Values of scalars

The value of a scalar whose kind is known. A kind may come from the spelling, and then the
spelling suits it, but it may also come from a tag, and then it may not.
-/

set_option autoImplicit false

namespace VariableOrder.Document

open Data (Value)

/-- A text without underscores. -/
def withoutUnderscores (cs : List Char) : List Char :=
  cs.filter (· != '_')

/-- The letter that may mark a number of a base behind a zero. -/
def baseLetter : Nat → Option Char
  | 2 => some 'b'
  | 8 => some 'o'
  | 16 => some 'x'
  | _ => none

/-- Drops the mark of a base. -/
def withoutBaseMark (base : Nat) : List Char → List Char
  | '0' :: letter :: rest =>
    if some letter.toLower = baseLetter base then rest else '0' :: letter :: rest
  | cs => cs

/-- The whole number that digits of a base stand for. -/
def integerInBase (base : Nat) (cs : List Char) : Except Fault Int :=
  let (negative, digits) := Number.splitSign (Text.trim Text.isWhiteSpace cs)
  let count := (digits.takeWhile fun c => (Number.decimalDigit? c).isSome).length
  if base = 10 && Number.longestNumber < count then .error (.longInteger count)
  else
    match Number.digitsFrom base false 0 (withoutBaseMark base digits) with
    | some n => .ok (Number.signed negative n)
    | none => .error (.notInteger base (String.ofList cs))

/-- The number whose digits in base sixty are given, the greatest first. -/
def fromSixtieths (digits : List Int) : Int :=
  digits.foldl (fun n d => n * 60 + d) 0

/-- The whole number that a text without sign and underscores stands for. -/
def magnitudeOf (cs : List Char) : Except Fault Int :=
  match cs with
  | [] => .error .noDigits
  | '0' :: [] => .ok 0
  | '0' :: 'b' :: digits => integerInBase 2 digits
  | '0' :: 'x' :: digits => integerInBase 16 digits
  | '0' :: _ => integerInBase 8 cs
  | _ =>
    if cs.contains ':' then ((fields ':' cs).mapM (integerInBase 10)).map fromSixtieths
    else integerInBase 10 cs

/-- The whole number that a text stands for. -/
def integerOf (text : String) : Except Fault Int :=
  let cs := withoutUnderscores text.toList
  if cs.isEmpty then .error .noDigits
  else (magnitudeOf (withoutSign cs)).map fun n => if cs.head? = some '-' then -n else n

/-- The fraction that a text stands for, read without further marks. -/
def plainFraction (cs : List Char) : Except Fault Float :=
  match Number.fraction? cs with
  | some x => .ok x
  | none => .error (.notFraction (String.ofList cs))

/-- A power of sixty as a fraction, if it is not too large for one. -/
def powerOfSixty (exponent : Nat) : Except Fault Float :=
  let power := Number.nearest (Nat.pow 60 exponent) 0
  if power.isInf then .error .fractionSize else .ok power

/-- The sum of digits times powers of sixty, the smallest power first. -/
def sumOfSixtieths (digits : List Float) : Except Fault Float :=
  digits.zipIdx.foldlM (fun sum (d, i) => (powerOfSixty i).map fun power => sum + d * power) 0.0

/-- A fraction in lower case without underscores. -/
def fractionSpelling (text : String) : List Char :=
  Text.lowerCase (withoutUnderscores text.toList)

/-- Whether a text spells the value that is no number. -/
def isNoNumber (text : String) : Bool :=
  withoutSign (fractionSpelling text) = ".nan".toList

/-- The fraction that a text stands for. -/
def fractionOf (text : String) : Except Fault Float :=
  let cs := fractionSpelling text
  let body := withoutSign cs
  let signed (x : Float) : Float := if cs.head? = some '-' then -1.0 * x else 1.0 * x
  if cs.isEmpty then .error .noDigits
  else if body = ".inf".toList then .ok (signed (1.0 / 0.0))
  else if isNoNumber text then .ok (0.0 / 0.0)
  else if body.contains ':' then do
    let digits ← (fields ':' body).mapM plainFraction
    return signed (← sumOfSixtieths digits.reverse)
  else (plainFraction body).map signed

/-- The truth value that a text stands for, in upper or lower case. -/
def flagOf (text : String) : Except Fault Bool :=
  let word := String.ofList (Text.lowerCase text.toList)
  if trueWords.contains word then .ok true
  else if falseWords.contains word then .ok false
  else .error (.notFlag word)

/-- The offset in minutes that the end of a moment tells. -/
def offsetOf (cs : List Char) : Option Int :=
  match cs with
  | [] => none
  | c :: rest =>
    if c = 'Z' then some 0
    else
      let minutes :=
        match fields ':' rest with
        | [hours, minutes] => Number.naturalOf hours * 60 + Number.naturalOf minutes
        | _ => Number.naturalOf rest * 60
      some (if c = '-' then -(minutes : Int) else minutes)

/-- The microseconds that the digits behind the seconds tell. -/
def microsOf (digits : List Char) : Nat :=
  Number.naturalOf ((digits ++ List.replicate 6 '0').take 6)

/-- The moment of a day that a text behind the day tells. -/
def timeOf (year month day : Nat) (cs : List Char) : Except Fault Value :=
  match fields ':' cs with
  | hours :: minutes :: others =>
    let tail := (List.intersperse [':'] others).flatten
    let behind := tail.drop 2
    let (digits, behind) :=
      match behind with
      | '.' :: more => (more.takeWhile Char.isDigit, more.dropWhile Char.isDigit)
      | _ => ([], behind)
    ((Data.Moment.make year month day (Number.naturalOf hours) (Number.naturalOf minutes)
      (Number.naturalOf (tail.take 2)) (microsOf digits)
      (offsetOf (behind.dropWhile isGap))).mapError .calendar).map .moment
  | _ => .error .notMoment

/-- The day or the moment that a text stands for; a line feed at its end does not count. -/
def momentOf (text : String) : Except Fault Value :=
  let cs := withoutLastBreak text.toList
  let inDay := fun c : Char => c.isDigit || c = '-'
  let day := cs.takeWhile inDay
  let behind := cs.dropWhile inDay
  if !(isMoment cs || behind.isEmpty && isDay 1 day) then .error .notMoment
  else
    match (fields '-' day).map Number.naturalOf with
    | [year, month, day] =>
      match behind with
      | [] => ((Data.Date.make year month day).mapError .calendar).map .day
      | c :: rest => timeOf year month day (if isGap c then rest.dropWhile isGap else rest)
    | _ => .error .notMoment

/-- The value of a digit in base sixty-four. -/
def sixtyFourth? (c : Char) : Option Nat :=
  let n := c.toNat
  if c.isUpper then some (n - 65)
  else if c.isLower then some (n - 71)
  else if c.isDigit then some (n + 4)
  else if c = '+' then some 62
  else if c = '/' then some 63
  else none

/-- Decodes digits in base sixty-four, four of which are three bytes. Other characters do not
count. The end may be filled up with equal signs and is reached once they complete four digits.
Given are the place in the four, the bits that are left over, and the equal signs so far. -/
def bytesFrom : Nat → Nat → Nat → List Char → Option (List UInt8)
  | place, _, _, [] => if place = 0 then some [] else none
  | place, left, fill, c :: rest =>
    if c = '=' then
      if 2 ≤ place then (if 4 ≤ place + fill + 1 then some [] else bytesFrom place left (fill + 1) rest)
      else bytesFrom place left fill rest
    else
      match sixtyFourth? c with
      | none => bytesFrom place left fill rest
      | some d =>
        match place with
        | 0 => bytesFrom 1 d 0 rest
        | 1 => (bytesFrom 2 (d % 16) 0 rest).map (UInt8.ofNat (left * 4 + d / 16) :: ·)
        | 2 => (bytesFrom 3 (d % 4) 0 rest).map (UInt8.ofNat (left * 16 + d / 4) :: ·)
        | _ => (bytesFrom 0 0 0 rest).map (UInt8.ofNat (left * 64 + d) :: ·)

/-- The bytes that a text stands for. -/
def bytesOf (text : String) : Except Fault Value :=
  if text.toList.any fun c => 128 ≤ c.toNat then .error .malformed
  else
    match bytesFrom 0 0 0 text.toList with
    | some bytes => .ok (.bytes bytes)
    | none => .error .malformed

/-- The value of a scalar of a kind. Marks have no value of their own. -/
def scalarValue (kind : ScalarKind) (text : String) : Except Fault Value :=
  match kind with
  | .text => .ok (.text text)
  | .null => .ok .null
  | .flag => (flagOf text).map .flag
  | .integer => (integerOf text).map .integer
  | .fraction => (fractionOf text).map .fraction
  | .moment => momentOf text
  | .merge => .error .malformed
  | .default => .error .malformed
  | .mark => .error .malformed

end VariableOrder.Document
