import VariableOrder.Text.Blank

/-!
# Reading whole numbers

A whole number is written with an optional sign and digits, and single underscores may
stand between two digits. White space around it does not count. Decimal digits of every script
are digits. Numbers of more than 4300 decimal digits are not read.
-/

set_option autoImplicit false

namespace VariableOrder.Number

/-- The code points of the digit zero in the scripts beyond ASCII; the digits one to nine
follow each of them. -/
def decimalZeros : List Nat := [
   0x660, 0x6F0, 0x7C0, 0x966, 0x9E6, 0xA66, 0xAE6, 0xB66, 0xBE6, 0xC66, 0xCE6, 0xD66, 0xDE6,
   0xE50, 0xED0, 0xF20, 0x1040, 0x1090, 0x17E0, 0x1810, 0x1946, 0x19D0, 0x1A80, 0x1A90, 0x1B50,
   0x1BB0, 0x1C40, 0x1C50, 0xA620, 0xA8D0, 0xA900, 0xA9D0, 0xA9F0, 0xAA50, 0xABF0, 0xFF10,
   0x104A0, 0x10D30, 0x11066, 0x110F0, 0x11136, 0x111D0, 0x112F0, 0x11450, 0x114D0, 0x11650,
   0x116C0, 0x11730, 0x118E0, 0x11950, 0x11C50, 0x11D50, 0x11DA0, 0x16A60, 0x16AC0, 0x16B50,
   0x1D7CE, 0x1D7D8, 0x1D7E2, 0x1D7EC, 0x1D7F6, 0x1E140, 0x1E2F0, 0x1E950, 0x1FBF0]

/-- The value of a decimal digit of any script. -/
def decimalDigit? (c : Char) : Option Nat :=
  let n := c.toNat
  if n < 128 then (if c.isDigit then some (n - 48) else none)
  else (decimalZeros.find? fun start => start ≤ n && n < start + 10).map fun start => n - start

/-- The value of a digit of the given base; letters stand for ten and above. -/
def digit? (base : Nat) (c : Char) : Option Nat :=
  let value :=
    match decimalDigit? c with
    | some d => some d
    | none =>
      if c.isLower then some (c.toNat - 87)
      else if c.isUpper then some (c.toNat - 55)
      else none
  value.filter (· < base)

/-- Reads digits to the end, with single underscores between them. The flag says whether the
character before was a digit. -/
def digitsFrom (base : Nat) : Bool → Nat → List Char → Option Nat
  | afterDigit, value, [] => if afterDigit then some value else none
  | afterDigit, value, c :: rest =>
    if c = '_' then (if afterDigit then digitsFrom base false value rest else none)
    else
      match digit? base c with
      | some d => digitsFrom base true (value * base + d) rest
      | none => none

/-- The greatest count of decimal digits of a number that is read. -/
def longestNumber : Nat := 4300

/-- Splits a leading sign off; true means negative. -/
def splitSign : List Char → Bool × List Char
  | '-' :: rest => (true, rest)
  | '+' :: rest => (false, rest)
  | cs => (false, cs)

/-- A magnitude with its sign. -/
def signed (negative : Bool) (n : Nat) : Int :=
  if negative then -(n : Int) else n

/-- Reads a whole number of the given base. -/
def integer? (base : Nat) (cs : List Char) : Option Int :=
  let (negative, digits) := splitSign (Text.trim Text.isWhiteSpace cs)
  if base = 10 && longestNumber < (digits.filter (· != '_')).length then none
  else (digitsFrom base false 0 digits).map (signed negative)

end VariableOrder.Number
