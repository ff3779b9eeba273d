import VariableOrder.Number.Integer

/-!
# Decimal fractions

Reading a decimal fraction to the nearest binary number of 64 bits. The written value is
kept as a whole number times a power of ten until the one rounding at the end. Decimal digits of
every script are digits.
-/

set_option autoImplicit false

namespace VariableOrder.Number

/-- The binary number nearest to `digits * 10 ^ exponent`. Beyond the range of binary numbers
the answer is zero or infinity, and is given without building the power. -/
def nearest (digits : Nat) (exponent : Int) : Float :=
  let size := (Nat.toDigits 10 digits).length
  if digits = 0 || size + exponent < -400 then 0.0
  else if 400 < size + exponent then 1.0 / 0.0
  else if exponent < 0 then Float.ofScientific digits true exponent.natAbs
  else Float.ofScientific digits false exponent.natAbs

/-- Splits the longest run of ASCII digits off. -/
def spanDigits (cs : List Char) : List Char × List Char :=
  cs.span Char.isDigit

/-- The value of ASCII digits. -/
def naturalOf (digits : List Char) : Nat :=
  digits.foldl (fun n c => n * 10 + (c.toNat - 48)) 0

/-- Reads the exponent that may end a decimal fraction: nothing, or a mark, an optional sign
and digits. -/
def exponent? : List Char → Option Int
  | [] => some 0
  | mark :: rest =>
    if mark = 'e' || mark = 'E' then
      let (negative, digits) := splitSign rest
      if digits.isEmpty || !digits.all Char.isDigit then none
      else some (signed negative (naturalOf digits))
    else none

/-- Reads a decimal fraction without a sign: digits, an optional point with more digits, and
an optional exponent. At least one digit has to stand before the exponent. -/
def unsigned? (cs : List Char) : Option Float :=
  let (whole, rest) := spanDigits cs
  let (part, rest) :=
    match rest with
    | '.' :: more => spanDigits more
    | _ => ([], rest)
  if whole.isEmpty && part.isEmpty then none
  else (exponent? rest).map fun e => nearest (naturalOf (whole ++ part)) (e - part.length)

/-- A character with the ASCII digit of its value if it is a decimal digit of another script. -/
def asciiDigit (c : Char) : Char :=
  match decimalDigit? c with
  | some d => Char.ofNat (48 + d)
  | none => c

/-- Reads a number that may be signed, infinite or no number at all, with white space around it. -/
def fraction? (cs : List Char) : Option Float :=
  let (negative, body) := splitSign ((Text.trim Text.isWhiteSpace cs).map asciiDigit)
  let word := String.ofList (body.map Char.toLower)
  let magnitude :=
    if word = "inf" || word = "infinity" then some (1.0 / 0.0)
    else if word = "nan" then some (0.0 / 0.0)
    else unsigned? body
  magnitude.map fun x => if negative then -x else x

end VariableOrder.Number
