import VariableOrder.Number.Shortest

/-!
# The text of a binary number

How a fraction is written in messages and expressions: with the digits of its shortest
decimal, positional while the exponent of the first digit is at least -4 and below 16, and
with an exponent of at least two digits elsewhere. A positional number always shows a point.
-/

set_option autoImplicit false

namespace VariableOrder.Number

/-- The least exponent of a first digit that is written positionally. -/
def leastPositional : Int := -4

/-- The first exponent that is no longer written positionally. -/
def firstExponential : Int := 16

/-- The digits of a number without the zeros at its end; never empty. -/
def significant (n : Nat) : List Char :=
  let digits := ((Nat.toDigits 10 n).reverse.dropWhile (· = '0')).reverse
  if digits.isEmpty then ['0'] else digits

/-- Positional notation of significant digits whose first one has the given exponent. -/
def positional (digits : List Char) (first : Int) : List Char :=
  if first < 0 then
    '0' :: '.' :: (List.replicate (first.natAbs - 1) '0' ++ digits)
  else
    let whole := first.toNat + 1
    let padded := digits ++ List.replicate (whole - digits.length) '0'
    let part := padded.drop whole
    padded.take whole ++ '.' :: (if part.isEmpty then ['0'] else part)

/-- Notation with an exponent; a point stands only before further digits. -/
def exponential (digits : List Char) (first : Int) : List Char :=
  let body :=
    match digits with
    | d :: rest => d :: (if rest.isEmpty then [] else '.' :: rest)
    | [] => []
  let size := Nat.toDigits 10 first.natAbs
  body ++ 'e' :: (if first < 0 then '-' else '+')
    :: (List.replicate (2 - size.length) '0' ++ size)

/-- The text of the positive finite number with the given bits. -/
def magnitudeText (bits : Nat) : List Char :=
  let d := (Binary.ofBits bits).shortest
  let first := d.exponent + (Nat.toDigits 10 d.digits).length - 1
  let digits := significant d.digits
  if leastPositional ≤ first && first < firstExponential then positional digits first
  else exponential digits first

/-- The text of a binary number. -/
def floatText (x : Float) : String :=
  let bits := x.toBits.toNat
  let negative := Nat.pow 2 63 ≤ bits
  let rest := bits % Nat.pow 2 63
  if x.isNaN then "nan"
  else
    let body :=
      if x.isInf then "inf"
      else if rest = 0 then "0.0"
      else String.ofList (magnitudeText rest)
    if negative then "-" ++ body else body

end VariableOrder.Number
