import VariableOrder.Number.Shortest

/-!
# The exact value of a binary number

A finite binary number of 64 bits is a fraction of whole numbers. Comparing it with a whole number,
or asking whether it is one, never rounds.
-/

set_option autoImplicit false

namespace VariableOrder.Number

/-- The sign that the topmost bit stands for. -/
def signOf (bits : Nat) : Int :=
  if Nat.pow 2 63 ≤ bits then -1 else 1

/-- The numerator and the denominator of a finite binary number. -/
def ratioOf (x : Float) : Int × Nat :=
  let bits := x.toBits.toNat
  let b := Binary.ofBits (bits % Nat.pow 2 63)
  let (value, unit) := scaled b.mantissa b.exponent 1 0
  (signOf bits * value, unit)

/-- The whole number that a finite binary number equals, if it equals one. -/
def wholeValue? (x : Float) : Option Int :=
  let (value, unit) := ratioOf x
  if value % unit = 0 then some (value / unit) else none

/-- Whether a whole number is less than a binary number. -/
def isBelow (n : Int) (x : Float) : Bool :=
  if x.isNaN then false
  else if x.isInf then 0.0 < x
  else
    let (value, unit) := ratioOf x
    n * unit < value

/-- Whether a binary number is less than a whole number. -/
def isAbove (n : Int) (x : Float) : Bool :=
  if x.isNaN then false
  else if x.isInf then x < 0.0
  else
    let (value, unit) := ratioOf x
    value < n * unit

end VariableOrder.Number
