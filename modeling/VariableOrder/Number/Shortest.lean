/-!
# The shortest decimal of a binary number

A binary number of 64 bits stands for an interval of reals: those that round to it. The
shortest decimal is the one with the fewest digits in that interval, and among those the
nearest to the number itself, an even last digit deciding a tie. All comparisons are made
between whole numbers.
-/

set_option autoImplicit false

namespace VariableOrder.Number

/-- A positive decimal `digits * 10 ^ exponent`. -/
structure Decimal where
  digits : Nat
  exponent : Int
  deriving DecidableEq, Repr

/-- A positive binary number `mantissa * 2 ^ exponent`; the flag says that the number below it
lies at half the usual distance. -/
structure Binary where
  mantissa : Nat
  exponent : Int
  atPower : Bool
  deriving DecidableEq, Repr

/-- The parts of the finite positive number with the given bits, the sign left out. -/
def Binary.ofBits (bits : Nat) : Binary :=
  let fraction : Nat := bits % Nat.pow 2 52
  let field : Nat := bits / Nat.pow 2 52 % Nat.pow 2 11
  if field = 0 then ⟨fraction, -1074, false⟩
  else ⟨Nat.pow 2 52 + fraction, (field : Int) - 1075, fraction = 0 && 1 < field⟩

/-- Scales two whole numbers by powers of two and ten, so that `a * 2 ^ p` compares with
`b * 10 ^ e` as the first answer compares with the second. -/
def scaled (a : Nat) (p : Int) (b : Nat) (e : Int) : Nat × Nat :=
  (a * Nat.pow 2 p.toNat * Nat.pow 10 (-e).toNat, b * Nat.pow 10 e.toNat * Nat.pow 2 (-p).toNat)

/-- The exponent of the first digit: the greatest `e` with `10 ^ e` at most the number. The
logarithm gives it up to one, and the comparison settles the rest. -/
def Binary.firstExponent (x : Binary) : Int :=
  let guess := ((Nat.log2 x.mantissa : Int) + x.exponent) * 30103 / 100000
  let fits (e : Int) : Bool :=
    let (value, power) := scaled x.mantissa x.exponent 1 e
    power ≤ value
  if fits (guess + 1) then guess + 1
  else if fits guess then guess
  else guess - 1

/-- Whether `digits * 10 ^ exponent` rounds to the number. Four times the number and its two
midpoints are whole multiples of a quarter of its unit. -/
def Binary.covers (x : Binary) (d : Decimal) : Bool :=
  let low := 4 * x.mantissa - (if x.atPower then 1 else 2)
  let high := 4 * x.mantissa + 2
  let (lowValue, decimalLow) := scaled low (x.exponent - 2) d.digits d.exponent
  let (highValue, decimalHigh) := scaled high (x.exponent - 2) d.digits d.exponent
  if x.mantissa % 2 = 0 then lowValue ≤ decimalLow && decimalHigh ≤ highValue
  else lowValue < decimalLow && decimalHigh < highValue

/-- The two neighbours of the number on the grid of the given count of digits. -/
def Binary.neighbours (x : Binary) (count : Nat) : Decimal × Decimal :=
  let e := x.firstExponent - (count : Int) + 1
  let (value, unit) := scaled x.mantissa x.exponent 1 e
  (⟨value / unit, e⟩, ⟨value / unit + 1, e⟩)

/-- Whether the lower neighbour is nearer, an even last digit deciding a tie. -/
def Binary.prefersLower (x : Binary) (lower : Decimal) : Bool :=
  let (value, unit) := scaled x.mantissa x.exponent 1 lower.exponent
  let rest := 2 * (value % unit)
  rest < unit || (rest = unit && lower.digits % 2 = 0)

/-- The best decimal of the given count of digits, if any rounds to the number. -/
def Binary.onGrid? (x : Binary) (count : Nat) : Option Decimal :=
  let (lower, upper) := x.neighbours count
  let lowerFits := 0 < lower.digits && x.covers lower
  let upperFits := x.covers upper
  if lowerFits && upperFits then some (if x.prefersLower lower then lower else upper)
  else if lowerFits then some lower
  else if upperFits then some upper
  else none

/-- The shortest decimal: seventeen digits always suffice. -/
def Binary.shortest (x : Binary) : Decimal :=
  (((List.range 17).map (· + 1)).findSome? x.onGrid?).getD ⟨x.mantissa, x.exponent⟩

end VariableOrder.Number
