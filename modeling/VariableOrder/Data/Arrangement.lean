import VariableOrder.Data.Value

/-!
# The order of a set

A set of numbers is told in the order in which they stand in a table. A number has a residue, and
its place is the one that the residue names, or else the first free one on a path that the residue
lays out; so numbers of equal value stand at the same place, whatever their kind. The members are
entered twice: in the order in which they came into a table that is wide enough for all of them, and
from there into one that grows as it fills.

A set with any other member is told in the order in which its members came. That is a choice made
here: the place of a text in such a table follows a residue that is drawn anew for every run of the
program, so no order of texts can be told from the data alone. What is proved of sets is proved
for their members in whatever order they stand.
-/

set_option autoImplicit false

namespace VariableOrder.Data

namespace Arrangement

/-- Residues are taken by this prime number. -/
def modulus : Nat := Nat.pow 2 61 - 1

/-- The residue of a fraction whose denominator is a power of two: halving is multiplying by two
sixty times. -/
def residueOf (value : Int) (denominator : Nat) : Int :=
  let halvings := denominator.log2 % 61
  let size := value.natAbs * Nat.pow 2 ((61 - halvings) % 61) % modulus
  let residue := if value < 0 then -(size : Int) else size
  if residue = -1 then -2 else residue

/-- The residue that stands for the infinite numbers, but for its sign. -/
def endlessResidue : Int := 314159

/-- The residue of a number. What is no number has none, nor has a number that equals nothing. -/
def residue? : Value → Option Int
  | .flag b => some (if b then 1 else 0)
  | .integer n => some (residueOf n 1)
  | .fraction x =>
    if x.isNaN then none
    else if x.isInf then some (if x < 0.0 then -endlessResidue else endlessResidue)
    else
      let (value, unit) := Number.ratioOf x
      some (residueOf value unit)
  | _ => none

/-- A table of members, each with its residue. -/
abbrev Table := Array (Option (Int × Value))

/-- The width of the smallest table. -/
def leastWidth : Nat := 8

/-- A table without members that is wider than the given number. -/
def widerThan (n : Nat) : Table :=
  .replicate (max leastWidth (Nat.pow 2 (n.log2 + 1))) none

/-- The count of places next to a place that are tried as well, as long as the table holds all of
them. -/
def neighbours : Nat := 9

/-- The first free place on the path of a residue: from a place, with a trace that is what is left
of the residue. -/
def freePlace (t : Table) : Nat → Nat → Nat → Nat
  | 0, place, _ => place
  | fuel + 1, place, trace =>
    let count := if place + neighbours < t.size then neighbours + 1 else 1
    match (List.range' place count).find? fun p => (t.getD p none).isNone with
    | some p => p
    | none =>
      let trace := trace / 32
      freePlace t fuel ((place * 5 + 1 + trace) % t.size) trace

/-- Enters a member. A trace has sixty-four binary digits and vanishes after thirteen steps; from
there the path leads to every place. -/
def enter (t : Table) (m : Int × Value) : Table :=
  let place := (m.1 % (t.size : Int)).toNat
  let trace := (m.1 % Nat.pow 2 64).toNat
  t.setIfInBounds (freePlace t (t.size + 14) place trace) (some m)

/-- The members of a table in order. -/
def members (t : Table) : List (Int × Value) :=
  t.toList.filterMap id

/-- Enters a member, and moves all of them to a wider table once three fifths of the places are
taken. -/
def enterGrowing (t : Table) (m : Int × Value) : Table :=
  let t := enter t m
  let all := members t
  if all.length * 5 < (t.size - 1) * 3 then t
  else
    let factor := if 50000 < all.length then 2 else 4
    all.foldl enter (widerThan (all.length * factor))

/-- A table that holds some members without growing. -/
def tableFor (count : Nat) : Table :=
  if count * 5 < (leastWidth - 1) * 3 then widerThan 0 else widerThan (count * 2)

/-- Numbers in the order of their places. -/
def ofNumbers (ms : List (Int × Value)) : List Value :=
  let first := members (ms.foldl enter (tableFor ms.length))
  (members (first.foldl enterGrowing (widerThan 0))).map (·.2)

end Arrangement

/-- The members of a set in the order in which it is told. -/
def arranged (members : List Value) : List Value :=
  match members.mapM fun v => (Arrangement.residue? v).map fun r => (r, v) with
  | some numbers => Arrangement.ofNumbers numbers
  | none => members

end VariableOrder.Data
