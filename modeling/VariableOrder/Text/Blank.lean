/-!
# Blank characters

Two classes of characters are cut off at the ends of a text. The first is the
white space of Unicode; the second adds the four information separators of ASCII,
and is the one that decides whether a variable has a name at all. Cutting never
looks inside the text.
-/

set_option autoImplicit false

namespace VariableOrder.Text

/-- White space is the set of characters with the Unicode property of that name. -/
def isWhiteSpace (c : Char) : Bool :=
  let n := c.toNat
  (9 ≤ n && n ≤ 13) || n == 0x20 || n == 0x85 || n == 0xA0 || n == 0x1680
    || (0x2000 ≤ n && n ≤ 0x200A) || n == 0x2028 || n == 0x2029 || n == 0x202F
    || n == 0x205F || n == 0x3000

/-- Blank characters are white space and the four information separators. -/
def isBlank (c : Char) : Bool :=
  isWhiteSpace c || (0x1C ≤ c.toNat && c.toNat ≤ 0x1F)

/-- Removes the longest run of characters of the class at each end. -/
def trim (cut : Char → Bool) (cs : List Char) : List Char :=
  ((cs.dropWhile cut).reverse.dropWhile cut).reverse

/-- Removes the blanks at both ends. -/
def strip (cs : List Char) : List Char :=
  trim isBlank cs

/-- A text is blank when nothing of it is left without its blanks. -/
def isAllBlank (cs : List Char) : Bool :=
  (strip cs).isEmpty

end VariableOrder.Text
