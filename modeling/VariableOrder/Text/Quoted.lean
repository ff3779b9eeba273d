import VariableOrder.Text.Printable

/-!
# Quoted text

The written form of a text, or of bytes, inside a message. It stands between single
quotes, or between double quotes when it holds a single quote and no double one. A
backslash and the quote in use are escaped, three control characters have a letter,
and what is not printable is written by its number.
-/

set_option autoImplicit false

namespace VariableOrder.Text

/-- The hexadecimal digits of a number below sixteen, in lower case. -/
def lowerHexDigit (n : Nat) : Char :=
  if n < 10 then Char.ofNat (48 + n) else Char.ofNat (87 + n)

/-- Writes a number with exactly the given count of lower case hexadecimal digits. -/
def lowerHex : Nat → Nat → List Char
  | 0, _ => []
  | width + 1, n => lowerHex width (n / 16) ++ [lowerHexDigit (n % 16)]

/-- The quote that stands around a text: single, unless only double quotes avoid an escape. -/
def quoteFor (cs : List Char) : Char :=
  if cs.contains '\'' && !cs.contains '\"' then '\"' else '\''

/-- The escape of a character by its number, as short as its size allows. -/
def numberEscape (n : Nat) : List Char :=
  if n < 0x100 then '\\' :: 'x' :: lowerHex 2 n
  else if n < 0x10000 then '\\' :: 'u' :: lowerHex 4 n
  else '\\' :: 'U' :: lowerHex 8 n

/-- How one character is written between the given quotes. -/
def quotedChar (quote c : Char) : List Char :=
  if c = '\\' then ['\\', '\\']
  else if c = quote then ['\\', quote]
  else if c = '\n' then ['\\', 'n']
  else if c = '\r' then ['\\', 'r']
  else if c = '\t' then ['\\', 't']
  else if isPrintable c then [c]
  else numberEscape c.toNat

/-- The quoted form of a text. -/
def quoted (s : String) : String :=
  let cs := s.toList
  let quote := quoteFor cs
  String.ofList (quote :: (cs.flatMap (quotedChar quote) ++ [quote]))

/-- How one byte is written between the given quotes: ASCII as itself, all else by number. -/
def quotedByte (quote : Char) (b : UInt8) : List Char :=
  if b < 127 then quotedChar quote (Char.ofNat b.toNat) else numberEscape b.toNat

/-- The quoted form of bytes, marked by a leading letter. -/
def quotedBytes (bytes : List UInt8) : String :=
  let quote := quoteFor (bytes.map fun b => Char.ofNat b.toNat)
  String.ofList ('b' :: quote :: (bytes.flatMap (quotedByte quote) ++ [quote]))

end VariableOrder.Text
