import VariableOrder.Document.Fault
import VariableOrder.Document.Scalar

/-!
# Reading positions

A cursor stands at a character of a document and knows its line and its column. Everything that
reads a document asks for the characters in front of the cursor and moves it over them.
-/

set_option autoImplicit false

namespace VariableOrder.Document

/-- A position in a document: what follows it, the count of characters before it, and its line
and column. -/
structure Cursor where
  rest : List Char
  index : Nat
  line : Nat
  column : Nat
  deriving DecidableEq, Repr

/-- The character that stands for the end of a document. -/
def endMark : Char := '\x00'

/-- The mark that may start a document and takes no column. -/
def orderMark : Char := '\uFEFF'

/-- The end of the document and of a line. -/
def isLineEnd (c : Char) : Bool :=
  c = endMark || isBreak c

/-- Line ends and spaces. -/
def isBlankEnd (c : Char) : Bool :=
  c = ' ' || isLineEnd c

/-- Line ends, spaces and tabs. -/
def isGapEnd (c : Char) : Bool :=
  c = '\t' || isBlankEnd c

/-- Letters, digits, the dash and the underscore: the characters of names. -/
def isWordChar (c : Char) : Bool :=
  c.isAlphanum || c = '-' || c = '_'

namespace Cursor

/-- The first position of a document. -/
def ofChars (cs : List Char) : Cursor :=
  ⟨cs, 0, 0, 0⟩

/-- The character at some distance from the cursor. -/
def peek (c : Cursor) (distance : Nat) : Char :=
  c.rest.getD distance endMark

/-- The character at the cursor. -/
def head (c : Cursor) : Char :=
  c.rest.headD endMark

/-- The next position. -/
def next (c : Cursor) : Cursor :=
  match c.rest with
  | [] => c
  | ch :: rest =>
    if isBreak ch then ⟨rest, c.index + 1, c.line + 1, 0⟩
    else if ch = orderMark then ⟨rest, c.index + 1, c.line, c.column⟩
    else ⟨rest, c.index + 1, c.line, c.column + 1⟩

/-- The position behind the given count of characters. -/
def forward (c : Cursor) : Nat → Cursor
  | 0 => c
  | count + 1 => c.next.forward count

/-- The longest run of characters of a class at the cursor. -/
def run (c : Cursor) (inClass : Char → Bool) : List Char :=
  c.rest.takeWhile inClass

/-- The position behind the longest run of characters of a class. -/
def skip (c : Cursor) (inClass : Char → Bool) : Cursor :=
  c.forward (c.run inClass).length

/-- The position behind spaces. -/
def skipSpaces (c : Cursor) : Cursor :=
  c.skip (· = ' ')

/-- The position behind a comment, if one starts at the cursor. -/
def skipComment (c : Cursor) : Cursor :=
  if c.head = '#' then c.skip fun ch => !isLineEnd ch else c

/-- The line break at the cursor as it counts in text, if there is one: the two separators of
Unicode stay what they are, any other break is a line feed. -/
def lineBreak? (c : Cursor) : Option Char :=
  let ch := c.head
  if ch = '\n' || ch = '\x85' then some '\n'
  else if ch = '\u2028' || ch = '\u2029' then some ch
  else none

/-- The position behind the line break at the cursor, if there is one. -/
def skipBreak (c : Cursor) : Cursor :=
  if c.lineBreak?.isSome then c.next else c

/-- Whether three equal characters and a gap follow the cursor. -/
def atMark (c : Cursor) (mark : Char) : Bool :=
  c.peek 0 = mark && c.peek 1 = mark && c.peek 2 = mark && isGapEnd (c.peek 3)

/-- Whether the line at the cursor starts or ends a document. -/
def atDocumentMark (c : Cursor) : Bool :=
  c.atMark '-' || c.atMark '.'

/-- The fault of a character at some distance that may not stand there; where the document ends
before, it is cut off. -/
def refuse (c : Cursor) (distance : Nat) : Fault :=
  if (c.rest.drop distance).isEmpty then .cutOff else .malformed

/-- The position behind the rest of a line that may hold a comment but nothing else. -/
def endLine (c : Cursor) : Except Fault Cursor :=
  let behind := c.skipSpaces.skipComment
  if isLineEnd behind.head then .ok behind.skipBreak else .error (behind.refuse 0)

end Cursor

end VariableOrder.Document
