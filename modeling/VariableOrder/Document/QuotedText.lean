import VariableOrder.Document.PlainText
import VariableOrder.Number.Integer

/-!
# Reading quoted text

Between single quotes only the quote itself is special and is written twice. Between double
quotes a backslash starts an escape: a letter, a number of hexadecimal digits, or the end of a
line, which then leaves no trace. Lines are joined as in plain text.

An escape by number may name one half of a surrogate pair, which is no character. All halves are
read as the replacement character, so texts that differ in such halves only come out alike here, and
two names of that kind are one.
-/

set_option autoImplicit false

namespace VariableOrder.Document

/-- The characters that an escape of one letter stands for. -/
def escapedChars : List (Char × Char) :=
  [('0', '\x00'), ('a', '\x07'), ('b', '\x08'), ('t', '\t'), ('\t', '\t'), ('n', '\n'),
    ('v', '\x0B'), ('f', '\x0C'), ('r', '\r'), ('e', '\x1B'), (' ', ' '), ('\"', '\"'),
    ('\\', '\\'), ('/', '/'), ('N', '\x85'), ('_', '\xA0'), ('L', '\u2028'), ('P', '\u2029')]

/-- The count of digits of an escape by number. -/
def escapeDigits : Char → Option Nat
  | 'x' => some 2
  | 'u' => some 4
  | 'U' => some 8
  | _ => none

/-- Hexadecimal digits. -/
def isHexDigit (c : Char) : Bool :=
  c.isDigit || ('a' ≤ c && c ≤ 'f') || ('A' ≤ c && c ≤ 'F')

/-- The value of hexadecimal digits. -/
def hexValue (digits : List Char) : Nat :=
  digits.foldl (fun n c => n * 16 + (Number.digit? 16 c).getD 0) 0

/-- The character with a number. -/
def charOfCode (n : Nat) : Except Fault Char :=
  if 0x80000000 ≤ n then .error .codePointSize
  else if 0x110000 ≤ n then .error .codePoint
  else if 0xD800 ≤ n && n < 0xE000 then .ok '\uFFFD'
  else .ok (Char.ofNat n)

/-- The line breaks at a position, with spaces and tabs around them. -/
def quotedBreaks : Nat → Cursor → List Char → Except Fault (List Char × Cursor)
  | 0, c, breaks => .ok (breaks.reverse, c)
  | fuel + 1, c, breaks =>
    if c.atDocumentMark then .error .malformed
    else
      let behind := c.skip fun ch => ch = ' ' || ch = '\t'
      match behind.lineBreak? with
      | none => .ok (breaks.reverse, behind)
      | some b => quotedBreaks fuel behind.next (b :: breaks)

/-- The spaces and line breaks at a position. -/
def quotedGap (fuel : Nat) (c : Cursor) : Except Fault (List Char × Cursor) :=
  let isSpace := fun ch => ch = ' ' || ch = '\t'
  let behind := c.skip isSpace
  match behind.lineBreak? with
  | none => .ok (c.run isSpace, behind)
  | some b => do
    let (others, behind) ← quotedBreaks fuel behind.next []
    return (foldedBreaks b others, behind)

/-- What an escape stands for, read behind its backslash. -/
def escape (fuel : Nat) (c : Cursor) : Except Fault (List Char × Cursor) :=
  match escapedChars.find? fun e => e.1 = c.head with
  | some (_, ch) => .ok ([ch], c.next)
  | none =>
    match escapeDigits c.head with
    | some count =>
      let digits := (c.next.rest.take count).takeWhile isHexDigit
      if digits.length = count then do
        let ch ← charOfCode (hexValue digits)
        return ([ch], c.next.forward count)
      else .error (c.next.refuse digits.length)
    | none =>
      if c.lineBreak?.isSome then quotedBreaks fuel c.next [] else .error (c.refuse 0)

/-- Reads quoted text to its end; the pieces read so far are given latest first. -/
def quotedFrom (quote : Char) (fuel : Nat) :
    Nat → Cursor → List (List Char) → Except Fault (List Char × Cursor)
  | 0, _, _ => .error .malformed
  | steps + 1, c, pieces =>
    match c.rest with
    | [] => .error .cutOff
    | ch :: rest =>
      if ch = quote then
        if quote = '\'' && rest.head? = some quote then
          quotedFrom quote fuel steps (c.forward 2) ([quote] :: pieces)
        else .ok (pieces.reverse.flatten, c.next)
      else if quote = '\"' && ch = '\\' then do
        let (piece, behind) ← escape fuel c.next
        quotedFrom quote fuel steps behind (piece :: pieces)
      else if isGapEnd ch then do
        let (piece, behind) ← quotedGap fuel c
        quotedFrom quote fuel steps behind (piece :: pieces)
      else quotedFrom quote fuel steps c.next ([ch] :: pieces)

/-- Reads quoted text whose first quote is at the position. -/
def quotedText (fuel : Nat) (c : Cursor) : Except Fault (List Char × Cursor) :=
  quotedFrom c.head fuel fuel c.next []

end VariableOrder.Document
