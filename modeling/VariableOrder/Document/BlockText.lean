import VariableOrder.Document.PlainText

/-!
# Reading block text

Block text follows a header and is indented further than what is around it. Its lines are kept as
they are, or are folded like those of plain text where neither of two neighbours starts with a
gap. The header tells what becomes of the line breaks at the end and may tell the indentation.
-/

set_option autoImplicit false

namespace VariableOrder.Document

/-- What becomes of the line breaks at the end: all are kept, none is, or just the first. -/
inductive Chomping where
  | keep
  | strip
  | clip
  deriving DecidableEq, Repr

/-- The sign for what becomes of the line breaks at the end. -/
def Chomping.ofSign? (c : Char) : Option Chomping :=
  if c = '+' then some .keep else if c = '-' then some .strip else none

/-- The indentation that a header tells; none may be told, but it may not be zero. -/
def indentDigit (c : Cursor) : Except Fault (Option Nat × Cursor) :=
  if c.head = '0' then .error (c.refuse 0)
  else if c.head.isDigit then .ok (some (c.head.toNat - 48), c.next)
  else .ok (none, c)

/-- The header of block text, with the indentation that it tells and the position behind it. -/
def blockHeader (c : Cursor) : Except Fault (Chomping × Option Nat × Cursor) := do
  let (chomping, indent, behind) ←
    match Chomping.ofSign? c.head with
    | some chomping => do
      let (indent, behind) ← indentDigit c.next
      pure (chomping, indent, behind)
    | none => do
      let (indent, behind) ← indentDigit c
      match indent, Chomping.ofSign? behind.head with
      | some _, some chomping => pure (chomping, indent, behind.next)
      | _, _ => pure (Chomping.clip, indent, behind)
  if isBlankEnd behind.head then return (chomping, indent, ← behind.endLine)
  else throw (behind.refuse 0)

/-- The empty lines at the start, the greatest column that is reached in them and in front of the
first other line, and the position there. -/
def leadingBreaks : Nat → Cursor → List Char → Nat → List Char × Nat × Cursor
  | 0, c, breaks, column => (breaks.reverse, column, c)
  | fuel + 1, c, breaks, column =>
    if c.head = ' ' then
      leadingBreaks fuel c.skipSpaces breaks (max column c.skipSpaces.column)
    else
      match c.lineBreak? with
      | none => (breaks.reverse, column, c)
      | some b => leadingBreaks fuel c.next (b :: breaks) column

/-- The position behind spaces, but at most at a column. -/
def skipIndent (indent : Nat) (c : Cursor) : Cursor :=
  c.forward (min (c.run (· = ' ')).length (indent - c.column))

/-- The empty lines at a position that are indented at most so far, and the position behind them
and behind the indentation of the line there. -/
def innerBreaks (indent : Nat) : Nat → Cursor → List Char → List Char × Cursor
  | 0, c, breaks => (breaks.reverse, c)
  | fuel + 1, c, breaks =>
    let start := skipIndent indent c
    match start.lineBreak? with
    | none => (breaks.reverse, start)
    | some b => innerBreaks indent fuel start.next (b :: breaks)

/-- Whether a line of the text starts at a position. -/
def atBlockLine (indent : Nat) (c : Cursor) : Bool :=
  c.column = indent && !c.rest.isEmpty

/-- What becomes of the line break at the end and of the empty lines behind it. -/
def chomped (chomping : Chomping) (lineBreak breaks : List Char) : List Char :=
  match chomping with
  | .strip => []
  | .clip => lineBreak
  | .keep => lineBreak ++ breaks

/-- Spaces and tabs. -/
def isLineGap (c : Char) : Bool :=
  c = ' ' || c = '\t'

/-- Reads the lines of the text. The empty lines in front of the position are given, and the
pieces read so far, latest first. -/
def blockLines (folds : Bool) (chomping : Chomping) (indent fuel : Nat) :
    Nat → Cursor → List Char → List (List Char) → List Char × Cursor
  | 0, c, breaks, pieces => (((breaks :: pieces).reverse).flatten, c)
  | lines + 1, c, breaks, pieces =>
    let line := c.run fun ch => !isLineEnd ch
    let lineEnd := c.forward line.length
    let lineBreak := lineEnd.lineBreak?.toList
    let (further, behind) := innerBreaks indent fuel lineEnd.skipBreak []
    let pieces := line :: breaks :: pieces
    if atBlockLine indent behind then
      let joint :=
        if folds && lineBreak = ['\n'] && !isLineGap c.head && !isLineGap behind.head then
          (if further.isEmpty then [' '] else [])
        else lineBreak
      blockLines folds chomping indent fuel lines behind further (joint :: pieces)
    else ((chomped chomping lineBreak further :: pieces).reverse.flatten, behind)

/-- Reads block text whose indicator is at the position, given the least indentation. -/
def blockText (least fuel : Nat) (c : Cursor) : Except Fault (List Char × Cursor) := do
  let folds := c.head = '>'
  let (chomping, told, behind) ← blockHeader c.next
  let (breaks, indent, start) :=
    match told with
    | some n =>
      let indent := least + n - 1
      let (breaks, start) := innerBreaks indent fuel behind []
      (breaks, indent, start)
    | none =>
      let (breaks, column, start) := leadingBreaks fuel behind [] 0
      (breaks, max least column, start)
  if atBlockLine indent start then
    return blockLines folds chomping indent fuel fuel start breaks []
  else return (chomped chomping [] breaks, start)

end VariableOrder.Document
