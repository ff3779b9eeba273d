import VariableOrder.Document.Cursor

/-!
# Reading plain text

Text without quotes ends at a colon before a gap, at a comment, at a line that is indented too
little, and inside brackets also at commas, brackets and question marks. It may run over several
lines: a single line break between two words reads as a space, and of several the first is
dropped.
-/

set_option autoImplicit false

namespace VariableOrder.Document

/-- Commas and brackets. -/
def isFlowMark (c : Char) : Bool :=
  c = ',' || c = '[' || c = ']' || c = '{' || c = '}'

/-- Whether a character ends a word of plain text, given the one behind it. -/
def endsPlain (inFlow : Bool) (c behind : Char) : Bool :=
  isGapEnd c || (c = ':' && (isGapEnd behind || (inFlow && isFlowMark behind)))
    || (inFlow && (isFlowMark c || c = '?'))

/-- The word of plain text at the start of some characters. -/
def plainWord (inFlow : Bool) : List Char → List Char
  | [] => []
  | c :: rest =>
    if endsPlain inFlow c (rest.headD endMark) then [] else c :: plainWord inFlow rest

/-- What is between two words: the text it stands for, which is empty when no further word may
follow, the position behind it, and whether a line ended in it. -/
structure PlainGap where
  text : List Char
  behind : Cursor
  endsLine : Bool

/-- The line breaks behind the first one, and the position behind them; none at the start or the
end of a document. -/
def plainBreaks : Nat → Cursor → List Char → Option (List Char) × Cursor
  | 0, c, breaks => (some breaks.reverse, c)
  | fuel + 1, c, breaks =>
    if c.head = ' ' then plainBreaks fuel c.skipSpaces breaks
    else
      match c.lineBreak? with
      | none => (some breaks.reverse, c)
      | some b =>
        if c.next.atDocumentMark then (none, c.next)
        else plainBreaks fuel c.next (b :: breaks)

/-- The text that line breaks stand for. -/
def foldedBreaks (first : Char) (others : List Char) : List Char :=
  if first != '\n' then first :: others
  else if others.isEmpty then [' ']
  else others

/-- What follows a word. -/
def plainGap (fuel : Nat) (c : Cursor) : PlainGap :=
  let spaces := c.run (· = ' ')
  let behind := c.skipSpaces
  match behind.lineBreak? with
  | none => ⟨spaces, behind, false⟩
  | some b =>
    if behind.next.atDocumentMark then ⟨[], behind.next, true⟩
    else
      match plainBreaks fuel behind.next [] with
      | (none, behind) => ⟨[], behind, true⟩
      | (some others, behind) => ⟨foldedBreaks b others, behind, true⟩

/-- Plain text with the position behind it, and whether it was left at the end of a line. -/
structure PlainText where
  text : List Char
  behind : Cursor
  endsLine : Bool

/-- Reads plain text word by word. The pieces read so far are given latest first; outside brackets
a line has to be indented at least as far as told. -/
def plainFrom (inFlow : Bool) (indent : Nat) (fuel : Nat) :
    Nat → PlainGap → List (List Char) → PlainText
  | 0, gap, pieces => ⟨pieces.reverse.flatten, gap.behind, gap.endsLine⟩
  | words + 1, gap, pieces =>
    let word := plainWord inFlow gap.behind.rest
    if gap.behind.head = '#' || word.isEmpty then
      ⟨pieces.reverse.flatten, gap.behind, gap.endsLine⟩
    else
      let further := plainGap fuel (gap.behind.forward word.length)
      let pieces := word :: gap.text :: pieces
      if further.text.isEmpty || further.behind.head = '#'
          || (!inFlow && further.behind.column < indent) then
        ⟨pieces.reverse.flatten, further.behind, further.endsLine⟩
      else plainFrom inFlow indent fuel words further pieces

/-- Reads plain text at a position. -/
def plainText (inFlow : Bool) (indent : Nat) (fuel : Nat) (c : Cursor) : PlainText :=
  plainFrom inFlow indent fuel fuel ⟨[], c, false⟩ []

end VariableOrder.Document
