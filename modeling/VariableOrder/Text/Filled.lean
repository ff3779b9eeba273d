/-!
# Filled lines

A text is laid out in lines of a given width. Words go on a line as long as they fit; a word may
be divided behind a hyphen between letters of ASCII, and one that is longer than a whole line is cut
where the line ends, or behind its last hyphen in front of that.
-/

set_option autoImplicit false

namespace VariableOrder.Text

/-- The blanks of ASCII. -/
def isPlainBlank (c : Char) : Bool :=
  c = ' ' || ('\x09' ≤ c && c ≤ '\x0d')

/-- The words of a text, of which one may have begun already. -/
def wordsFrom (run : List Char) : List Char → List (List Char)
  | [] => if run.isEmpty then [] else [run.reverse]
  | c :: rest =>
    if isPlainBlank c then (if run.isEmpty then [] else [run.reverse]) ++ wordsFrom [] rest
    else wordsFrom (c :: run) rest

/-- The characters that count as letters at a hyphen. -/
def isLetter (c : Char) : Bool :=
  c.isAlpha || c = '_'

/-- Whether a word may be divided behind a hyphen, given what is in front of the hyphen, told from
its end, and what is behind it. -/
def isDivision (back rest : List Char) : Bool :=
  let ends :=
    match back with
    | b :: a :: _ =>
      isLetter b && (isLetter a || a = '-' && (back.drop 2).head?.any isLetter)
    | _ => false
  let starts :=
    match rest with
    | c :: d :: more => isLetter c && (isLetter d || d = '-' && more.head?.any isLetter)
    | _ => false
  ends && starts

/-- Divides a word wherever it may be divided; the characters in front are told from their end, with
those that belong to the piece that has begun. -/
def divided (back run : List Char) : List Char → List (List Char)
  | [] => if run.isEmpty then [] else [run.reverse]
  | c :: rest =>
    if c = '-' && isDivision back rest then (c :: run).reverse :: divided (c :: back) [] rest
    else divided (c :: back) (c :: run) rest

/-- The pieces of a text: blanks, and words or parts of words. -/
def pieces (text : String) : List (List Char) :=
  ((wordsFrom [] text.toList).map (divided [] [])).intersperse [[' ']] |>.flatten

/-- The count of characters of a long word that go on a line with the given room. -/
def cutAt (room : Nat) (word : List Char) : Nat :=
  let front := (word.take room).reverse.dropWhile (· != '-')
  if (front.drop 1).any (· != '-') then front.length else room

/-- Puts pieces on a line of the given width as long as they fit, behind those that are on it
already, whose characters are counted; yields the pieces on the line and those that are left
over. -/
def filledLine (width count : Nat) (line : List (List Char)) :
    List (List Char) → List (List Char) × List (List Char)
  | [] => (line, [])
  | piece :: rest =>
    if count + piece.length ≤ width then
      filledLine width (count + piece.length) (line ++ [piece]) rest
    else if piece.length ≤ width then (line, piece :: rest)
    else
      let cut := cutAt (width - count) piece
      (line ++ [piece.take cut], piece.drop cut :: rest)

/-- Lays out pieces in lines, of which there are no more than the given count. A blank at the end of
a line is left out. -/
def filledLines (width : Nat) : Nat → List (List Char) → List (List Char)
  | 0, _ => []
  | count + 1, pieces =>
    match pieces.dropWhile (· = [' ']) with
    | [] => []
    | pieces =>
      let (line, rest) := filledLine width 0 [] pieces
      (if line.getLast? = some [' '] then line.dropLast else line).flatten
        :: filledLines width count rest

/-- The lines of a text. -/
def filled (width : Nat) (text : String) : List String :=
  (filledLines width (text.length + 1) (pieces text)).map String.ofList

end VariableOrder.Text
