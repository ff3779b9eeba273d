import VariableOrder.Document.Scalar

/-!
# Writing scalars

A text is written plain if it then reads back as itself, between single quotes if it holds
nothing but printable ASCII and line feeds, and between double quotes with escapes otherwise.
Lines are folded once they are longer than eighty characters: plain and single quoted text at a
single space, double quoted text at a space or next to an escape, with a backslash at the end of
the line. Keys are never folded.
-/

set_option autoImplicit false

namespace VariableOrder.Document

/-- Lines that are longer than this are folded. -/
def lineWidth : Nat := 80

/-- Printable ASCII. -/
def isVisible (c : Char) : Bool :=
  ' ' ≤ c && c ≤ '~'

/-- Characters that start something else than plain text. -/
def isLeadIndicator (c : Char) : Bool :=
  "#,[]\x7b\x7d&*!|>'\"%@\x60".toList.contains c

/-- Whether plain text would be taken for something else because of a colon before a space or
at its end, or of a number sign behind a space. -/
def hasInnerIndicator : List Char → Bool
  | [] => false
  | [c] => c = ':'
  | c :: d :: rest =>
    (c = ':' && d = ' ') || (c = ' ' && d = '#') || hasInnerIndicator (d :: rest)

/-- Whether plain text would be taken for something else because of its first characters. -/
def hasLeadIndicator (cs : List Char) : Bool :=
  match cs with
  | [] => false
  | c :: rest =>
    isLeadIndicator c || ((c = '-' || c = '?') && (rest.isEmpty || rest.head? = some ' '))
      || cs.take 3 = ['-', '-', '-'] || cs.take 3 = ['.', '.', '.']

/-- Whether a text can be written plain. -/
def isPlainText (cs : List Char) : Bool :=
  cs.all isVisible && cs.head? != some ' ' && cs.getLast? != some ' '
    && !hasLeadIndicator cs && !hasInnerIndicator cs && ScalarKind.of cs = .text

/-- Whether a space and a line feed are neighbours. -/
def hasSpaceAtBreak : List Char → Bool
  | c :: d :: rest => (c = ' ' && d = '\n') || (c = '\n' && d = ' ') || hasSpaceAtBreak (d :: rest)
  | _ => false

/-- Whether a text can be written between single quotes. -/
def isSingleText (cs : List Char) : Bool :=
  cs.all (fun c => isVisible c || c = '\n') && !hasSpaceAtBreak cs

/-- The three ways to write a text. -/
inductive ScalarStyle where
  | plain
  | single
  | double
  deriving DecidableEq, Repr

/-- The way in which a text is written. -/
def ScalarStyle.of (cs : List Char) : ScalarStyle :=
  if isPlainText cs then .plain
  else if isSingleText cs then .single
  else .double

/-- A new line with the given indentation. -/
def newLine (indent : Nat) : List Char :=
  '\n' :: List.replicate indent ' '

/-- Whether two neighbours belong to one run: of spaces, of line feeds, or of anything else. -/
def inOneRun (a b : Char) : Bool :=
  (a = ' ') = (b = ' ') && (a = '\n') = (b = '\n')

/-- Doubles every single quote. -/
def doubleQuotes (cs : List Char) : List Char :=
  cs.flatMap fun c => if c = '\'' then ['\'', '\''] else [c]

/-- Writes runs from a column on, each run of other characters in the given way. A single space
between two runs becomes a new line when the line is too long, and line feeds get one more, since
a lone one would read as a space. -/
def foldRuns (written : List Char → List Char) (folds : Bool) (indent : Nat) :
    Bool → Nat → List (List Char) → List Char
  | _, _, [] => []
  | first, column, run :: rest =>
    if run = [' '] && folds && !first && !rest.isEmpty && lineWidth < column then
      newLine indent ++ foldRuns written folds indent false indent rest
    else if run.head? = some '\n' then
      run ++ newLine indent ++ foldRuns written folds indent false indent rest
    else
      written run ++ foldRuns written folds indent false (column + (written run).length) rest

/-- Upper case hexadecimal digits of a number, of the given count. -/
def upperHex : Nat → Nat → List Char
  | 0, _ => []
  | width + 1, n => upperHex width (n / 16) ++ [(Nat.digitChar (n % 16)).toUpper]

/-- The characters whose escape is one letter, each with the letter. -/
def letterEscapes : List (Nat × Char) :=
  [(0, '0'), (7, 'a'), (8, 'b'), (9, 't'), (10, 'n'), (11, 'v'), (12, 'f'), (13, 'r'), (27, 'e'),
    (34, '\"'), (92, '\\'), (0x85, 'N'), (0xA0, '_'), (0x2028, 'L'), (0x2029, 'P')]

/-- The escape of a character, if it has to be escaped between double quotes. -/
def escape? (c : Char) : Option (List Char) :=
  let n := c.toNat
  match letterEscapes.find? fun e => e.1 = n with
  | some (_, letter) => some ['\\', letter]
  | none =>
    if isVisible c then none
    else if n < 0x100 then some ('\\' :: 'x' :: upperHex 2 n)
    else if n < 0x10000 then some ('\\' :: 'u' :: upperHex 4 n)
    else some ('\\' :: 'U' :: upperHex 8 n)

/-- The new line inside double quotes before the given rest; a space at its start is escaped. -/
def doubleBreak (indent : Nat) (rest : List Char) : List Char :=
  '\\' :: newLine indent ++ (if rest.head? = some ' ' then ['\\'] else [])

/-- The column behind such a new line. -/
def columnAfterBreak (indent : Nat) (rest : List Char) : Nat :=
  if rest.head? = some ' ' then indent + 1 else indent

/-- Writes text between double quotes. The column is the one at which the current run of
characters without an escape started, and the run is counted by its length. A line may be folded
behind an escape and before a space or the first character of a run, but not at the ends. -/
def foldDouble (folds : Bool) (indent : Nat) : Bool → Nat → Nat → List Char → List Char
  | _, _, _, [] => []
  | first, column, run, c :: rest =>
    let mayBreak := folds && !first && !rest.isEmpty
    match escape? c with
    | some e =>
      let column := column + run + e.length
      if mayBreak && lineWidth + 1 < column then
        e ++ doubleBreak indent rest
          ++ foldDouble folds indent false (columnAfterBreak indent rest) 0 rest
      else e ++ foldDouble folds indent false column 0 rest
    | none =>
      if mayBreak && (c = ' ' || run = 0) && lineWidth < column + run then
        doubleBreak indent (c :: rest)
          ++ c :: foldDouble folds indent false (columnAfterBreak indent (c :: rest)) 1 rest
      else c :: foldDouble folds indent false column (run + 1) rest

/-- Writes a text from a column on; further lines have the given indentation. -/
def scalarText (folds : Bool) (indent column : Nat) (cs : List Char) : List Char :=
  match ScalarStyle.of cs with
  | .plain => foldRuns id folds indent true column (cs.splitBy inOneRun)
  | .single =>
    '\'' :: foldRuns doubleQuotes folds indent true (column + 1) (cs.splitBy inOneRun) ++ ['\'']
  | .double => '\"' :: foldDouble folds indent true (column + 1) 0 cs ++ ['\"']

end VariableOrder.Document
