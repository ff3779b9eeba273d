import VariableOrder.Document.BlockText
import VariableOrder.Document.QuotedText
import VariableOrder.Document.SourceText
import VariableOrder.Document.TagText

/-!
# Cutting a document into tokens

Indentation opens and closes collections. A key may stand in front of its colon without any mark,
so each place where a key may start is remembered until the colon is found, and the token for the
key is then put in behind; such a key has to lie on one line and to be short. Inside brackets
indentation does not count. Tokens are read only as far as it takes to be certain of the next one,
so of two faults the one that is met first is told.
-/

set_option autoImplicit false

namespace VariableOrder.Document

/-- A place where an unmarked key may start: the number of the token there, its position, and
whether nothing but a key can stand there. -/
structure KeyPlace where
  number : Nat
  required : Bool
  index : Nat
  line : Nat
  column : Nat
  deriving DecidableEq, Repr

/-- How far the cutting has come: the position, the tokens that are read but not taken, the count
of those taken, the depth of brackets, the indentations of the open collections, whether an unmarked
key may start, the place of such a key for each depth, and whether the end is reached. The size is
that of the document, and the tear is the fault that is met behind its last character, if any. -/
structure Lexer where
  cursor : Cursor
  tokens : List Token
  taken : Nat
  depth : Nat
  indent : Int
  outer : List Int
  allowsKey : Bool
  places : List (Nat × KeyPlace)
  isDone : Bool
  size : Nat
  tear : Option Fault

namespace Lexer

/-- Unmarked keys are at most this long. -/
def longestKey : Nat := 1024

/-- The start of a document. -/
def ofText (t : SourceText) : Lexer :=
  { cursor := .ofChars t.chars, tokens := [], taken := 0, depth := 0, indent := -1, outer := []
    allowsKey := true, places := [], isDone := false, size := t.chars.length + 2, tear := t.tear }

/-- The number of the next token that will be read. -/
def count (l : Lexer) : Nat :=
  l.taken + l.tokens.length

/-- Adds a token. -/
def push (l : Lexer) (t : Token) : Lexer :=
  { l with tokens := l.tokens ++ [t] }

/-- Adds a token and moves on. -/
def pushAt (l : Lexer) (t : Token) (c : Cursor) : Lexer :=
  { l.push t with cursor := c }

/-- Puts a token in front of the one with a number. -/
def insert (l : Lexer) (t : Token) (number : Nat) : Lexer :=
  let before := number - l.taken
  { l with tokens := l.tokens.take before ++ t :: l.tokens.drop before }

/-- Says whether an unmarked key may start. -/
def allow (l : Lexer) (allows : Bool) : Lexer :=
  { l with allowsKey := allows }

/-- The place of an unmarked key at the current depth. -/
def place? (l : Lexer) : Option KeyPlace :=
  (l.places.find? fun p => p.1 = l.depth).map (·.2)

/-- Forgets the place at the current depth; one where a key is required may not be forgotten. -/
def forgetPlace (l : Lexer) : Except Fault Lexer :=
  match l.place? with
  | none => .ok l
  | some place =>
    if place.required then .error .malformed
    else .ok { l with places := l.places.filter fun p => p.1 != l.depth }

/-- Whether a place can no longer be that of a key. -/
def isStale (l : Lexer) (place : KeyPlace) : Bool :=
  place.line != l.cursor.line || longestKey < l.cursor.index - place.index

/-- Forgets all places that can no longer be those of keys. -/
def forgetStale (l : Lexer) : Except Fault Lexer :=
  if l.places.any fun p => l.isStale p.2 && p.2.required then .error .malformed
  else .ok { l with places := l.places.filter fun p => !l.isStale p.2 }

/-- Remembers the position as that of an unmarked key, where one may start. -/
def markPlace (l : Lexer) : Except Fault Lexer :=
  if l.allowsKey then do
    let l ← l.forgetPlace
    let required := l.depth = 0 && l.indent = l.cursor.column
    return { l with places := (l.depth, ⟨l.count, required, l.cursor.index, l.cursor.line,
      l.cursor.column⟩) :: l.places }
  else .ok l

/-- Closes collections, given the indentations around them, until one is not indented further than
a column. -/
def closeTo (column : Int) : List Int → Int → Lexer → Lexer
  | [], indent, l => { l with indent := indent, outer := [] }
  | outer :: others, indent, l =>
    if column < indent then closeTo column others outer (l.push .blockEnd)
    else { l with indent := indent, outer := outer :: others }

/-- Closes the collections that are indented further than a column; inside brackets none is. -/
def unwind (l : Lexer) (column : Int) : Lexer :=
  if l.depth = 0 then closeTo column l.outer l.indent l else l

/-- Opens a collection at a column, unless one is open there. -/
def openAt (l : Lexer) (column : Nat) : Option Lexer :=
  if l.indent < column then some { l with indent := column, outer := l.indent :: l.outer } else none

/-- Moves over spaces, comments and line ends. -/
def skipBlank : Nat → Lexer → Lexer
  | 0, l => l
  | fuel + 1, l =>
    let behind := l.cursor.skipSpaces.skipComment
    if behind.lineBreak?.isSome then
      skipBlank fuel { l with cursor := behind.next, allowsKey := l.allowsKey || l.depth = 0 }
    else { l with cursor := behind }

/-- Moves to the next token. -/
def toNext (l : Lexer) : Lexer :=
  if l.cursor.index = 0 && l.cursor.head = orderMark then
    skipBlank l.size { l with cursor := l.cursor.next }
  else skipBlank l.size l

/-- The end of the document. -/
def streamEnd (l : Lexer) : Except Fault Lexer := do
  let l ← (l.unwind (-1)).forgetPlace
  return { l.push .streamEnd with isDone := true }

/-- A directive. -/
def directive (l : Lexer) : Except Fault Lexer := do
  let l ← (l.unwind (-1)).forgetPlace
  let (token, behind) ← directiveToken l.size l.cursor
  return (l.allow false).pushAt token behind

/-- A line that starts or ends a document. -/
def documentMark (l : Lexer) (t : Token) : Except Fault Lexer := do
  let l ← (l.unwind (-1)).forgetPlace
  return (l.allow false).pushAt t (l.cursor.forward 3)

/-- An opening bracket. -/
def openBracket (l : Lexer) (t : Token) : Except Fault Lexer := do
  let l ← l.markPlace
  return { (l.allow true).pushAt t l.cursor.next with depth := l.depth + 1 }

/-- A closing bracket. -/
def closeBracket (l : Lexer) (t : Token) : Except Fault Lexer := do
  let l ← l.forgetPlace
  if l.depth = 0 then throw .malformed
  return { (l.allow false).pushAt t l.cursor.next with depth := l.depth - 1 }

/-- A comma between brackets. -/
def separator (l : Lexer) : Except Fault Lexer := do
  let l ← l.forgetPlace
  return (l.allow true).pushAt .separator l.cursor.next

/-- Opens a collection at the column of the position, where a key could start as well. -/
def openHere (l : Lexer) (start : Token) : Except Fault Lexer :=
  if l.depth = 0 then
    if l.allowsKey then .ok (((l.openAt l.cursor.column).map (·.push start)).getD l)
    else .error .malformed
  else .ok l

/-- The dash of an item. -/
def entry (l : Lexer) : Except Fault Lexer := do
  let l ← (← l.openHere .listStart).forgetPlace
  return (l.allow true).pushAt .entry l.cursor.next

/-- The question mark of a key. -/
def key (l : Lexer) : Except Fault Lexer := do
  let l ← (← l.openHere .recordStart).forgetPlace
  return (l.allow (l.depth = 0)).pushAt .key l.cursor.next

/-- The colon behind a key that has no mark. -/
def valueOfPlace (l : Lexer) (place : KeyPlace) : Lexer :=
  let l := { l with places := l.places.filter fun p => p.1 != l.depth }.insert .key place.number
  let l :=
    if l.depth = 0 then ((l.openAt place.column).map (·.insert .recordStart place.number)).getD l
    else l
  (l.allow false).pushAt .value l.cursor.next

/-- The colon of a value. -/
def value (l : Lexer) : Except Fault Lexer :=
  match l.place? with
  | some place => .ok (l.valueOfPlace place)
  | none => do
    let l ← (← l.openHere .recordStart).forgetPlace
    return (l.allow (l.depth = 0)).pushAt .value l.cursor.next

/-- A token that may be the start of an unmarked key. -/
def inKey (l : Lexer) (read : Cursor → Except Fault (Token × Cursor)) : Except Fault Lexer := do
  let l ← l.markPlace
  let (token, behind) ← read l.cursor
  return (l.allow false).pushAt token behind

/-- A scalar in block text. -/
def block (l : Lexer) : Except Fault Lexer := do
  let l ← l.forgetPlace
  let (text, behind) ← blockText (max (l.indent + 1) 1).toNat l.size l.cursor
  return (l.allow true).pushAt (.scalar (String.ofList text) false) behind

/-- A quoted scalar. -/
def quoted (fuel : Nat) (c : Cursor) : Except Fault (Token × Cursor) := do
  let (text, behind) ← quotedText fuel c
  return (.scalar (String.ofList text) false, behind)

/-- A scalar without quotes. -/
def plain (l : Lexer) : Except Fault Lexer := do
  let l ← l.markPlace
  let read := plainText (l.depth != 0) (l.indent + 1).toNat l.size l.cursor
  return (l.allow read.endsLine).pushAt (.scalar (String.ofList read.text) true) read.behind

/-- Whether an indicator counts as such: before a gap, or anywhere between brackets. -/
def isIndicator (l : Lexer) (c : Char) : Bool :=
  l.cursor.head = c && (l.depth != 0 || isGapEnd (l.cursor.peek 1))

/-- Whether a scalar without quotes starts at the position. -/
def startsPlain (l : Lexer) : Bool :=
  let c := l.cursor.head
  let next := l.cursor.peek 1
  !(isGapEnd c || "-?:,[]\x7b\x7d#&*!|>'\"%@\x60".toList.contains c)
    || (!isGapEnd next && (c = '-' || (l.depth = 0 && (c = '?' || c = ':'))))

/-- The token of an indicator at the position, if there is one. -/
def ofIndicator? (l : Lexer) : Option (Except Fault Lexer) :=
  match l.cursor.head with
  | '[' => some (l.openBracket .flowListStart)
  | '{' => some (l.openBracket .flowRecordStart)
  | ']' => some (l.closeBracket .flowListEnd)
  | '}' => some (l.closeBracket .flowRecordEnd)
  | ',' => some l.separator
  | '*' => some (l.inKey fun c => (markName c).map fun (name, behind) => (.alias name, behind))
  | '&' => some (l.inKey fun c => (markName c).map fun (name, behind) => (.anchor name, behind))
  | '!' => some (l.inKey (tagToken l.size))
  | '\'' => some (l.inKey (quoted l.size))
  | '\"' => some (l.inKey (quoted l.size))
  | '|' => if l.depth = 0 then some l.block else none
  | '>' => if l.depth = 0 then some l.block else none
  | _ => none

/-- Reads the token at the position. -/
def readToken (l : Lexer) : Except Fault Lexer :=
  let c := l.cursor
  if c.column = 0 && c.head = '%' then l.directive
  else if c.column = 0 && c.atMark '-' then l.documentMark .documentStart
  else if c.column = 0 && c.atMark '.' then l.documentMark .documentEnd
  else if c.head = '-' && isGapEnd (c.peek 1) then l.entry
  else if l.isIndicator '?' then l.key
  else if l.isIndicator ':' then l.value
  else
    match l.ofIndicator? with
    | some read => read
    | none => if l.startsPlain then l.plain else .error .malformed

/-- The fault that takes the place of an end that is met too early. -/
def torn (l : Lexer) (f : Fault) : Fault :=
  if f = .cutOff then l.tear.getD .malformed else f

/-- The fault of having read up to a tear. -/
def checkTear (l : Lexer) : Except Fault Unit :=
  match l.tear with
  | some f => if l.cursor.rest.isEmpty then .error f else .ok ()
  | none => .ok ()

/-- Reads further tokens. -/
def fetch (l : Lexer) : Except Fault Lexer := do
  let l := l.toNext
  l.checkTear
  let l ← l.forgetStale
  let l := l.unwind l.cursor.column
  if l.cursor.rest.isEmpty then l.streamEnd
  else
    let l ← l.readToken.mapError l.torn
    l.checkTear
    return l

/-- Forgets places that can no longer be those of keys, and says whether the next token is not
certain: it is not read yet, or may still turn out to be that of a key. -/
def isOpen (l : Lexer) : Except Fault (Lexer × Bool) :=
  if l.isDone then .ok (l, false)
  else if l.tokens.isEmpty then .ok (l, true)
  else l.forgetStale.map fun l => (l, l.places.any fun p => p.2.number = l.taken)

/-- Reads tokens until the next one is certain. -/
def settle : Nat → Lexer → Except Fault Lexer
  | 0, _ => .error .malformed
  | fuel + 1, l => do
    let (l, more) ← l.isOpen
    if more then settle fuel (← l.fetch) else return l

/-- Takes the next token. -/
def take (l : Lexer) : Lexer :=
  { l with tokens := l.tokens.drop 1, taken := l.taken + 1 }

end Lexer

end VariableOrder.Document
