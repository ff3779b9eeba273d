/-!
# Kinds of plain scalars

A scalar that is written without quotes is text, unless its spelling is that of a null, a truth
value, a number, a day or moment, or one of a few marks. Numbers may be written in base two,
eight, ten or sixteen, with underscores among their digits, or in base sixty with colons between
the digits. The printer asks the same question, to put quotes around text that would be read as
something else.
-/

set_option autoImplicit false

namespace VariableOrder.Document

/-- Characters that end a line. -/
def isBreak (c : Char) : Bool :=
  c = '\n' || c = '\x85' || c = '\u2028' || c = '\u2029'

/-- The kinds of plain scalars. -/
inductive ScalarKind where
  | text
  | null
  | flag
  | integer
  | fraction
  | moment
  | merge
  | default
  | mark
  deriving DecidableEq, Repr

/-- Whether a kind is that of a mark, which has no value of its own. -/
def ScalarKind.isMark : ScalarKind → Bool
  | .merge | .default | .mark => true
  | _ => false

/-- The spellings of the truth values, true ones first. -/
def trueWords : List String :=
  ["yes", "Yes", "YES", "true", "True", "TRUE", "on", "On", "ON"]

/-- The spellings of the false truth value. -/
def falseWords : List String :=
  ["no", "No", "NO", "false", "False", "FALSE", "off", "Off", "OFF"]

/-- The spellings of null. -/
def nullWords : List String :=
  ["", "~", "null", "Null", "NULL"]

/-- Cuts a text at every separator. -/
def fields (separator : Char) : List Char → List (List Char)
  | [] => [[]]
  | c :: rest =>
    if c = separator then [] :: fields separator rest
    else
      match fields separator rest with
      | first :: others => (c :: first) :: others
      | [] => [[c]]

/-- Drops a leading sign. -/
def withoutSign : List Char → List Char
  | '+' :: rest => rest
  | '-' :: rest => rest
  | cs => cs

/-- Digits and underscores. -/
def isSpacedDigit (c : Char) : Bool :=
  c.isDigit || c = '_'

/-- A digit with digits and underscores behind it. -/
def isSpacedNumber : List Char → Bool
  | [] => false
  | c :: rest => c.isDigit && rest.all isSpacedDigit

/-- A digit of a number in base sixty behind a colon: one decimal digit, or two below sixty. -/
def isSixtieth : List Char → Bool
  | [d] => d.isDigit
  | [t, d] => '0' ≤ t && t ≤ '5' && d.isDigit
  | _ => false

/-- Whether a text is one of the words. -/
def isWord (words : List String) (cs : List Char) : Bool :=
  words.contains (String.ofList cs)

/-- A whole number without its sign. -/
def isMagnitude : List Char → Bool
  | [] => false
  | '0' :: [] => true
  | '0' :: 'b' :: digits => !digits.isEmpty && digits.all fun c => c = '0' || c = '1' || c = '_'
  | '0' :: 'x' :: digits =>
    !digits.isEmpty && digits.all fun c =>
      isSpacedDigit c || ('a' ≤ c && c ≤ 'f') || ('A' ≤ c && c ≤ 'F')
  | '0' :: digits => digits.all fun c => ('0' ≤ c && c ≤ '7') || c = '_'
  | cs =>
    match fields ':' cs with
    | first :: others => isSpacedNumber first && others.all isSixtieth
    | [] => false

/-- Whether a text is spelled as a whole number. -/
def isInteger (cs : List Char) : Bool :=
  isMagnitude (withoutSign cs)

/-- The exponent that may end a fraction: nothing, or a mark, a sign and digits. -/
def isExponent : List Char → Bool
  | [] => true
  | mark :: sign :: digits =>
    (mark = 'e' || mark = 'E') && (sign = '+' || sign = '-')
      && !digits.isEmpty && digits.all Char.isDigit
  | _ => false

/-- What may stand behind the point of a fraction. -/
def isFractionTail (cs : List Char) : Bool :=
  isExponent (cs.dropWhile isSpacedDigit)

/-- Digits and underscores behind the last point of a number in base sixty. -/
def isSixtiethTail (cs : List Char) : Bool :=
  match fields '.' cs with
  | [last, tail] => isSixtieth last && tail.all isSpacedDigit
  | _ => false

/-- A number in base sixty with a point. -/
def isSixtiethFraction (cs : List Char) : Bool :=
  match fields ':' cs with
  | first :: second :: others =>
    isSpacedNumber first && ((second :: others).dropLast.all isSixtieth)
      && isSixtiethTail ((second :: others).getLastD [])
  | _ => false

/-- Whether a text is spelled as a fraction. -/
def isFraction (cs : List Char) : Bool :=
  let body := withoutSign cs
  let whole := body.takeWhile isSpacedDigit
  let plain :=
    match body.dropWhile isSpacedDigit with
    | '.' :: tail => isSpacedNumber whole && isFractionTail tail
    | _ => false
  let pointed :=
    match cs with
    | '.' :: d :: tail => d.isDigit && isFractionTail tail
    | _ => false
  plain || pointed || isSixtiethFraction body
    || isWord [".inf", ".Inf", ".INF"] body || isWord [".nan", ".NaN", ".NAN"] cs

/-- Whether a text is a number of the given counts of digits. -/
def isDigits (least most : Nat) (cs : List Char) : Bool :=
  cs.all Char.isDigit && least ≤ cs.length && cs.length ≤ most

/-- Spaces and tabs. -/
def isGap (c : Char) : Bool :=
  c = ' ' || c = '\t'

/-- Whether a text is a day whose month and day have at least the given count of digits. -/
def isDay (least : Nat) (cs : List Char) : Bool :=
  match fields '-' cs with
  | [year, month, day] => isDigits 4 4 year && isDigits least 2 month && isDigits least 2 day
  | _ => false

/-- An offset from universal time: the letter for none, or a sign, hours and maybe minutes. -/
def isOffset : List Char → Bool
  | [] => false
  | c :: rest =>
    if c = 'Z' then rest.isEmpty
    else (c = '+' || c = '-')
      && (match fields ':' rest with
          | [hours] => isDigits 1 2 hours
          | [hours, minutes] => isDigits 1 2 hours && isDigits 2 2 minutes
          | _ => false)

/-- What may follow the seconds: the fraction and the offset. -/
def isMomentTail (cs : List Char) : Bool :=
  let rest :=
    match cs with
    | '.' :: more => more.dropWhile Char.isDigit
    | _ => cs
  rest.isEmpty || isOffset (rest.dropWhile isGap)

/-- Whether a text is a time of a day with what may follow it. -/
def isTime (cs : List Char) : Bool :=
  match fields ':' cs with
  | hours :: minutes :: others =>
    let tail := (List.intersperse [':'] others).flatten
    isDigits 1 2 hours && isDigits 2 2 minutes && !others.isEmpty
      && isDigits 2 2 (tail.take 2) && isMomentTail (tail.drop 2)
  | _ => false

/-- Whether a text is spelled as a day or a moment. -/
def isMoment (cs : List Char) : Bool :=
  let day := cs.takeWhile fun c => c.isDigit || c = '-'
  match cs.dropWhile fun c => c.isDigit || c = '-' with
  | [] => isDay 2 day
  | c :: rest =>
    isDay 1 day
      && ((c = 'T' || c = 't') && isTime rest || isGap c && isTime (rest.dropWhile isGap))

/-- The kind of a scalar by its spelling. -/
def ScalarKind.ofSpelling (cs : List Char) : ScalarKind :=
  if isWord nullWords cs then .null
  else if isWord trueWords cs || isWord falseWords cs then .flag
  else if isFraction cs then .fraction
  else if isInteger cs then .integer
  else if isMoment cs then .moment
  else if cs = ['<', '<'] then .merge
  else if cs = ['='] then .default
  else if cs = ['!'] || cs = ['&'] || cs = ['*'] then .mark
  else .text

/-- A text without a line feed at its end, unless it is nothing else. -/
def withoutLastBreak (cs : List Char) : List Char :=
  if cs.getLast? = some '\n' && 1 < cs.length then cs.dropLast else cs

/-- The kind of a scalar that no tag tells; a line feed at its end does not count. -/
def ScalarKind.of (cs : List Char) : ScalarKind :=
  .ofSpelling (withoutLastBreak cs)

end VariableOrder.Document
