import VariableOrder.Document.QuotedText
import VariableOrder.Document.Token
import VariableOrder.Text.Encoding

/-!
# Reading tags, names and directives

A tag tells the kind of what follows it: in full between angle brackets, or as a handle with a
suffix, where bytes may be written as a percent sign with two hexadecimal digits. Anchors and
aliases are names. A directive stands on a line of its own in front of a document.
-/

set_option autoImplicit false

namespace VariableOrder.Document

/-- The name behind the indicator of an anchor or an alias. -/
def markName (c : Cursor) : Except Fault (String × Cursor) :=
  let name := c.next.run isWordChar
  let behind := c.next.forward name.length
  let ends := isGapEnd behind.head || "?:,]\x7d%@\x60".toList.contains behind.head
  if name.isEmpty || !ends then .error (behind.refuse 0) else .ok (String.ofList name, behind)

/-- Characters that a tag may hold as they are; the percent sign starts a byte. -/
def isTagChar (c : Char) : Bool :=
  c.isAlphanum || "-;/?:@&=+$,_.!~*'()[]".toList.contains c

/-- The bytes that are written with percent signs at a position. -/
def tagBytes : Nat → Cursor → List UInt8 → Except Fault (List UInt8 × Cursor)
  | 0, c, bytes => .ok (bytes.reverse, c)
  | fuel + 1, c, bytes =>
    if c.head = '%' then
      let digits := (c.next.rest.take 2).takeWhile isHexDigit
      if digits.length = 2 then
        tagBytes fuel (c.next.forward 2) (UInt8.ofNat (hexValue digits) :: bytes)
      else .error (c.next.refuse digits.length)
    else .ok (bytes.reverse, c)

/-- The pieces of a tag at a position, latest first. -/
def tagPieces (fuel : Nat) : Nat → Cursor → List (List Char) → Except Fault (List Char × Cursor)
  | 0, c, pieces => .ok (pieces.reverse.flatten, c)
  | steps + 1, c, pieces =>
    let run := c.run isTagChar
    if !run.isEmpty then tagPieces fuel steps (c.forward run.length) (run :: pieces)
    else if c.head = '%' then do
      let (bytes, behind) ← tagBytes fuel c []
      match Text.decodeUtf8 bytes with
      | .ok piece => tagPieces fuel steps behind (piece :: pieces)
      | .error _ => .error .malformed
    else .ok (pieces.reverse.flatten, c)

/-- The text of a tag at a position, which may not be empty. -/
def tagText (fuel : Nat) (c : Cursor) : Except Fault (String × Cursor) := do
  if !isTagChar c.head && c.head != '%' then throw (c.refuse 0)
  let (text, behind) ← tagPieces fuel fuel c []
  return (String.ofList text, behind)

/-- A handle: an exclamation mark, or a name between two of them. -/
def tagHandle (c : Cursor) : Except Fault (String × Cursor) :=
  if c.head != '!' then .error (c.refuse 0)
  else if c.next.head = ' ' then .ok ("!", c.next)
  else
    let name := c.next.run isWordChar
    let behind := c.next.forward name.length
    if behind.head = '!' then .ok (String.ofList ('!' :: (name ++ ['!'])), behind.next)
    else .error (behind.refuse 0)

/-- Whether a second exclamation mark stands in the word at a position. -/
def hasHandle (c : Cursor) : Bool :=
  (c.next.run fun ch => !isBlankEnd ch).contains '!'

/-- The tag whose exclamation mark is at a position. -/
def tagToken (fuel : Nat) (c : Cursor) : Except Fault (Token × Cursor) := do
  let (token, behind) ←
    if c.next.head = '<' then do
      let (text, behind) ← tagText fuel (c.forward 2)
      if behind.head = '>' then pure (Token.tag none text, behind.next)
      else throw (behind.refuse 0)
    else if isGapEnd c.next.head then pure (Token.tag none "!", c.next)
    else do
      let (handle, start) ← if hasHandle c then tagHandle c else pure ("!", c.next)
      let (suffix, behind) ← tagText fuel start
      pure (Token.tag (some handle) suffix, behind)
  if isBlankEnd behind.head then return (token, behind) else throw (behind.refuse 0)

/-- A number of a version. -/
def versionNumber (c : Cursor) : Except Fault (Nat × Cursor) :=
  let digits := c.run Char.isDigit
  if digits.isEmpty then .error (c.refuse 0)
  else if Number.longestNumber < digits.length then .error (.longInteger digits.length)
  else .ok (digits.foldl (fun n d => n * 10 + (d.toNat - 48)) 0, c.forward digits.length)

/-- The version that a directive tells: two numbers with a point between them. -/
def versionDirective (c : Cursor) : Except Fault (Directive × Cursor) := do
  let (major, behind) ← versionNumber c.skipSpaces
  if behind.head != '.' then throw (behind.refuse 0)
  let (_, behind) ← versionNumber behind.next
  if isBlankEnd behind.head then return (.version major, behind) else throw (behind.refuse 0)

/-- The handle that a directive gives a meaning to, and the meaning. -/
def tagDirective (fuel : Nat) (c : Cursor) : Except Fault (Directive × Cursor) := do
  let (handle, behind) ← tagHandle c.skipSpaces
  if behind.head != ' ' then throw (behind.refuse 0)
  let (target, behind) ← tagText fuel behind.skipSpaces
  if isBlankEnd behind.head then return (.tag handle target, behind)
  else throw (behind.refuse 0)

/-- The directive whose percent sign is at a position. -/
def directiveToken (fuel : Nat) (c : Cursor) : Except Fault (Token × Cursor) := do
  let name := c.next.run isWordChar
  let behind := c.next.forward name.length
  if name.isEmpty || !isBlankEnd behind.head then throw (behind.refuse 0)
  let (directive, behind) ←
    if name = "YAML".toList then versionDirective behind
    else if name = "TAG".toList then tagDirective fuel behind
    else pure (Directive.other, behind.skip fun ch => !isLineEnd ch)
  return (.directive directive, ← behind.endLine)

end VariableOrder.Document
