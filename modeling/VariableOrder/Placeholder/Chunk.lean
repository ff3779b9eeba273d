/-!
# Chunks of an expression text

An expression text is cut from left to right into chunks of four kinds: an escaped dollar
sign, a braced placeholder, a bare placeholder, and any other single character. A bare name
is as long as it can be while it ends in a letter, a digit or an underscore. A dollar sign
is a character of its own only where no other chunk starts with it.
-/

set_option autoImplicit false

namespace VariableOrder.Placeholder

/-- A chunk of an expression text. -/
inductive Chunk where
  | escapedDollar
  | braced (inner : List Char)
  | bare (name : List Char)
  | plain (c : Char)
  deriving DecidableEq, Repr

/-- The characters of a chunk. -/
def Chunk.source : Chunk → List Char
  | .escapedDollar => ['$', '$']
  | .braced inner => '$' :: '{' :: (inner ++ ['}'])
  | .bare name => '$' :: name
  | .plain c => [c]

/-- The count of characters of a chunk. -/
def Chunk.length (k : Chunk) : Nat :=
  k.source.length

/-- Characters that can start a bare name: ASCII letters and the underscore. -/
def isNameStart (c : Char) : Bool :=
  c.isAlpha || c = '_'

/-- Characters that can end a bare name: ASCII letters, ASCII digits and the underscore. -/
def isNameEnd (c : Char) : Bool :=
  c.isAlphanum || c = '_'

/-- Characters that can stand inside a bare name. -/
def isNameInner (c : Char) : Bool :=
  isNameEnd c || c = '.' || c = '-'

/-- Characters that cannot stand between braces. -/
def isBrace (c : Char) : Bool :=
  c = '{' || c = '}'

/-- The longest continuation of a bare name: inner characters up to the last that can end it. -/
def nameTail (cs : List Char) : List Char :=
  ((cs.takeWhile isNameInner).reverse.dropWhile (fun c => !isNameEnd c)).reverse

/-- The chunk that a dollar sign starts, by what follows the sign. -/
def afterDollar : List Char → Chunk
  | [] => .plain '$'
  | c :: rest =>
    if c = '$' then .escapedDollar
    else if c = '{' then
      match rest.dropWhile (fun d => !isBrace d) with
      | '}' :: _ => .braced (rest.takeWhile fun d => !isBrace d)
      | _ => .plain '$'
    else if isNameStart c then .bare (c :: nameTail rest)
    else .plain '$'

/-- The chunk at the front of a text, given its first character and the others. -/
def chunkAt (c : Char) (rest : List Char) : Chunk :=
  if c = '$' then afterDollar rest else .plain c

/-- Cuts a text into chunks after skipping the given count of characters. A chunk is found at
its first character and its other characters are skipped. -/
def chunksAfter : Nat → List Char → List Chunk
  | _, [] => []
  | 0, c :: rest => chunkAt c rest :: chunksAfter ((chunkAt c rest).length - 1) rest
  | skip + 1, _ :: rest => chunksAfter skip rest

/-- The chunks of a text. -/
def chunks (cs : List Char) : List Chunk :=
  chunksAfter 0 cs

end VariableOrder.Placeholder
