import VariableOrder.Placeholder.Chunk
import VariableOrder.Text.Blank

/-!
# Parts of an expression text

The parts of a text are its literal stretches and its references. Chunks that stand for text
are joined, so no part is empty and no two literal parts are neighbours. A placeholder with
a blank name is literal text. Names of environment variables and system properties are
external: they are resolved outside the installer.
-/

set_option autoImplicit false

namespace VariableOrder.Placeholder

/-- A reference to a variable: its name, whether it is external, and the placeholder as it was
written, which is empty when the reference was never written down. -/
structure Reference where
  name : String
  external : Bool
  raw : String
  deriving DecidableEq, Repr

/-- A part of an expression text. -/
inductive Part where
  | literal (text : String)
  | reference (r : Reference)
  deriving DecidableEq, Repr

/-- Whether a text ends with a closing bracket that is its only one; a line feed may follow. -/
def closesOnce (cs : List Char) : Bool :=
  match cs.dropWhile (· != ']') with
  | [']'] => true
  | [']', '\n'] => true
  | _ => false

/-- Whether a text is one line that is not empty; a line feed may follow. -/
def isOneLine (cs : List Char) : Bool :=
  let line := if cs.getLast? = some '\n' then cs.dropLast else cs
  !line.isEmpty && line.all (· != '\n')

/-- Whether a name denotes an environment variable or a system property. -/
def isExternal : List Char → Bool
  | 'E' :: 'N' :: 'V' :: '[' :: rest => closesOnce rest
  | 'S' :: 'Y' :: 'S' :: 'T' :: 'E' :: 'M' :: '[' :: rest => closesOnce rest
  | 'e' :: 'n' :: 'v' :: '.' :: rest => isOneLine rest
  | 's' :: 'y' :: 's' :: '.' :: rest => isOneLine rest
  | _ => false

/-- Whether a name is external. -/
def isExternalName (name : String) : Bool :=
  isExternal name.toList

/-- The reference that a placeholder makes. -/
def Reference.of (name source : List Char) : Reference :=
  ⟨String.ofList name, isExternal name, String.ofList source⟩

/-- What a chunk stands for: literal text or a reference. -/
inductive Meaning where
  | text (cs : List Char)
  | reference (r : Reference)
  deriving DecidableEq, Repr

/-- The meaning of a chunk. -/
def Chunk.meaning : Chunk → Meaning
  | .escapedDollar => .text ['$']
  | .braced inner =>
    let name := Text.strip inner
    if name.isEmpty then .text (Chunk.braced inner).source
    else .reference (.of name (Chunk.braced inner).source)
  | .bare name => .reference (.of name (Chunk.bare name).source)
  | .plain c => .text [c]

/-- Puts literal text in front of parts, unless it is empty. -/
def withText (cs : List Char) (parts : List Part) : List Part :=
  if cs.isEmpty then parts else .literal (String.ofList cs) :: parts

/-- Joins meanings: the literal text in front of the first reference, and the parts from that
reference on. -/
def joined : List Chunk → List Char × List Part
  | [] => ([], [])
  | k :: rest =>
    let (text, parts) := joined rest
    match k.meaning with
    | .text cs => (cs ++ text, parts)
    | .reference r => ([], .reference r :: withText text parts)

/-- The parts of a sequence of chunks. -/
def partsOf (ks : List Chunk) : List Part :=
  withText (joined ks).1 (joined ks).2

/-- The parts of an expression text. -/
def parts (text : String) : List Part :=
  partsOf (chunks text.toList)

/-- Doubles every dollar sign, so that the text reads back as itself. -/
def escapeDollars (cs : List Char) : List Char :=
  cs.flatMap fun c => if c = '$' then ['$', '$'] else [c]

/-- How a reference is written: as it was, or else between braces. -/
def Reference.written (r : Reference) : String :=
  if r.raw = "" then "$\x7b" ++ r.name ++ "\x7d" else r.raw

/-- How a part is written. -/
def Part.written : Part → String
  | .literal text => String.ofList (escapeDollars text.toList)
  | .reference r => r.written

end VariableOrder.Placeholder
