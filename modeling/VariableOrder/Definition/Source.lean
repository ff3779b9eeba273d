import VariableOrder.Definition.Load
import VariableOrder.Document.Meaning
import VariableOrder.Files.Access

/-!
# Definition files

A definition file is a document with a mapping, or with nothing at all. A file that can not be
read, is no text, breaks the notation or holds something else is refused with one message, like
definitions that are refused. Two kinds of faults are no matter of the definitions and break off
instead: a path that can not be written, and a scalar whose spelling does not suit its kind.
-/

set_option autoImplicit false

namespace VariableOrder.Definition

open Data (Value Record)

/-- Why a definition file is refused. -/
inductive SourceRefusal where
  | unreadable (reason : Files.Reason) (path : String)
  | malformed (f : Document.Fault)
  | notMapping
  deriving DecidableEq, Repr

/-- Why a definition file yields no entries: it is refused, or a fault breaks off. -/
inductive SourceFailure where
  | refused (path : String) (r : SourceRefusal)
  | path (f : Files.Failure)
  | scalar (f : Document.Fault)

/-- What keeps a file from being read and decoded. -/
def SourceRefusal.detail : SourceRefusal → String
  | .unreadable reason path => (Files.Failure.refused reason path).message
  | .malformed f => f.message
  | .notMapping => ""

/-- The wording of a refusal. -/
def SourceRefusal.message (path : String) : SourceRefusal → String
  | .notMapping => "Definition file '" ++ path ++ "' must contain a mapping at the top level."
  | r => "Error reading or parsing definition file '" ++ path ++ "': " ++ r.detail

/-- Whether a fault is one of the file, and not of a scalar in it. -/
def isOfFile : Document.Fault → Bool
  | .malformed | .cutOff | .undecodable _ => true
  | _ => false

/-- The entries of a document. -/
def entriesOf (path : String) (document : Except Document.Fault Value) :
    Except SourceFailure (Record Value) :=
  match document with
  | .ok .null => .ok []
  | .ok (.record entries) => .ok entries
  | .ok _ => .error (.refused path .notMapping)
  | .error f => .error (if isOfFile f then .refused path (.malformed f) else .scalar f)

/-- The entries of a definition file with the given content. -/
def source (path : String) (content : Except Files.Failure (List UInt8)) :
    Except SourceFailure (Record Value) :=
  match content with
  | .error (.refused reason place) => .error (.refused path (.unreadable reason place))
  | .error f => .error (.path f)
  | .ok bytes => entriesOf path (Document.read bytes)

/-- Why a file yields no definitions. -/
inductive FileFailure where
  | source (f : SourceFailure)
  | load (f : LoadFailure)

namespace FileFailure

/-- The messages about definitions that are refused; nothing if a fault broke off. -/
def messages? : FileFailure → Option (List String)
  | .source (.refused path r) => some [r.message path]
  | .load (.invalid messages) => some messages
  | _ => none

/-- The wording of a failure. -/
def message : FileFailure → String
  | .source (.refused path r) => (LoadFailure.invalid [r.message path]).message
  | .source (.path f) => f.message
  | .source (.scalar f) => f.message
  | .load f => f.message

end FileFailure

/-- The definitions of a file with the given content, if all of it is accepted. -/
def ofFile (c : Catalogue) (path : String) (content : Except Files.Failure (List UInt8)) :
    Except FileFailure Definitions :=
  match source path content with
  | .error f => .error (.source f)
  | .ok entries => (load c [] entries).definitions?.mapError .load

end VariableOrder.Definition
