import VariableOrder.Files.Tree
import VariableOrder.Text.Quoted

/-!
# Access to files

Reading files and opening them for writing by the text of a path. No path holds the character of
code zero. Before a file is opened for writing, the directories on the way to it are created as far
as they are missing; those that were created stay even if the file can not be opened in the end.
-/

set_option autoImplicit false

namespace VariableOrder.Files

/-- Why a file can not be read or written. -/
inductive Failure where
  | refused (reason : Reason) (path : String)
  | zeroCharacter
  deriving DecidableEq, Repr

/-- The wording of a failure. -/
def Failure.message : Failure → String
  | .refused reason path =>
    "[Errno " ++ toString reason.number ++ "] " ++ reason.text ++ ": " ++ Text.quoted path
  | .zeroCharacter => "embedded null byte"

namespace Access

/-- Whether no path can be written so. -/
def hasZero (path : String) : Bool :=
  path.toList.contains (Char.ofNat 0)

/-- Does something with a path that can be written so. -/
def guarded {α : Type} (path : String) (act : String → Except Reason α) : Except Failure α :=
  if hasZero path then .error .zeroCharacter
  else (act path).mapError fun reason => .refused reason path

/-- The bytes of a file. -/
def read (t : Tree) (path : String) : Except Failure (List UInt8) :=
  guarded path t.read

/-- Whether something stands at the end of a path. -/
def has (t : Tree) (path : String) : Bool :=
  !hasZero path && t.has path

/-- A tree after a change, and the failure if the change was not completed. -/
abbrev Change := Tree × Option Failure

/-- Makes a change that is done completely or not at all. -/
def change (t : Tree) (path : String) (act : String → Except Reason Tree) : Change :=
  match guarded path act with
  | .ok t => (t, none)
  | .error f => (t, some f)

/-- Whether a failure says that something is there already. -/
def isExists : Option Failure → Bool
  | some (.refused .exists _) => true
  | _ => false

/-- The path above a path, and its last step; slashes at the end do not count. -/
def above (path : List Char) : List Char × List Char :=
  let (head, last) := Path.split path
  if last.isEmpty then Path.split head else (head, last)

/-- Creates a directory and those above it that are missing, of which there are no more than the
given count. -/
def makeAll : Nat → Tree → List Char → Change
  | 0, t, path => change t (String.ofList path) t.makeDirectory
  | count + 1, t, path =>
    let (head, last) := above path
    if head.isEmpty || last.isEmpty || has t (String.ofList head) then
      change t (String.ofList path) t.makeDirectory
    else
      let (t, failure) := makeAll count t head
      if failure.isSome && !isExists failure then (t, failure)
      else if last = ['.'] then (t, none)
      else change t (String.ofList path) t.makeDirectory

/-- Creates the directory of a path, if it is missing. -/
def prepare (t : Tree) (path : String) : Change :=
  let (directory, _) := Path.split path.toList
  if directory.isEmpty || has t (String.ofList directory) then (t, none)
  else makeAll directory.length t directory

/-- Opens a file for writing and creates its directory before that, if it is missing. -/
def openFile (t : Tree) (path : String) : Tree × Except Failure Place :=
  match prepare t path with
  | (t, some f) => (t, .error f)
  | (t, none) =>
    match guarded path t.openFile with
    | .ok (t, place) => (t, .ok place)
    | .error f => (t, .error f)

end Access

end VariableOrder.Files
