import VariableOrder.Files.Path

/-!
# File trees

A tree of directories and files, in which one stands at some directory. Going along a path needs
a directory at each place that is left; two names are special, one for staying and one for going
back. What can not be done is refused with a reason, and the tree stays as it is.
-/

set_option autoImplicit false

namespace VariableOrder.Files

/-- Why something can not be done with a path. -/
inductive Reason where
  | notFound
  | exists
  | notDirectory
  | isDirectory
  | nameTooLong
  | other (number : Nat) (text : String)
  deriving DecidableEq, Repr

/-- The number of a reason. -/
def Reason.number : Reason → Nat
  | .notFound => 2
  | .exists => 17
  | .notDirectory => 20
  | .isDirectory => 21
  | .nameTooLong => 36
  | .other number _ => number

/-- The wording of a reason. -/
def Reason.text : Reason → String
  | .notFound => "No such file or directory"
  | .exists => "File exists"
  | .notDirectory => "Not a directory"
  | .isDirectory => "Is a directory"
  | .nameTooLong => "File name too long"
  | .other _ text => text

/-- What stands at a place. A sink takes everything and holds nothing. -/
inductive Item where
  | directory
  | file (bytes : List UInt8)
  | sink
  deriving DecidableEq, Repr

/-- The names on the way from the root. -/
abbrev Place := List String

/-- The items below the root by their places, and the place where one is. -/
structure Tree where
  items : List (Place × Item)
  here : Place
  deriving DecidableEq, Repr

namespace Tree

/-- The greatest count of bytes of a name. -/
def longestName : Nat := 255

/-- The greatest count of bytes of a path. -/
def longestPath : Nat := 4095

/-- What stands at a place; the root is a directory. -/
def item? (t : Tree) (p : Place) : Option Item :=
  if p.isEmpty then some .directory else (t.items.find? fun i => i.1 == p).map (·.2)

/-- Puts an item at a place. -/
def put (t : Tree) (p : Place) (item : Item) : Tree :=
  if t.items.any fun i => i.1 == p then
    { t with items := t.items.map fun i => if i.1 == p then (p, item) else i }
  else { t with items := t.items ++ [(p, item)] }

/-- Whether a name is one of the two that name no item of a directory. -/
def isDots (name : String) : Bool :=
  name = "." || name = ".."

/-- The place behind one step from a directory, whether something stands there or not. -/
def beyond (p : Place) (name : String) : Except Reason Place :=
  if name = "." then .ok p
  else if name = ".." then .ok p.dropLast
  else if longestName < name.utf8ByteSize then .error .nameTooLong
  else .ok (p ++ [name])

/-- The place, if it is a directory. -/
def directory (t : Tree) (p : Place) : Except Reason Place :=
  match t.item? p with
  | some .directory => .ok p
  | some _ => .error .notDirectory
  | none => .error .notFound

/-- Takes one step to something that stands there. -/
def step (t : Tree) (p : Place) (name : String) : Except Reason Place := do
  let next ← beyond (← t.directory p) name
  if (t.item? next).isSome then return next else .error .notFound

/-- The place where a path starts. -/
def start (t : Tree) (p : Path) : Place :=
  if p.fromRoot then [] else t.here

/-- Goes along a path to something that stands there. -/
def walk (t : Tree) (p : Path) : Except Reason Place := do
  let place ← p.steps.foldlM t.step (t.start p)
  if p.closed then t.directory place else return place

/-- Reads a path that is neither empty nor too long. -/
def path (text : String) : Except Reason Path :=
  if text.isEmpty then .error .notFound
  else if longestPath < text.utf8ByteSize then .error .nameTooLong
  else .ok (.ofText text)

/-- Whether something stands at the end of a path. -/
def has (t : Tree) (text : String) : Bool :=
  match path text >>= t.walk with
  | .ok _ => true
  | .error _ => false

/-- The bytes of a file. -/
def read (t : Tree) (text : String) : Except Reason (List UInt8) := do
  let place ← t.walk (← path text)
  match t.item? place with
  | some (.file bytes) => return bytes
  | some .sink => return []
  | some .directory => .error .isDirectory
  | none => .error .notFound

/-- The directory that a path leads to by all but its last step, and the last step. -/
def parent (t : Tree) (p : Path) : Except Reason (Place × Option String) := do
  let place ← t.directory (← p.steps.dropLast.foldlM t.step (t.start p))
  return (place, p.steps.getLast?)

/-- Opens a file for writing: it is created if it is missing, and emptied otherwise. The place is
where the file stands. -/
def openFile (t : Tree) (text : String) : Except Reason (Tree × Place) := do
  let p ← path text
  match ← t.parent p with
  | (_, none) => .error .isDirectory
  | (place, some name) =>
    if isDots name || p.closed then .error .isDirectory
    else
      let target ← beyond place name
      match t.item? target with
      | some .directory => .error .isDirectory
      | some .sink => return (t, target)
      | some (.file _) | none => return (t.put target (.file []), target)

/-- Writes bytes to the empty file at a place. -/
def fill (t : Tree) (p : Place) (bytes : List UInt8) : Tree :=
  match t.item? p with
  | some (.file _) => t.put p (.file bytes)
  | _ => t

/-- Creates a directory in a directory. -/
def makeDirectory (t : Tree) (text : String) : Except Reason Tree := do
  let p ← path text
  match ← t.parent p with
  | (_, none) => .error .exists
  | (place, some name) =>
    if isDots name then .error .exists
    else
      let target ← beyond place name
      if (t.item? target).isSome then .error .exists else return t.put target .directory

end Tree

end VariableOrder.Files
