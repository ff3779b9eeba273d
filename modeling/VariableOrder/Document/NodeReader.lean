import VariableOrder.Document.Lexer
import VariableOrder.Document.Node

/-!
# Reading the nodes of a document

The tokens of a document make a graph of nodes. A node may be named by an anchor and stands again
wherever an alias names it, also inside itself.
-/

set_option autoImplicit false

namespace VariableOrder.Document

/-- What is known while a document is read: how far it is cut into tokens, the nodes so far, the
named ones, and the meaning of the handles of tags. -/
structure Reading where
  lexer : Lexer
  nodes : Nodes
  anchors : List (String × NodeId)
  handles : List (String × String)

/-- Reading a part of a document. -/
abbrev Reader := StateT Reading (Except Fault)

namespace Reader

/-- Gives up. -/
def fail {α : Type} (f : Fault) : Reader α :=
  throw f

/-- The next token. -/
def peek : Reader Token := do
  let lexer := (← get).lexer
  let lexer ← lexer.settle lexer.size
  modify fun r => { r with lexer := lexer }
  match lexer.tokens with
  | [] => fail .malformed
  | t :: _ => return t

/-- Moves behind the next token. -/
def skip : Reader Unit :=
  modify fun r => { r with lexer := r.lexer.take }

/-- Moves behind the next token, which has to be the given one. -/
def expect (t : Token) : Reader Unit := do
  if (← peek) = t then skip else fail .malformed

/-- Whether the next token is one of the given ones. -/
def isAt (ts : List Token) : Reader Bool := do
  return ts.contains (← peek)

/-- Moves behind the next token if it is the given one, and says whether it was. -/
def accept (t : Token) : Reader Bool := do
  if (← peek) = t then do skip; return true else return false

/-- The anchor and the tag in front of a node, in either order. -/
def properties : Reader (Option String × Option (Option String × String)) := do
  match ← peek with
  | .anchor name =>
    skip
    match ← peek with
    | .tag handle suffix => do skip; return (some name, some (handle, suffix))
    | _ => return (some name, none)
  | .tag handle suffix =>
    skip
    match ← peek with
    | .anchor name => do skip; return (some name, some (handle, suffix))
    | _ => return (none, some (handle, suffix))
  | _ => return (none, none)

/-- The name of a tag. -/
def tagName : Option (Option String × String) → Reader (Option String)
  | none => return none
  | some (none, suffix) => return some suffix
  | some (some handle, suffix) => do
    match (← get).handles.find? fun h => h.1 == handle with
    | some (_, target) => return some (target ++ suffix)
    | none => fail .malformed

/-- The node that an alias names. -/
def named (name : String) : Reader NodeId := do
  match (← get).anchors.find? fun a => a.1 == name with
  | some (_, id) => return id
  | none => fail .malformed

/-- Adds a node. -/
def add (tag : Tag) (content : Content) : Reader NodeId := do
  let id := (← get).nodes.size
  modify fun r => { r with nodes := r.nodes.push { tag := tag, content := content } }
  return id

/-- Adds a node, which an anchor may name; no anchor may be used twice. -/
def declare (anchor : Option String) (tag : Tag) (content : Content) : Reader NodeId := do
  match anchor with
  | none => add tag content
  | some name =>
    if (← get).anchors.any fun a => a.1 == name then fail .malformed
    else
      let id ← add tag content
      modify fun r => { r with anchors := (name, id) :: r.anchors }
      return id

/-- Gives a node its content. -/
def complete (id : NodeId) (content : Content) : Reader NodeId := do
  modify fun r => { r with nodes := r.nodes.setContent id content }
  return id

/-- The tag of a collection. -/
def collectionTag (standard : Tag) (name : Option String) : Tag :=
  match name with
  | none => standard
  | some name => if name = "!" then standard else .ofName name

/-- The tag of a scalar. Without a tag the spelling of plain text tells the kind, and the tag that
is a mere exclamation mark asks for the spelling as well. -/
def scalarTag (name : Option String) (text : String) (isPlain : Bool) : Tag :=
  match name with
  | none => .scalar (if isPlain then .of text.toList else .text)
  | some name => if name = "!" then .scalar (.of text.toList) else .ofName name

/-- A node where nothing is written. -/
def emptyNode : Reader NodeId :=
  add (.scalar .null) (.scalar "")

/-- Reads a scalar. -/
def scalar (anchor name : Option String) (text : String) (isPlain : Bool) : Reader NodeId :=
  declare anchor (scalarTag name text isPlain) (.scalar text)

/-- Reads a sequence whose items are read in the given way. -/
def sequence (anchor name : Option String) (items : Reader (List NodeId)) : Reader NodeId := do
  let id ← declare anchor (collectionTag .sequence name) (.sequence [])
  complete id (.sequence (← items))

/-- Reads a mapping whose entries are read in the given way. -/
def mapping (anchor name : Option String) (entries : Reader (List Entry)) : Reader NodeId := do
  let id ← declare anchor (collectionTag .mapping name) (.mapping [])
  complete id (.mapping (← entries))

/-- Reads a node where only an anchor or a tag is written, which is empty text. -/
def bare (anchor name : Option String) : Reader NodeId := do
  if anchor.isNone && name.isNone then fail .malformed
  else scalar anchor name "" true

/-- Reads a node, unless what follows shows that nothing is written. -/
def orEmpty (stops : List Token) (read : Reader NodeId) : Reader NodeId := do
  if ← isAt stops then emptyNode else read

/-- Reads the value behind a key; without a colon nothing is written. -/
def valueOr (stops : List Token) (read : Reader NodeId) : Reader NodeId := do
  if ← accept .value then orEmpty stops read else emptyNode

mutual

/-- Reads a node. The flags say whether a collection in block style may stand here, and whether
the dashes of a list may stand here without further indentation. -/
def node (isBlock isLoose : Bool) : Nat → Reader NodeId
  | 0 => fail .malformed
  | fuel + 1 => do
    match ← peek with
    | .alias name =>
      skip
      named name
    | _ =>
      let (anchor, tag) ← properties
      let name ← tagName tag
      match ← peek with
      | .scalar text isPlain =>
        skip
        scalar anchor name text isPlain
      | .flowListStart =>
        skip
        sequence anchor name (flowItems true fuel)
      | .flowRecordStart =>
        skip
        mapping anchor name (flowEntries true fuel)
      | .listStart =>
        if isBlock then
          skip
          sequence anchor name (blockItems fuel)
        else bare anchor name
      | .recordStart =>
        if isBlock then
          skip
          mapping anchor name (blockEntries fuel)
        else bare anchor name
      | .entry =>
        if isLoose then sequence anchor name (looseItems fuel) else bare anchor name
      | _ => bare anchor name

/-- Reads the items of a list in block style. -/
def blockItems : Nat → Reader (List NodeId)
  | 0 => fail .malformed
  | fuel + 1 => do
    if ← accept .entry then
      let item ← orEmpty [.entry, .blockEnd] (node true false fuel)
      return item :: (← blockItems fuel)
    else
      expect .blockEnd
      return []

/-- Reads the items of a list without indentation of its own. -/
def looseItems : Nat → Reader (List NodeId)
  | 0 => fail .malformed
  | fuel + 1 => do
    if ← accept .entry then
      let item ← orEmpty [.entry, .key, .value, .blockEnd] (node true false fuel)
      return item :: (← looseItems fuel)
    else return []

/-- Reads the entries of a record in block style. -/
def blockEntries : Nat → Reader (List Entry)
  | 0 => fail .malformed
  | fuel + 1 => do
    if ← accept .key then
      let key ← orEmpty [.key, .value, .blockEnd] (node true true fuel)
      let value ← valueOr [.key, .value, .blockEnd] (node true true fuel)
      return (key, value) :: (← blockEntries fuel)
    else
      expect .blockEnd
      return []

/-- Reads the items of a list between brackets; an entry of a record may be an item. -/
def flowItems (isFirst : Bool) : Nat → Reader (List NodeId)
  | 0 => fail .malformed
  | fuel + 1 => do
    if ← accept .flowListEnd then return []
    else
      if !isFirst then expect .separator
      if ← accept .key then
        let entry ← mapping none none do
          let key ← orEmpty [.value, .separator, .flowListEnd] (node false false fuel)
          let value ← valueOr [.separator, .flowListEnd] (node false false fuel)
          return [(key, value)]
        return entry :: (← flowItems false fuel)
      else if ← accept .flowListEnd then return []
      else
        let item ← node false false fuel
        return item :: (← flowItems false fuel)

/-- Reads the entries of a record between braces. -/
def flowEntries (isFirst : Bool) : Nat → Reader (List Entry)
  | 0 => fail .malformed
  | fuel + 1 => do
    if ← accept .flowRecordEnd then return []
    else
      if !isFirst then expect .separator
      if ← accept .key then
        let key ← orEmpty [.value, .separator, .flowRecordEnd] (node false false fuel)
        let value ← valueOr [.separator, .flowRecordEnd] (node false false fuel)
        return (key, value) :: (← flowEntries false fuel)
      else if ← accept .flowRecordEnd then return []
      else
        let key ← node false false fuel
        let value ← emptyNode
        return (key, value) :: (← flowEntries false fuel)

end

/-- The handles that every document knows. -/
def standardHandles : List (String × String) :=
  [("!", "!"), ("!!", commonTags)]

/-- Reads directives. A version may be told once and has to be a first one, and each handle may be
given a meaning once. -/
def directives : Nat → Bool → List (String × String) → Reader Unit
  | 0, _, _ => fail .malformed
  | fuel + 1, hasVersion, handles => do
    match ← peek with
    | .directive d =>
      skip
      match d with
      | .version major =>
        if hasVersion || major != 1 then fail .malformed else directives fuel true handles
      | .tag handle target =>
        if handles.any fun h => h.1 == handle then fail .malformed
        else directives fuel hasVersion ((handle, target) :: handles)
      | .other => directives fuel hasVersion handles
    | _ => modify fun r => { r with handles := handles ++ standardHandles }

/-- Moves behind all marks for the end of a document. -/
def skipEnds : Nat → Reader Unit
  | 0 => fail .malformed
  | fuel + 1 => do
    if ← accept .documentEnd then skipEnds fuel

/-- Reads what follows a document. Another document may not follow, but its directives are read
before it is refused. -/
def ending (fuel : Nat) : Reader Unit := do
  skipEnds fuel
  if !(← isAt [.streamEnd]) then
    directives fuel false []
    fail .malformed

/-- Reads a document behind its start, and what follows it. -/
def content (fuel : Nat) (isEmpty : Bool) : Reader (Option NodeId) := do
  let root ← if isEmpty then emptyNode else node true false fuel
  ending fuel
  return some root

/-- Reads the only document of a stream, if there is one. -/
def stream (fuel : Nat) : Reader (Option NodeId) := do
  match ← peek with
  | .streamEnd => return none
  | .directive _ | .documentStart =>
    directives fuel false []
    expect .documentStart
    let isEmpty ← do
      match ← peek with
      | .directive _ | .documentStart | .documentEnd | .streamEnd => pure true
      | _ => pure false
    content fuel isEmpty
  | _ => content fuel false

end Reader

/-- The nodes of the only document in a text, and the place of its root, if there is one. -/
def Nodes.read (t : SourceText) : Except Fault (Option NodeId × Nodes) := do
  let lexer := Lexer.ofText t
  let (root, r) ← (Reader.stream (2 * lexer.size + 4)).run
    ⟨lexer, .empty, [], Reader.standardHandles⟩
  return (root, r.nodes)

end VariableOrder.Document
