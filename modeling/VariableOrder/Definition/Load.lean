import VariableOrder.Definition.Entry

/-!
# Loading definitions

A definition file has settings, static entries and dynamic entries. Static variables are declared
first, each by its own entry; then follow the dynamic variables in the order of their first
entries, and entries of one name are candidates of one variable. An entry that is refused leaves
a message and has no influence on the others.
-/

set_option autoImplicit false

namespace VariableOrder

open Data (Value Record)
open Schema (Checked)

/-- The parts of a definition file. -/
structure Layout where
  settings : Settings
  static : List (Record Value)
  dynamic : List (Record Value)

namespace Layout

/-- The parts of a definition file by name. -/
def partNames : List String := ["settings", "variables", "dynamicvariables"]

/-- Checks for a definition file. Parts that are null count as absent. -/
def ofFields (raw : Record Value) : Checked Layout :=
  let entries := raw.filter fun e => !e.2.isNull
  let settings := Schema.defaulted entries "settings" {} Settings.ofValue
  let static := Schema.defaulted entries "variables" [] (Schema.checkList Schema.checkFields)
  let dynamic :=
    Schema.defaulted entries "dynamicvariables" [] (Schema.checkList Schema.checkFields)
  let others := Schema.forbidOthers entries partNames
  match settings, static, dynamic, others with
  | .ok settings, .ok static, .ok dynamic, [] => .ok ⟨settings, static, dynamic⟩
  | settings, static, dynamic, others =>
    .error (settings.findings ++ static.findings ++ dynamic.findings ++ others)

end Layout

/-- The definitions of a file and its settings. -/
structure Definitions where
  definitions : List Definition
  settings : Settings

/-- What loading comes to: all messages so far, and the definitions unless a fault broke it off. -/
structure Loading where
  messages : List String
  outcome : Except CallFault Definitions

namespace Definition

/-- The accepted entries and the messages about the others; a fault breaks off at its entry. -/
def sift {α : Type} : List (Except Refusal α) → List String × Except CallFault (List α)
  | [] => ([], .ok [])
  | .ok a :: rest =>
    let (messages, accepted) := sift rest
    (messages, accepted.map (a :: ·))
  | .error (.call (.fault f)) :: _ => ([], .error f)
  | .error refusal :: rest =>
    let (messages, accepted) := sift rest
    (refusal.message :: messages, accepted)

/-- The definitions of static entries. -/
def ofStatic (entries : List (String × Candidate)) : List Definition :=
  entries.zipIdx.map fun ((name, candidate), i) =>
    { name := name, candidates := [candidate], isStatic := true, sourceOrder := i }

/-- Adds a candidate to those of its name, or as the first one of a new name at the end. -/
def addCandidate (name : String) (candidate : Candidate) :
    List (String × List Candidate) → List (String × List Candidate)
  | [] => [(name, [candidate])]
  | (n, candidates) :: rest =>
    if n = name then (n, candidates ++ [candidate]) :: rest
    else (n, candidates) :: addCandidate name candidate rest

/-- The candidates of each name, in the order of first appearance. -/
def grouped (entries : List (String × Candidate)) : List (String × List Candidate) :=
  entries.foldl (fun groups e => addCandidate e.1 e.2 groups) []

/-- The definitions of dynamic entries, declared behind the given count of others. -/
def ofDynamic (declared : Nat) (entries : List (String × Candidate)) : List Definition :=
  (grouped entries).zipIdx.map fun ((name, candidates), i) =>
    { name := name, candidates := candidates, isStatic := false
      sourceOrder := (declared + i : Nat) }

/-- Loads the entries of a valid definition file. -/
def ofLayout (c : Catalogue) (layout : Layout) :
    List String × Except CallFault (List Definition) :=
  let static := sift (layout.static.zipIdx.map fun (entry, i) => StaticEntry.read c i entry)
  match static.2 with
  | .error f => (static.1, .error f)
  | .ok statics =>
    let dynamic := sift (layout.dynamic.zipIdx.map fun (entry, i) => DynamicEntry.read c i entry)
    (static.1 ++ dynamic.1,
      dynamic.2.map fun dynamics => ofStatic statics ++ ofDynamic statics.length dynamics)

/-- The message about a file whose parts are not as expected. -/
def layoutMessage (findings : List Schema.Finding) : String :=
  "Invalid definition file layout: " ++ Schema.findingsText findings

/-- Loads a definition file; messages are added behind the earlier ones. -/
def load (c : Catalogue) (earlier : List String) (raw : Record Value) : Loading :=
  match Layout.ofFields raw with
  | .error findings => ⟨earlier ++ [layoutMessage findings], .ok ⟨[], {}⟩⟩
  | .ok layout =>
    let (messages, definitions) := ofLayout c layout
    ⟨earlier ++ messages, definitions.map fun ds => ⟨ds, layout.settings⟩⟩

/-- Why definitions can not be used: messages were left, or a fault broke the loading off. -/
inductive LoadFailure where
  | invalid (messages : List String)
  | fault (f : CallFault)

/-- The numbered lines of some messages. -/
def numberedLines (messages : List String) : String :=
  String.intercalate "\n" (messages.zipIdx.map fun (m, i) => "  " ++ toString (i + 1) ++ ". " ++ m)

/-- The wording of a failure. -/
def LoadFailure.message : LoadFailure → String
  | .invalid messages => "Invalid variable definitions:\n" ++ numberedLines messages
  | .fault f => f.message

end Definition

/-- The definitions, if no message was left. -/
def Loading.definitions? (l : Loading) : Except Definition.LoadFailure Definitions :=
  match l.outcome with
  | .error f => .error (.fault f)
  | .ok ds => if l.messages.isEmpty then .ok ds else .error (.invalid l.messages)

end VariableOrder
