import VariableOrder.Definition.Settings
import VariableOrder.Definition.Basic
import VariableOrder.Provider.Call

/-!
# Entries of a definition file

A static entry gives a variable its value. A dynamic entry is one candidate of a variable: it
names a provider, and all its fields that mean nothing else are parameters of that provider. The
filters of a dynamic entry are wrapped around the provider's call one after the other.
-/

set_option autoImplicit false

namespace VariableOrder

open Data (Value Record)
open Schema (Checked)

/-- The two kinds of entries. -/
inductive EntryKind where
  | static
  | dynamic
  deriving DecidableEq, Repr

/-- How messages call an entry of a kind. -/
def EntryKind.text : EntryKind → String
  | .static => "Static variable"
  | .dynamic => "Dynamic variable"

/-- The place that messages about an accepted entry name. -/
def EntryKind.context (kind : EntryKind) (name : String) : String :=
  kind.text ++ " '" ++ name ++ "'"

/-- Why an entry is not accepted: what was found in it, or why its value is no expression. -/
inductive Refusal where
  | invalid (kind : EntryKind) (position : Nat) (findings : List Schema.Finding)
  | call (f : CallFailure)

/-- The wording of a refusal. -/
def Refusal.message : Refusal → String
  | .invalid kind position findings =>
    kind.text ++ " #" ++ toString position ++ ": " ++ Schema.findingsText findings
  | .call f => f.message

/-- A static entry. -/
structure StaticEntry where
  name : String
  value : Value
  condition : Option String

/-- A dynamic entry. -/
structure DynamicEntry where
  name : String
  provider : Option String
  value : Value
  condition : Option String
  checkOnce : Bool
  ignoreFailure : Bool
  autoUnset : Bool
  filters : List (List (String × Record Value))
  parameters : Record Value

namespace StaticEntry

/-- The fields of a static entry. -/
def fieldNames : List String := ["name", "value", "condition"]

/-- Checks for a static entry. -/
def ofFields (entries : Record Value) : Checked StaticEntry :=
  let name := Schema.required entries "name" Schema.checkName
  let value := Schema.defaulted entries "value" (.text "") Schema.checkAny
  let condition := Schema.defaulted entries "condition" none Schema.checkOptionalText
  let others := Schema.forbidOthers entries fieldNames
  match name, value, condition, others with
  | .ok name, .ok value, .ok condition, [] => .ok ⟨name, value, condition⟩
  | name, value, condition, others =>
    .error (name.findings ++ value.findings ++ condition.findings ++ others)

/-- The candidate of a static entry. -/
def candidate (c : Catalogue) (e : StaticEntry) : Except CallFailure Candidate := do
  let value ← c.build (EntryKind.static.context e.name) e.value
  return { value := value, condition := e.condition }

/-- The name and the candidate of the entry at a position. -/
def read (c : Catalogue) (position : Nat) (entries : Record Value) :
    Except Refusal (String × Candidate) :=
  match ofFields entries with
  | .error findings => .error (.invalid .static position findings)
  | .ok e => ((e.candidate c).mapError .call).map fun candidate => (e.name, candidate)

end StaticEntry

namespace DynamicEntry

/-- The fields of a dynamic entry that are no parameters of its provider. -/
def fieldNames : List String :=
  ["name", "provider", "value", "condition", "checkonce", "ignorefailure", "unset", "filters"]

/-- The entries that are parameters of the provider. -/
def otherFields (entries : Record Value) : Record Value :=
  entries.filter fun e => Schema.isOther fieldNames e.1

/-- Checks for a dynamic entry. -/
def ofFields (entries : Record Value) : Checked DynamicEntry :=
  let name := Schema.required entries "name" Schema.checkName
  let provider := Schema.defaulted entries "provider" none Schema.checkOptionalText
  let value := Schema.defaulted entries "value" .null Schema.checkAny
  let condition := Schema.defaulted entries "condition" none Schema.checkOptionalText
  let checkOnce := Schema.defaulted entries "checkonce" false Schema.checkFlag
  let ignoreFailure := Schema.defaulted entries "ignorefailure" true Schema.checkFlag
  let autoUnset := Schema.defaulted entries "unset" true Schema.checkFlag
  let filters := Schema.defaulted entries "filters" []
    (Schema.checkList (Schema.checkRecord Schema.checkFields))
  let others := Schema.badKeys entries
  match name, provider, value, condition, checkOnce, ignoreFailure, autoUnset, filters, others with
  | .ok name, .ok provider, .ok value, .ok condition, .ok checkOnce, .ok ignoreFailure,
      .ok autoUnset, .ok filters, [] =>
    .ok { name := name, provider := provider, value := value, condition := condition
          checkOnce := checkOnce, ignoreFailure := ignoreFailure, autoUnset := autoUnset
          filters := filters, parameters := otherFields entries }
  | name, provider, value, condition, checkOnce, ignoreFailure, autoUnset, filters, others =>
    .error (name.findings ++ provider.findings ++ value.findings ++ condition.findings
      ++ checkOnce.findings ++ ignoreFailure.findings ++ autoUnset.findings ++ filters.findings
      ++ others)

/-- The provider that an entry names; without a name it is the one for plain values. -/
def kind (e : DynamicEntry) : String :=
  match e.provider with
  | some name => if name = "" then "value" else name
  | none => "value"

/-- The raw parameters of the entry's provider. -/
def providerParameters (e : DynamicEntry) : Record Value :=
  if e.value.isNull then e.parameters else e.parameters ++ [(.text "value", e.value)]

/-- The expression of a dynamic entry. -/
def expression (c : Catalogue) (e : DynamicEntry) : Except CallFailure Expr := do
  let context := EntryKind.dynamic.context e.name
  let call ← c.call e.kind (c.params e.providerParameters) context
  e.filters.foldlM (fun value filter => c.filter value filter context) call

/-- The candidate of a dynamic entry. -/
def candidate (c : Catalogue) (e : DynamicEntry) : Except CallFailure Candidate := do
  let value ← e.expression c
  return { value := value, condition := e.condition, checkOnce := e.checkOnce
           ignoreFailure := e.ignoreFailure, autoUnset := e.autoUnset }

/-- The name and the candidate of the entry at a position. -/
def read (c : Catalogue) (position : Nat) (entries : Record Value) :
    Except Refusal (String × Candidate) :=
  match ofFields entries with
  | .error findings => .error (.invalid .dynamic position findings)
  | .ok e => ((e.candidate c).mapError .call).map fun candidate => (e.name, candidate)

end DynamicEntry

end VariableOrder
