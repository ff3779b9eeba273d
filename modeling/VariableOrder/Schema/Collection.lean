import VariableOrder.Schema.Scalar

/-!
# Checking collections

The items of a list and the entries of a record are all checked, so that every finding in them is
reported, each under its position or key. A record with known fields is checked in the order in
which the fields are declared; what is left over is reported afterwards, in the order of the
record.
-/

set_option autoImplicit false

namespace VariableOrder.Schema

open Data (Value Record)

variable {α : Type}

/-- The data that was understood, if everything was, and all findings otherwise. -/
def gather (outcomes : List (Checked α)) : Checked (List α) :=
  match outcomes.flatMap Checked.findings with
  | [] => outcomes.mapM id
  | findings => .error findings

/-- Checks the items of a list. -/
def checkItems (check : Value → Checked α) (items : List Value) : Checked (List α) :=
  gather (items.zipIdx.map fun (v, i) => (check v).under (toString i))

/-- Checks for a list; other collections that have an order of their own count as one. -/
def checkList (check : Value → Checked α) (v : Value) : Checked (List α) :=
  match v with
  | .list items => checkItems check items
  | .collection items => checkItems check items
  | .pair a b => checkItems check [a, b]
  | _ => .refuse .list

/-- Checks one entry of a record whose keys are texts. -/
def checkEntry (check : Value → Checked α) (entry : Value × Value) : Checked (String × α) :=
  Checked.under (keyLabel entry.1)
    (match (checkText entry.1).under "[key]", check entry.2 with
    | .ok key, .ok value => .ok (key, value)
    | key, value => .error (key.findings ++ value.findings))

/-- Puts a value under a text: in the place of an equal one, or else at the end. -/
def putText (key : String) (value : α) : List (String × α) → List (String × α)
  | [] => [(key, value)]
  | (k, v) :: rest => if k = key then (k, value) :: rest else (k, v) :: putText key value rest

/-- Checks for a record whose keys are texts. -/
def checkRecord (check : Value → Checked α) (v : Value) : Checked (List (String × α)) :=
  match v with
  | .record entries =>
    (gather (entries.map (checkEntry check))).map fun checked =>
      checked.foldl (fun done e => putText e.1 e.2 done) []
  | _ => .refuse .record

/-- Checks nothing. -/
def checkAny (v : Value) : Checked Value :=
  .ok v

/-- Checks for a record whose keys are texts and whose values may be anything. -/
def checkFields (v : Value) : Checked (Record Value) :=
  (checkRecord checkAny v).map fun fields => fields.map fun (k, v) => (.text k, v)

/-- Checks a field that has to be there. -/
def required (entries : Record Value) (name : String) (check : Value → Checked α) : Checked α :=
  match entries.get? name with
  | some v => (check v).under name
  | none => Checked.under name (.refuse .missing)

/-- Checks a field that has a default. -/
def defaulted (entries : Record Value) (name : String) (standard : α)
    (check : Value → Checked α) : Checked α :=
  match entries.get? name with
  | some v => (check v).under name
  | none => .ok standard

/-- Whether a key is none of the given names. -/
def isOther (names : List String) (key : Value) : Bool :=
  !names.any fun name => key.isText name

/-- Whether a key is a text. -/
def isTextKey : Value → Bool
  | .text _ => true
  | _ => false

/-- The findings about entries that are no declared field, where none is permitted. -/
def forbidOthers (entries : Record Value) (names : List String) : List Finding :=
  (entries.filter fun e => isOther names e.1).map fun e =>
    ⟨[keyLabel e.1], if isTextKey e.1 then .notExpected else .keyNotText⟩

/-- The findings about keys that are no texts. -/
def badKeys (entries : Record Value) : List Finding :=
  (entries.filter fun e => !isTextKey e.1).map fun e => ⟨[keyLabel e.1], .keyNotText⟩

end VariableOrder.Schema
