import VariableOrder.Expression.Basic
import VariableOrder.Provider.Catalogue

/-!
# From raw parameters to provider calls

A raw value becomes an expression: a scalar is an expression text, and a record that names a
provider is a call of it, whose parameters are raw values again. A provider first looks at all its
parameters and then builds them in its own order. What is wrong with the data is a problem, told
with the place where it was found; a few shapes of data break a rule that everything else relies
on, and these are faults. So is a call that is a parameter of itself.
-/

set_option autoImplicit false

namespace VariableOrder

open Data (Value Record)

/-- What is wrong with raw data that should become an expression. -/
inductive CallProblem where
  | parameters (provider : Provider) (problems : List Provider.Problem)
  | unknownProvider (kind : String) (available : List String)
  | unnamedProvider
  | listNotAllowed
  | filterKeys (keys : List String)
  | numberTooLong
  deriving DecidableEq, Repr

/-- Shapes of raw data that break a rule about names, or have no end. -/
inductive CallFault where
  | collectionAsName (typeName : String)
  | mixedNames (left right : String)
  | dayBesideMoment
  | mixedOffsets
  | nameNotText (typeName : String)
  | endless
  deriving DecidableEq, Repr

/-- Why a raw value is no expression: a problem at some place, or a fault. -/
inductive CallFailure where
  | problem (context : String) (p : CallProblem)
  | fault (f : CallFault)
  deriving DecidableEq, Repr

/-- The wording of a problem. -/
def CallProblem.message : CallProblem → String
  | .parameters provider problems =>
    String.intercalate " " (problems.map provider.problemMessage)
  | .unknownProvider kind available =>
    "Unknown provider '" ++ kind ++ "'. Available providers: " ++ Text.commaList available ++ "."
  | .unnamedProvider => "A nested mapping must name its 'provider'."
  | .listNotAllowed => "A list is not allowed here."
  | .filterKeys keys =>
    "Each filter must have exactly one type key, got ["
      ++ Text.commaList (keys.map Text.quoted) ++ "]."
  | .numberTooLong =>
    "Exceeds the limit (4300 digits) for integer string conversion; use "
      ++ "sys.set_int_max_str_digits() to increase the limit"

/-- The wording of a fault. -/
def CallFault.message : CallFault → String
  | .collectionAsName typeName => "unhashable type: '" ++ typeName ++ "'"
  | .mixedNames left right =>
    "'<' not supported between instances of '" ++ left ++ "' and '" ++ right ++ "'"
  | .dayBesideMoment => "can't compare datetime.datetime to datetime.date"
  | .mixedOffsets => "can't compare offset-naive and offset-aware datetimes"
  | .nameNotText typeName =>
    "sequence item 0: expected str instance, " ++ typeName ++ " found"
  | .endless => "maximum recursion depth exceeded"

/-- The wording of a failure. A problem is told behind its place, unless it is about a number that
can not be written at all. -/
def CallFailure.message : CallFailure → String
  | .problem context p =>
    match p with
    | .numberTooLong => p.message
    | _ => context ++ ": " ++ p.message
  | .fault f => f.message

/-- A raw parameter: what can be seen of it at once, and how it becomes an expression at a place
that is told, as a single value and as a list of items. -/
structure Param where
  isNull : Bool
  text? : Option String
  isList : Bool
  single : String → Except CallFailure Expr
  items : List (String → Except CallFailure Expr)

namespace Param

/-- The parameter under a name, if there is one that is not null. -/
def given? (raw : Record Param) (name : String) : Option Param :=
  (Record.get? raw name).filter fun p => !p.isNull

/-- The kinds of names that can be put into an order with each other. -/
def nameClass : Value → Nat
  | .flag _ | .integer _ | .fraction _ => 1
  | .text _ => 2
  | .bytes _ => 3
  | .day _ => 4
  | .moment m => if m.offset.isSome then 5 else 6
  | _ => 0

/-- The name that is a whole number, where the truth values count as zero and one. -/
def wholeName? : Value → Option Int
  | .flag b => some (if b then 1 else 0)
  | .integer n => some n
  | _ => none

/-- Whether a name that is a number is less than another one. -/
def isLess (a b : Value) : Bool :=
  match wholeName? a, wholeName? b, a, b with
  | some m, some n, _, _ => m < n
  | some m, none, _, .fraction y => Number.isBelow m y
  | none, some n, .fraction x, _ => Number.isAbove n x
  | _, _, .fraction x, .fraction y => x < y
  | _, _, _, _ => false

/-- The least of some names that are numbers. -/
def leastName (first : Value) (others : List Value) : Value :=
  others.foldl (fun least v => if isLess v least then v else least) first

/-- The fault of two names that can not be put into an order with each other. -/
def unorderedFault (first v : Value) : CallFault :=
  match first, v with
  | .moment _, .moment _ => .mixedOffsets
  | .day _, .moment _ => .dayBesideMoment
  | .moment _, .day _ => .dayBesideMoment
  | _, _ => .mixedNames v.typeName first.typeName

/-- The fault that names make that are not all texts, if they are not. -/
def namesFault? : List Value → Option CallFault
  | [] => none
  | first :: others =>
    match others.find? fun v => nameClass v != nameClass first with
    | some v => some (unorderedFault first v)
    | none =>
      if nameClass first = 2 then none
      else some (.nameNotText (leastName first others).typeName)

/-- The texts among some names. -/
def nameTexts (names : List Value) : List String :=
  names.filterMap fun
    | .text s => some s
    | _ => none

end Param

namespace Provider

/-- The names of raw parameters that the provider does not accept, ascending. -/
def unknownParams (p : Provider) (raw : Record Param) : Except CallFault (List String) :=
  let unknown := (raw.map (·.1)).filter fun key => !p.paramNames.any fun name => key.isText name
  match Param.namesFault? unknown with
  | some fault => .error fault
  | none => .ok (Text.sortedNames (Param.nameTexts unknown))

/-- The required parameters that are not given. -/
def missingParams (p : Provider) (raw : Record Param) : List String :=
  p.required.filter fun name => (Param.given? raw name).isNone

/-- The problem of one parameter with allowed texts. A text with a dollar sign may stand for any
text, so it is let through. -/
def choiceProblem? (raw : Record Param) (choice : String × List String) : Option Problem := do
  let text ← (← Record.get? raw choice.1).text?
  if text.toList.contains '$' || choice.2.contains text then none
  else some (.notAllowed choice.1 choice.2 text)

/-- The parameters that are lists but have to be single values. -/
def listedSingles (p : Provider) (raw : Record Param) : List String :=
  p.paramNames.filter fun name =>
    !p.list.contains name && ((Record.get? raw name).map (·.isList)).getD false

/-- All that is wrong with raw parameters. -/
def problems (p : Provider) (raw : Record Param) : Except CallFault (List Problem) := do
  let missing := p.missingParams raw
  let unknown ← p.unknownParams raw
  return (if missing.isEmpty then [] else [.missing missing])
    ++ (if unknown.isEmpty then [] else [.unknown unknown])
    ++ p.choices.filterMap (choiceProblem? raw)
    ++ (p.listedSingles raw).map .notSingle

/-- The argument that a given parameter becomes, with its name. -/
def argument (p : Provider) (context : String) (given : String × Param) :
    Except CallFailure (String × Argument) := do
  let place := context ++ ", " ++ given.1
  if p.list.contains given.1 then
    let items ← given.2.items.zipIdx.mapM fun (build, i) =>
      build (place ++ "[" ++ toString i ++ "]")
    return (given.1, .many items)
  else
    let e ← given.2.single place
    return (given.1, .single e)

/-- The call of the provider with raw parameters. -/
def call (p : Provider) (raw : Record Param) (context : String) : Except CallFailure Expr :=
  match p.problems raw with
  | .error fault => .error (.fault fault)
  | .ok [] => do
    let given := p.paramNames.filterMap fun name => (Param.given? raw name).map fun v => (name, v)
    let arguments ← given.mapM (p.argument context)
    return .call p.typeName arguments
  | .ok (first :: others) => .error (.problem context (.parameters p (first :: others)))

end Provider

namespace Catalogue

/-- The call of the provider that a name stands for. -/
def call (c : Catalogue) (kind : String) (raw : Record Param) (context : String) :
    Except CallFailure Expr :=
  match c.get? kind with
  | some p => p.call raw context
  | none => .error (.problem context (.unknownProvider kind c.names))

/-- The call that a record makes, given what it says about its provider and its other fields. -/
def nestedCall (c : Catalogue) (kind? : Option Value) (raw : Record Param) (context : String) :
    Except CallFailure Expr :=
  match kind? with
  | none => .error (.problem context .unnamedProvider)
  | some kind =>
    if !kind.isPresent then .error (.problem context .unnamedProvider)
    else if !kind.isKey then .error (.fault (.collectionAsName kind.growingName))
    else
      match kind with
      | .text s => c.call s raw context
      | v =>
        if v.isWritable then .error (.problem context (.unknownProvider v.plain c.names))
        else .error (.problem context .numberTooLong)

/-- The key that names the provider of a record. -/
def providerKey : String := "provider"

/-- The expression of a scalar. -/
def scalarExpr (v : Value) (context : String) : Except CallFailure Expr :=
  match v with
  | .null => .ok (.ofText "")
  | .flag b => .ok (.ofText (if b then "true" else "false"))
  | v => if v.isWritable then .ok (.ofText v.plain) else .error (.problem context .numberTooLong)

/-- What can be seen of a raw value, with the ways to build it. -/
def paramOf (v : Value) (single : String → Except CallFailure Expr)
    (items : List (String → Except CallFailure Expr)) : Param :=
  { isNull := v.isNull
    text? := match v with
      | .text s => some s
      | _ => none
    isList := match v with
      | .list _ => true
      | .again .list => true
      | _ => false
    single := single
    items := items }

mutual

/-- The expression of a raw value at a place. -/
def build (c : Catalogue) (context : String) : Value → Except CallFailure Expr
  | .record entries =>
    c.nestedCall (Record.get? entries providerKey) (Record.without (c.params entries) providerKey)
      context
  | .list _ => .error (.problem context .listNotAllowed)
  | .again .list => .error (.problem context .listNotAllowed)
  | .again .record => .error (.fault .endless)
  | v => scalarExpr v context

/-- The ways to build the items of a list. -/
def builders (c : Catalogue) : List Value → List (String → Except CallFailure Expr)
  | [] => []
  | v :: rest => (fun context => c.build context v) :: c.builders rest

/-- The raw parameters of a record; a value that is no list counts as its only item. -/
def params (c : Catalogue) : List (Value × Value) → Record Param
  | [] => []
  | (key, v) :: rest =>
    let single := fun context => c.build context v
    let items :=
      match v with
      | .list items => c.builders items
      | .again .list => [fun _ => .error (.fault .endless)]
      | _ => [single]
    (key, paramOf v single items) :: c.params rest

end

/-- The raw parameter of an expression that is built already. -/
def builtParam (e : Expr) : Param :=
  { isNull := false, text? := none, isList := false, single := fun _ => .ok e
    items := [fun _ => .ok e] }

/-- The parameter of a filter that holds what is filtered. -/
def filterInput : String := "input"

/-- The name of the provider for a type of filter. -/
def filterKind (type : String) : String :=
  "filter." ++ type

/-- An expression with a filter around it. The filter is given as a record with one field, whose
name is the type of the filter and whose value holds its parameters. -/
def filter (c : Catalogue) (e : Expr) (raw : List (String × List (Value × Value)))
    (context : String) : Except CallFailure Expr :=
  match raw with
  | [(type, parameters)] =>
    c.call (filterKind type)
      (Record.put (.text filterInput) (builtParam e) (c.params parameters)) context
  | _ => .error (.problem context (.filterKeys (Text.sortedNames (raw.map (·.1)))))

end Catalogue

end VariableOrder
