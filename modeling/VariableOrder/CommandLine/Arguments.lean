import VariableOrder.Data.Value
import VariableOrder.Log.Basic
import VariableOrder.Number.Integer
import VariableOrder.Order.Document
import VariableOrder.Text.Names
import VariableOrder.Text.Quoted

/-!
# Arguments

The arguments of the command are options, of which some take a value. A value stands behind an
equals sign or is the next argument; a long option may be cut short as long as it is the only one
that starts so. The arguments are told apart first, all of them, and then taken one by one, so a
help request or a wrong value counts only if no option is ambiguous. What is no option and no
value is refused at the end.
-/

set_option autoImplicit false

namespace VariableOrder.CommandLine

open Data (Value)

/-- What the command finds where it runs: the directory that it belongs to, and how many collections
within each other its printer has room for. -/
structure Host where
  root : String
  room : Nat
  deriving Repr

namespace Host

/-- How many collections within each other a printer has room for as a rule. -/
def usualRoom : Nat := 320

/-- The path of a file in a directory of the command. -/
def path (host : Host) (name : String) : String :=
  if host.root.endsWith "/" then host.root ++ name else host.root ++ "/" ++ name

/-- The definition file that is read unless another one is given. -/
def definitions (host : Host) : String :=
  host.path "inputs/variables.yaml"

/-- The path that is written to unless another one is given. -/
def output (host : Host) : String :=
  host.path ("outputs/" ++ resourceName ++ ".yaml")

end Host

/-- The options of the command. -/
inductive Switch where
  | help
  | definitions
  | output
  | report
  | external
  | workers
  | logLevel
  deriving DecidableEq, Repr

namespace Switch

/-- The options in the order in which they are listed. -/
def all : List Switch :=
  [.help, .definitions, .output, .report, .external, .workers, .logLevel]

/-- The long name of an option. -/
def name : Switch → String
  | .help => "--help"
  | .definitions => "--definitions"
  | .output => "--output"
  | .report => "--report"
  | .external => "--external"
  | .workers => "--workers"
  | .logLevel => "--log-level"

/-- The only short name, which stands for help. -/
def shortHelp : String := "-h"

/-- All names of an option, as they are told. -/
def shown : Switch → String
  | .help => shortHelp ++ "/--help"
  | s => s.name

/-- Whether an option takes a value. -/
def takesValue : Switch → Bool
  | .help | .report => false
  | _ => true

/-- The option with a name. -/
def ofName? (name : String) : Option Switch :=
  if name = shortHelp then some .help else all.find? fun s => s.name == name

/-- The options whose long names start with some characters. -/
def startingWith (cs : List Char) : List Switch :=
  all.filter fun s => cs.isPrefixOf s.name.toList

/-- The levels of the log, as they are offered. -/
def levelChoices : String :=
  "\x7b" ++ ",".intercalate (LogLevel.all.map LogLevel.name) ++ "\x7d"

/-- How an option is called. -/
def called : Switch → String
  | .help => shortHelp ++ ", --help"
  | .definitions => "--definitions DEFINITIONS"
  | .output => "--output OUTPUT"
  | .report => "--report"
  | .external => "--external NAME"
  | .workers => "--workers WORKERS"
  | .logLevel => "--log-level " ++ levelChoices

/-- What an option means. -/
def meaning : Switch → String
  | .help => "show this help message and exit"
  | .definitions => "Path to the YAML variable definition file."
  | .output => "Path of the ordered variables resource to write."
  | .report => "Print the computed ordering to stdout."
  | .external => "A variable provided at install time; may be repeated."
  | .workers => "Number of threads used to extract variable references."
  | .logLevel => "Logging verbosity."

/-- What is told as the value of an option that is not given. -/
def standard? (host : Host) : Switch → Option String
  | .help => none
  | .definitions => some host.definitions
  | .output => some host.output
  | .report => some "False"
  | .external => some "[]"
  | .workers => some "None"
  | .logLevel => some LogLevel.standard.name

/-- What is told about an option. -/
def explanation (host : Host) (s : Switch) : String :=
  match s.standard? host with
  | some value => s.meaning ++ " (default: " ++ value ++ ")"
  | none => s.meaning

end Switch

/-- Why arguments are refused. -/
inductive ArgumentFault where
  | ambiguous (argument : String) (candidates : List Switch)
  | missingValue (s : Switch)
  | needlessValue (s : Switch) (value : String)
  | notNumber (value : String)
  | unknownLevel (value : String)
  | unrecognized (arguments : List String)
  deriving DecidableEq, Repr

/-- The wording of a fault. -/
def ArgumentFault.message : ArgumentFault → String
  | .ambiguous argument candidates =>
    "ambiguous option: " ++ argument ++ " could match "
      ++ Text.commaList (candidates.map Switch.name)
  | .missingValue s => "argument " ++ s.shown ++ ": expected one argument"
  | .needlessValue s value =>
    "argument " ++ s.shown ++ ": ignored explicit argument " ++ Text.quoted value
  | .notNumber value =>
    "argument " ++ Switch.workers.shown ++ ": invalid int value: " ++ Text.quoted value
  | .unknownLevel value =>
    "argument " ++ Switch.logLevel.shown ++ ": invalid choice: " ++ Text.quoted value
      ++ " (choose from " ++ Text.commaList (LogLevel.all.map fun l => Text.quoted l.name) ++ ")"
  | .unrecognized arguments => "unrecognized arguments: " ++ String.intercalate " " arguments

/-- What an argument is taken for: a value or something without use, an option with or without
its value in the same argument, an option that does not exist, or the divider behind which no
option follows. -/
inductive Piece where
  | plain (text : String)
  | switch (s : Switch) (short : Bool) (value : Option String)
  | unknown (text : String)
  | divider
  deriving DecidableEq, Repr

namespace Piece

/-- The argument that separates options from what follows. -/
def dividerText : String := "--"

/-- Divides characters at the first equals sign. -/
def splitEquals (cs : List Char) : Option (List Char × List Char) :=
  if cs.contains '=' then some (cs.takeWhile (· != '='), (cs.dropWhile (· != '=')).drop 1)
  else none

/-- Whether characters are a negative number: digits, or digits around a point of which the ones
in front may be missing. One line feed may follow. -/
def isNegativeNumber (cs : List Char) : Bool :=
  let isDigit := fun c => (Number.decimalDigit? c).isSome
  let body := if cs.getLast? = some '\n' then cs.dropLast else cs
  match body with
  | '-' :: rest =>
    let back := rest.dropWhile isDigit
    match back with
    | [] => !rest.isEmpty
    | c :: places => c = '.' && !places.isEmpty && places.all isDigit
  | _ => false

/-- The short option with a value directly behind it. -/
def ofShort? (cs : List Char) : Option Piece :=
  match cs with
  | '-' :: 'h' :: value => some (.switch .help true (some (String.ofList value)))
  | _ => none

/-- An argument that starts with a dash and names no option in full. -/
def ofOther (text : String) (cs : List Char) : Piece :=
  match ofShort? cs with
  | some p => p
  | none =>
    if isNegativeNumber cs || cs.contains ' ' then .plain text else .unknown text

/-- An argument that starts with a dash and is no option to the letter. -/
def ofDashed (text : String) (cs : List Char) : Except ArgumentFault Piece :=
  let (name, value) :=
    match splitEquals cs with
    | some (name, value) => (name, some (String.ofList value))
    | none => (cs, none)
  match value.bind fun _ => Switch.ofName? (String.ofList name) with
  | some s => .ok (.switch s (String.ofList name = Switch.shortHelp) value)
  | none =>
    let candidates := if ['-', '-'].isPrefixOf cs then Switch.startingWith name else []
    match candidates with
    | [] => .ok (ofOther text cs)
    | [s] => .ok (.switch s false value)
    | many => .error (.ambiguous text many)

/-- Takes an argument for what it is. -/
def ofText (text : String) : Except ArgumentFault Piece :=
  match text.toList with
  | '-' :: rest =>
    match Switch.ofName? text with
    | some s => .ok (.switch s (text = Switch.shortHelp) none)
    | none => if rest.isEmpty then .ok (.plain text) else ofDashed text ('-' :: rest)
  | _ => .ok (.plain text)

/-- Tells the arguments apart. -/
def ofTexts : List String → Except ArgumentFault (List Piece)
  | [] => .ok []
  | text :: rest =>
    if text = dividerText then .ok (.divider :: rest.map .plain)
    else do
      let piece ← ofText text
      return piece :: (← ofTexts rest)

end Piece

/-- What the command is asked to do. Values are raw data, because the divider is no text when it
stands as a value, but an empty list. -/
structure Options where
  definitions : Value
  output : Value
  report : Bool := false
  external : List Value := []
  workers : Value := .null
  level : Option LogLevel := some .standard

/-- What arguments ask for. -/
inductive Request where
  | help
  | run (o : Options)

namespace Options

/-- The options before any argument is taken. -/
def initial (host : Host) : Options :=
  { definitions := .text host.definitions, output := .text host.output }

/-- What stands for the divider as a value. -/
def dividerValue : Value := .list []

/-- The raw data of a value. -/
def given (value : String) : Value :=
  if value = Piece.dividerText then dividerValue else .text value

/-- The count of workers that a value stands for. -/
def workersOf (value : String) : Except ArgumentFault Value :=
  if value = Piece.dividerText then .ok dividerValue
  else
    match Number.integer? 10 value.toList with
    | some n => .ok (.integer n)
    | none => .error (.notNumber value)

/-- The level that a value stands for; the divider stands for none. -/
def levelOf (value : String) : Except ArgumentFault (Option LogLevel) :=
  if value = Piece.dividerText then .ok none
  else
    match LogLevel.ofName? value with
    | some l => .ok (some l)
    | none => .error (.unknownLevel value)

/-- Takes the value of an option. -/
def setValue (o : Options) (s : Switch) (value : String) : Except ArgumentFault Options :=
  match s with
  | .definitions => .ok { o with definitions := given value }
  | .output => .ok { o with output := given value }
  | .external => .ok { o with external := o.external ++ [given value] }
  | .workers => (workersOf value).map fun v => { o with workers := v }
  | .logLevel => (levelOf value).map fun l => { o with level := l }
  | .help | .report => .ok o

/-- Takes help as a short option with characters behind it: all of them have to ask for help,
too. -/
def shortHelps (value : String) : Except ArgumentFault Request :=
  let behind := value.toList.dropWhile (· = 'h')
  if behind.isEmpty && !value.isEmpty then .ok .help
  else .error (.needlessValue .help (String.ofList behind))

/-- Takes the arguments one by one; those without use are kept. -/
def take (o : Options) (unused : List String) : List Piece → Except ArgumentFault Request
  | [] => if unused.isEmpty then .ok (.run o) else .error (.unrecognized unused)
  | .plain text :: rest => take o (unused ++ [text]) rest
  | .unknown text :: rest => take o (unused ++ [text]) rest
  | .divider :: rest => take o (unused ++ [Piece.dividerText]) rest
  | .switch .help _ none :: _ => .ok .help
  | .switch .help true (some value) :: _ => shortHelps value
  | .switch .report _ none :: rest => take { o with report := true } unused rest
  | .switch s _ (some value) :: rest =>
    if s.takesValue then do take (← o.setValue s value) unused rest
    else .error (.needlessValue s value)
  | .switch s _ none :: .plain value :: rest => do take (← o.setValue s value) unused rest
  | .switch s _ none :: _ => .error (.missingValue s)

end Options

/-- What the arguments of the command ask for. -/
def Request.ofTexts (host : Host) (texts : List String) : Except ArgumentFault Request := do
  (Options.initial host).take [] (← Piece.ofTexts texts)

end VariableOrder.CommandLine
