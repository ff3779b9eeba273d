import VariableOrder.CommandLine.Arguments
import VariableOrder.Definition.Source
import VariableOrder.Log.Resolution
import VariableOrder.Order.Report
import VariableOrder.Order.Writing
import VariableOrder.Text.Filled

/-!
# Running the command

A run reads a definition file, orders the variables under the settings of the file and of the
command line, and writes the resource. The output is not opened unless all before that succeeds;
then it is emptied, and stays empty if the resource can not be printed. Most failures are told in
one complaint; a few are no matter of the definitions or of the files and break the run off.
-/

set_option autoImplicit false

namespace VariableOrder.CommandLine

open Data (Value)

/-- What a run has told at its end, and its exit code. -/
structure Output where
  exit : Nat
  out : String
  err : String
  deriving DecidableEq, Repr

/-- Why a run fails. -/
inductive RunFailure where
  | noLevel
  | notPath (v : Value)
  | definitions (f : Definition.FileFailure)
  | settings (findings : List Schema.Finding)
  | resolution (f : ResolveFailure)
  | output (path : String) (f : Files.Failure)
  | document (f : DocumentFailure)

/-- How a run ends: it finishes, or a failure without a complaint breaks it off. -/
inductive Ending where
  | finished (o : Output)
  | broken (err : String) (f : RunFailure)

namespace RunFailure

/-- The message about settings that are refused. -/
def settingsMessage (findings : List Schema.Finding) : String :=
  "Invalid command line settings: " ++ Schema.findingsText findings

/-- The wording of a failure. -/
def message : RunFailure → String
  | .noLevel => "attribute name must be string, not '" ++ Options.dividerValue.typeName ++ "'"
  | .notPath v => "expected str, bytes or os.PathLike object, not " ++ v.typeName
  | .definitions f => f.message
  | .settings findings => (Definition.LoadFailure.invalid [settingsMessage findings]).message
  | .resolution f => f.message
  | .output _ f => f.message
  | .document f => f.message

/-- Whether a failure is a matter of the definitions. -/
def isAboutDefinitions : RunFailure → Bool
  | .definitions f => f.messages?.isSome
  | .settings _ => true
  | .resolution (.build (.duplicate _ _ _)) => true
  | .resolution (.emit (.deadlock _)) => true
  | _ => false

/-- The complaint about a failure, if it is told in one. -/
def complaint? (f : RunFailure) : Option String :=
  if f.isAboutDefinitions then some ("\nCompilation failed: " ++ f.message ++ "\n")
  else
    match f with
    | .output path (.refused _ _) =>
      some ("\nCould not write '" ++ path ++ "': " ++ f.message ++ "\n")
    | _ => none

/-- The end of a run that failed behind some log lines. -/
def ending (log : String) (f : RunFailure) : Ending :=
  match f.complaint? with
  | some text => .finished ⟨1, "", log ++ text⟩
  | none => .broken log f

end RunFailure

/-- The ordering of a run: its log, and the ordered variables if it succeeds. -/
structure Compilation where
  entries : List LogEntry
  outcome : Except RunFailure Ordered

namespace Options

/-- The definitions of some entries under the settings of the command line. -/
def definitionsOf (o : Options) (raw : Data.Record Value) : Except RunFailure Definitions := do
  let ds ← (Definition.load .standard [] raw).definitions?.mapError fun f => .definitions (.load f)
  let settings ← (ds.settings.extended o.external o.workers).mapError .settings
  return { ds with settings := settings }

/-- Orders the definitions of a file with the given content. -/
def compile (o : Options) (path : String) (content : Except Files.Failure (List UInt8)) :
    Compilation :=
  match Definition.source path content with
  | .error f => ⟨[], .error (.definitions (.source f))⟩
  | .ok raw =>
    match o.definitionsOf raw with
    | .error f => ⟨Catalogue.standardEntries, .error f⟩
    | .ok ds =>
      let ⟨external, workers⟩ := ds.settings
      ⟨Catalogue.standardEntries ++ resolveEntries ds.definitions external workers,
        (resolve ds.definitions external workers).mapError .resolution⟩

/-- The text that a path is given by. -/
def pathOf : Value → Except RunFailure String
  | .text path => .ok path
  | v => .error (.notPath v)

/-- What is told on success. -/
def successText (o : Options) (source target : String) (ordered : Ordered) : String :=
  (if o.report then ordered.report source ++ "\n" else "")
    ++ "Successfully wrote " ++ toString ordered.definitions.length ++ " ordered variables to: "
    ++ target ++ "\n"

end Options

/-- A run whose resource is ready to be written. -/
structure Ready where
  log : String
  target : String
  ordered : Ordered
  success : String

namespace Ready

/-- The end of a run after writing its resource. -/
def ending (r : Ready) : Option WriteFailure → Ending
  | none => .finished ⟨0, r.success, r.log⟩
  | some (.file f) => (RunFailure.output r.target f).ending r.log
  | some (.document f) => (RunFailure.document f).ending r.log

end Ready

namespace Options

/-- The level from which on log entries are shown, and the path of the definition file. -/
def start (o : Options) : Except Ending (LogLevel × String) :=
  match o.level with
  | none => .error (RunFailure.noLevel.ending "")
  | some level => ((pathOf o.definitions).mapError fun f => f.ending "").map fun p => (level, p)

/-- All of a run between reading and writing. -/
def prepare (o : Options) (level : LogLevel) (source : String)
    (content : Except Files.Failure (List UInt8)) : Except Ending Ready := do
  let c := o.compile source content
  let log := LogEntry.lines level c.entries
  let ordered ← c.outcome.mapError fun f => f.ending log
  let target ← (pathOf o.output).mapError fun f => f.ending log
  return ⟨log, target, ordered, o.successText source target ordered⟩

/-- Runs in a file tree, with a printer that has the given room. -/
def runIn (room : Nat) (o : Options) (t : Files.Tree) : Files.Tree × Ending :=
  match o.start with
  | .error e => (t, e)
  | .ok (level, source) =>
    match o.prepare level source (Files.Access.read t source) with
    | .error e => (t, e)
    | .ok r =>
      let (t, failure) := r.ordered.write room t r.target
      (t, r.ending failure)

end Options

/-- How the command is called. -/
def usage : String :=
  "usage: dynvar-order [-h] [--definitions DEFINITIONS] [--output OUTPUT]\n"
    ++ "                    [--report] [--external NAME] [--workers WORKERS]\n"
    ++ "                    [--log-level " ++ Switch.levelChoices ++ "]\n"

/-- The lines about an option: how it is called, and behind that or below it what it means, in lines
for a terminal of eighty columns. -/
def Switch.row (host : Host) (s : Switch) : String :=
  let behind := fun line => String.ofList (List.replicate 24 ' ') ++ line ++ "\n"
  let head := "  " ++ s.called
  match Text.filled 54 (s.explanation host) with
  | [] => head ++ "\n"
  | first :: rest =>
    let lines := String.join (rest.map behind)
    if s.called.length ≤ 20 then
      head ++ String.ofList (List.replicate (22 - s.called.length) ' ') ++ first ++ "\n" ++ lines
    else head ++ "\n" ++ behind first ++ lines

/-- What the command does and what its options mean. -/
def helpText (host : Host) : String :=
  usage ++ "\nComputes the evaluation order of an installer's dynamic variables.\n\noptions:\n"
    ++ String.join (Switch.all.map (Switch.row host))

/-- The line about arguments that are refused. -/
def ArgumentFault.line (f : ArgumentFault) : String :=
  "dynvar-order: error: " ++ f.message

/-- What arguments ask for, or the end of the run that does nothing else. -/
def request (host : Host) (texts : List String) : Except Ending Options :=
  match Request.ofTexts host texts with
  | .error f => .error (.finished ⟨2, "", usage ++ f.line ++ "\n"⟩)
  | .ok .help => .error (.finished ⟨0, helpText host, ""⟩)
  | .ok (.run o) => .ok o

/-- Runs the command in a file tree. -/
def run (host : Host) (texts : List String) (t : Files.Tree) : Files.Tree × Ending :=
  match request host texts with
  | .error e => (t, e)
  | .ok o => o.runIn host.room t

end VariableOrder.CommandLine
