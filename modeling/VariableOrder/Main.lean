import VariableOrder.CommandLine.Run

/-!
# The command

The thin layer that reads and writes real files and streams around a run.
-/

set_option autoImplicit false

namespace VariableOrder.CommandLine

/-- The reason that the system gives. -/
def reasonOf : IO.Error → Files.Reason
  | .noFileOrDirectory _ _ _ => .notFound
  | .alreadyExists _ _ _ => .exists
  | .inappropriateType _ code details =>
    if code = 20 then .notDirectory
    else if code = 21 then .isDirectory
    else .other code.toNat details
  | .permissionDenied _ code _ => .other code.toNat "Permission denied"
  | e => .other 5 (toString e)

/-- Does something with a path and keeps the reason if the system refuses it. -/
def attempt {α : Type} (path : String) (act : String → IO α) : IO (Except Files.Failure α) := do
  if Files.Access.hasZero path then return .error .zeroCharacter
  try
    return .ok (← act path)
  catch e =>
    return .error (.refused (reasonOf e) path)

/-- Opens a file for writing and creates its directory before that, if it is missing. -/
def openFile (path : String) : IO IO.FS.Handle := do
  let (directory, _) := Files.Path.split path.toList
  if !directory.isEmpty then IO.FS.createDirAll (String.ofList directory)
  IO.FS.Handle.mk path .write

/-- Writes the document of a run to its output. -/
def Ready.write (room : Nat) (r : Ready) : IO (Option WriteFailure) := do
  match ← attempt r.target openFile with
  | .error f => return some (.file f)
  | .ok file =>
    match r.ordered.document? room with
    | .error f => return some (.document f)
    | .ok text =>
      file.putStr text
      return none

/-- Tells how a run has ended. -/
def report : Ending → IO UInt32
  | .finished o => do
    (← IO.getStderr).putStr o.err
    (← IO.getStdout).putStr o.out
    return UInt32.ofNat o.exit
  | .broken err f => do
    (← IO.getStderr).putStrLn (err ++ f.message)
    return 1

/-- Runs with the real files. -/
def Options.perform (room : Nat) (o : Options) : IO Ending := do
  match o.start with
  | .error e => return e
  | .ok (level, source) =>
    let content ← attempt source fun path => return (← IO.FS.readBinFile path).toList
    match o.prepare level source content with
    | .error e => return e
    | .ok r => return r.ending (← r.write room)

/-- The host that the command runs on: it belongs to the directory above its own. -/
def currentHost : IO Host := do
  let (directory, _) := Files.Path.split (← IO.appPath).toString.toList
  let (root, _) := Files.Path.split directory
  return ⟨String.ofList root, Host.usualRoom⟩

end VariableOrder.CommandLine

/-- The command. -/
def main (texts : List String) : IO UInt32 := do
  let host ← VariableOrder.CommandLine.currentHost
  match VariableOrder.CommandLine.request host texts with
  | .error e => VariableOrder.CommandLine.report e
  | .ok o => VariableOrder.CommandLine.report (← o.perform host.room)
