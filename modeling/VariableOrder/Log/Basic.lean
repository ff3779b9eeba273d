/-!
# Log entries

What a run says about itself besides its results. Each entry has a level, and only the entries
from a chosen level on are shown.
-/

set_option autoImplicit false

namespace VariableOrder

/-- How much an entry matters. -/
inductive LogLevel where
  | debug
  | info
  | warning
  | error
  deriving DecidableEq, Repr

namespace LogLevel

/-- The levels, ascending. -/
def all : List LogLevel :=
  [.debug, .info, .warning, .error]

/-- The name of a level. -/
def name : LogLevel → String
  | .debug => "DEBUG"
  | .info => "INFO"
  | .warning => "WARNING"
  | .error => "ERROR"

/-- The level that counts unless another one is chosen. -/
def standard : LogLevel := .warning

/-- The level with a name. -/
def ofName? (name : String) : Option LogLevel :=
  all.find? fun l => l.name == name

/-- The place of a level among all levels. -/
def rank : LogLevel → Nat
  | .debug => 0
  | .info => 1
  | .warning => 2
  | .error => 3

end LogLevel

/-- The parts of a run that write entries. -/
inductive LogSource where
  | catalogue
  | graph
  | order
  | resolution
  deriving DecidableEq, Repr

/-- The name of a part. -/
def LogSource.name : LogSource → String
  | .catalogue => "dynvar_resolver.provider_manager"
  | .graph => "dynvar_resolver.graph"
  | .order => "dynvar_resolver.sorter"
  | .resolution => "dynvar_resolver.resolver"

/-- An entry of the log. -/
structure LogEntry where
  level : LogLevel
  source : LogSource
  message : String
  deriving DecidableEq, Repr

namespace LogEntry

/-- The line of an entry. -/
def line (e : LogEntry) : String :=
  e.level.name ++ " " ++ e.source.name ++ ": " ++ e.message ++ "\n"

/-- The lines of the entries from a level on. -/
def lines (least : LogLevel) (entries : List LogEntry) : String :=
  String.join ((entries.filter fun e => least.rank ≤ e.level.rank).map line)

end LogEntry

end VariableOrder
