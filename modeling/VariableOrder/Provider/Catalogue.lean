import VariableOrder.Provider.Basic

/-!
# The catalogue of providers

Providers are found by their own name and by their other names. A provider that is added later
takes over the names that it shares with earlier ones. Further providers come from plugins; a
plugin that fails to load leaves the catalogue as it is and is only logged.
-/

set_option autoImplicit false

namespace VariableOrder

/-- Names with the providers that they stand for. -/
structure Catalogue where
  entries : List (String × Provider)
  deriving DecidableEq, Repr

namespace Catalogue

/-- Lets a name stand for a provider. -/
def put (name : String) (p : Provider) : List (String × Provider) → List (String × Provider)
  | [] => [(name, p)]
  | (n, q) :: rest => if n = name then (n, p) :: rest else (n, q) :: put name p rest

/-- Adds a provider under all its names. -/
def register (c : Catalogue) (p : Provider) : Catalogue :=
  ⟨p.names.foldl (fun entries name => put name p entries) c.entries⟩

/-- The provider that a name stands for. -/
def get? (c : Catalogue) (name : String) : Option Provider :=
  (c.entries.find? fun e => e.1 == name).map (·.2)

/-- The names that stand for a provider, ascending. -/
def names (c : Catalogue) : List String :=
  Text.sortedNames (c.entries.map (·.1))

/-- The kinds of configuration files. -/
def fileKinds : List String :=
  ["options", "ini", "xml"]

/-- The providers that are always there, in the order in which they are added. -/
def standardProviders : List Provider := [
  { typeName := "value", aliases := [], required := ["value"], optional := [], list := []
    choices := [] },
  { typeName := "environment", aliases := ["env"], required := ["name"], optional := []
    list := [], choices := [] },
  { typeName := "file", aliases := [], required := ["file"], optional := ["encoding"], list := []
    choices := [] },
  { typeName := "configfile", aliases := [], required := ["file", "key"]
    optional := ["type", "section", "escape"], list := [], choices := [("type", fileKinds)] },
  { typeName := "zipfile", aliases := [], required := ["file", "entry", "key"]
    optional := ["type", "section", "escape"], list := [], choices := [("type", fileKinds)] },
  { typeName := "jarfile", aliases := ["jar"], required := ["file", "entry", "key"]
    optional := ["type", "section", "escape"], list := [], choices := [("type", fileKinds)] },
  { typeName := "regkey", aliases := ["registry"], required := ["key"]
    optional := ["value", "root"], list := [], choices := [] },
  { typeName := "regvalue", aliases := [], required := ["key", "value"], optional := ["root"]
    list := [], choices := [] },
  { typeName := "executable", aliases := [], required := ["executable"]
    optional := ["dir", "type", "stderr"], list := ["args"]
    choices := [("type", ["process", "shell"]), ("stderr", ["true", "false"])] },
  { typeName := "filter.regex", aliases := [], required := ["input", "regexp"]
    optional := ["select", "replace", "default", "casesensitive", "global"], list := []
    choices := [] },
  { typeName := "filter.location", aliases := [], required := ["input"], optional := ["basedir"]
    list := [], choices := [] }]

/-- The catalogue of the providers that are always there. -/
def standard : Catalogue :=
  standardProviders.foldl register ⟨[]⟩

/-- A plugin: its name, and the provider that it yields or the reason why it fails. -/
structure Plugin where
  name : String
  outcome : Except String Provider

/-- What the log says about a plugin. -/
inductive PluginNote where
  | registered (plugin typeName : String)
  | failed (plugin reason : String)
  deriving DecidableEq, Repr

/-- The wording of a note. -/
def PluginNote.message : PluginNote → String
  | .registered plugin typeName =>
    "Registered provider plugin '" ++ plugin ++ "' for type: '" ++ typeName ++ "'"
  | .failed plugin reason => "Could not load provider '" ++ plugin ++ "': " ++ reason

/-- Adds the provider of a plugin, if it yields one. -/
def install (c : Catalogue) (plugin : Plugin) : Catalogue :=
  match plugin.outcome with
  | .ok p => c.register p
  | .error _ => c

/-- What the log says about a plugin. -/
def Plugin.note (plugin : Plugin) : PluginNote :=
  match plugin.outcome with
  | .ok p => .registered plugin.name p.typeName
  | .error reason => .failed plugin.name reason

/-- The catalogue with the providers of all plugins. -/
def discover (plugins : List Plugin) : Catalogue :=
  plugins.foldl install standard

end Catalogue

end VariableOrder
