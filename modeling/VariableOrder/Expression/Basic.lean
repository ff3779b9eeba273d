import VariableOrder.Data.Shown
import VariableOrder.Placeholder.Parts
import VariableOrder.Text.Names

/-!
# Expressions

The value of a variable is an expression: an expression text with its parts, or a call of a
provider whose parameters are expressions again. What an expression needs is the set of its
references, gathered through every parameter of every nested call. A raw value that stands
where an expression belongs is kept as such and is reported by the first walk that meets it.
-/

set_option autoImplicit false

namespace VariableOrder

open Placeholder (Reference Part)

mutual

/-- An expression. -/
inductive Expr where
  | literal (text : String)
  | reference (r : Reference)
  | template (source : String) (parts : List Expr)
  | call (provider : String) (params : List (String × Argument))
  | unsupported (raw : Data.Value)

/-- The argument of a parameter: one expression or a list of them. -/
inductive Argument where
  | single (e : Expr)
  | many (items : List Expr)

end

/-- Empty literal text is an expression. -/
instance : Inhabited Expr := ⟨.literal ""⟩

/-- No expressions are an argument. -/
instance : Inhabited Argument := ⟨.many []⟩

namespace Expr

/-- A part of an expression text is an expression. -/
def ofPart : Part → Expr
  | .literal text => .literal text
  | .reference r => .reference r

/-- The expression of an expression text. -/
def ofText (text : String) : Expr :=
  .template text ((Placeholder.parts text).map ofPart)

mutual

/-- The references of an expression in the order in which they are written. -/
def references : Expr → List Reference
  | .literal _ => []
  | .reference r => [r]
  | .template _ parts => referencesOfAll parts
  | .call _ params => referencesOfParams params
  | .unsupported _ => []

/-- The references of a list of expressions. -/
def referencesOfAll : List Expr → List Reference
  | [] => []
  | e :: rest => e.references ++ referencesOfAll rest

/-- The references of the parameters of a call. -/
def referencesOfParams : List (String × Argument) → List Reference
  | [] => []
  | (_, a) :: rest => referencesOfArgument a ++ referencesOfParams rest

/-- The references of an argument. -/
def referencesOfArgument : Argument → List Reference
  | .single e => e.references
  | .many items => referencesOfAll items

end

mutual

/-- The first raw value that stands in the place of an expression, in the order of writing. -/
def firstUnsupported : Expr → Option Data.Value
  | .literal _ => none
  | .reference _ => none
  | .template _ parts => firstUnsupportedOfAll parts
  | .call _ params => firstUnsupportedOfParams params
  | .unsupported raw => some raw

/-- The first such value in a list of expressions. -/
def firstUnsupportedOfAll : List Expr → Option Data.Value
  | [] => none
  | e :: rest => e.firstUnsupported.or (firstUnsupportedOfAll rest)

/-- The first such value in the parameters of a call. -/
def firstUnsupportedOfParams : List (String × Argument) → Option Data.Value
  | [] => none
  | (_, a) :: rest => (firstUnsupportedOfArgument a).or (firstUnsupportedOfParams rest)

/-- The first such value in an argument. -/
def firstUnsupportedOfArgument : Argument → Option Data.Value
  | .single e => e.firstUnsupported
  | .many items => firstUnsupportedOfAll items

end

/-- The names of the references that are not external. -/
def referencedNames (e : Expr) : List String :=
  (e.references.filter fun r => !r.external).map (·.name)

/-- The names that an expression needs, ascending and each once. -/
def needs (e : Expr) : List String :=
  Text.sortedNames e.referencedNames

/-- The names that an expression mentions, external ones too, ascending and each once. -/
def mentions (e : Expr) : List String :=
  Text.sortedNames (e.references.map (·.name))

/-- The argument under a parameter name, the first one if the name is repeated. -/
def argument? (params : List (String × Argument)) (name : String) : Option Argument :=
  (params.find? fun p => p.1 == name).map (·.2)

end Expr

end VariableOrder
