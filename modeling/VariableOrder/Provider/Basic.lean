import VariableOrder.Text.Names

/-!
# Providers

A provider is one way to compute a value when the installer runs. Until then only its parameters
matter: some are required, some are optional, some take a list of expressions, and some allow
only certain constant texts.
-/

set_option autoImplicit false

namespace VariableOrder

/-- A provider: its name and other names, its parameters, and the texts that a parameter allows. -/
structure Provider where
  typeName : String
  aliases : List String
  required : List String
  optional : List String
  list : List String
  choices : List (String × List String)
  deriving DecidableEq, Repr

namespace Provider

/-- All parameter names in the order in which a call lists them. -/
def paramNames (p : Provider) : List String :=
  p.required ++ p.optional ++ p.list

/-- All names under which the provider is found. -/
def names (p : Provider) : List String :=
  p.typeName :: p.aliases

/-- What is wrong with the parameters that a provider is given. -/
inductive Problem where
  | missing (params : List String)
  | unknown (params : List String)
  | notAllowed (param : String) (allowed : List String) (text : String)
  | notSingle (param : String)
  deriving DecidableEq, Repr

/-- The wording of a problem. -/
def problemMessage (p : Provider) : Problem → String
  | .missing params =>
    "Provider '" ++ p.typeName ++ "' requires parameter(s): " ++ Text.commaList params ++ "."
  | .unknown params =>
    "Provider '" ++ p.typeName ++ "' does not accept parameter(s): " ++ Text.commaList params
      ++ ". Allowed: " ++ Text.commaList p.paramNames ++ "."
  | .notAllowed param allowed text =>
    "Parameter '" ++ param ++ "' of provider '" ++ p.typeName ++ "' must be one of "
      ++ Text.commaList allowed ++ ", got '" ++ text ++ "'."
  | .notSingle param =>
    "Parameter '" ++ param ++ "' of provider '" ++ p.typeName ++ "' must be a single value."

end Provider

end VariableOrder
