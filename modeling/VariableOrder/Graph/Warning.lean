/-!
# Warnings

A reference to a name that nobody declares is no error, because the installer may provide the
variable. It is reported as a warning, unless the name is known to come from outside.
-/

set_option autoImplicit false

namespace VariableOrder

/-- A variable that refers to a name outside the declared ones. -/
structure Warning where
  dependent : String
  reference : String
  deriving DecidableEq, Repr

/-- The wording of a warning. -/
def Warning.message (w : Warning) : String :=
  "Variable '" ++ w.dependent ++ "' references undefined variable '" ++ w.reference
    ++ "'; it is left to be resolved at install time."

/-- The variables that every installer provides. -/
def providedNames : List String :=
  ["APPLICATIONS_DEFAULT_ROOT", "APP_NAME", "APP_URL", "APP_VER", "FILE_SEPARATOR",
    "INSTALL_PATH", "INSTALL_DRIVE", "ISO3_LANG", "JAVA_HOME", "SYSTEM_os_name", "USER_HOME",
    "USER_NAME"]

end VariableOrder
