import VariableOrder.Data.Calendar
import VariableOrder.Text.Encoding

/-!
# Faults of a document

Why a document can not be read. Whatever breaks the rules of the notation is one fault without
further detail, and so is an end where more has to follow. Bytes that are no text are another. The
others come from scalars whose spelling does not suit the kind that they are said to have, and from
data that a scalar asks for without end.
-/

set_option autoImplicit false

namespace VariableOrder.Document

/-- Why a document can not be read. -/
inductive Fault where
  | malformed
  | cutOff
  | undecodable (f : Text.DecodeFault)
  | codePoint
  | codePointSize
  | notInteger (base : Nat) (text : String)
  | longInteger (digits : Nat)
  | noDigits
  | notFraction (text : String)
  | fractionSize
  | notFlag (text : String)
  | notMoment
  | momentOfRecord
  | endless
  | calendar (f : Data.CalendarFault)
  deriving DecidableEq, Repr

/-- A quoted text of which a message shows at most this many characters. -/
def longestShown : Nat := 200

/-- The start of a quoted text that a message shows. -/
def shown (text : String) : String :=
  String.ofList ((Text.quoted text).toList.take longestShown)

/-- The wording of a fault. -/
def Fault.message : Fault → String
  | .malformed => "<yaml error>"
  | .cutOff => "<yaml error>"
  | .undecodable f => f.message
  | .codePoint => "chr() arg not in range(0x110000)"
  | .codePointSize => "Python int too large to convert to C int"
  | .notInteger base text =>
    "invalid literal for int() with base " ++ toString base ++ ": " ++ shown text
  | .longInteger digits =>
    "Exceeds the limit (4300 digits) for integer string conversion: value has "
      ++ toString digits ++ " digits; use sys.set_int_max_str_digits() to increase the limit"
  | .noDigits => "string index out of range"
  | .notFraction text => "could not convert string to float: " ++ Text.quoted text
  | .fractionSize => "int too large to convert to float"
  | .notFlag text => Text.quoted text
  | .notMoment => "'NoneType' object has no attribute 'groupdict'"
  | .momentOfRecord => "expected string or bytes-like object, got 'list'"
  | .endless => "maximum recursion depth exceeded"
  | .calendar f => f.message

end VariableOrder.Document
