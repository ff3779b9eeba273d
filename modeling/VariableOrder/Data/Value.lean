import VariableOrder.Data.Calendar
import VariableOrder.Number.Exact

/-!
# Raw data

The data that a definition document holds before anything is known about its meaning. A
record keeps its entries in the order in which their keys first appeared; a key is any value
without a collection that can grow, and numbers of equal value are one key. A collection may stand
inside itself; such data is told down to where it repeats, and what would follow is a mark.
-/

set_option autoImplicit false

namespace VariableOrder.Data

/-- The kinds of collections that may stand inside themselves. -/
inductive Recurring where
  | list
  | pair
  | record
  deriving DecidableEq, Repr

/-- A piece of raw data. -/
inductive Value where
  | null
  | flag (b : Bool)
  | integer (n : Int)
  | fraction (x : Float)
  | text (s : String)
  | bytes (bs : List UInt8)
  | day (d : Date)
  | moment (m : Moment)
  | list (items : List Value)
  | collection (members : List Value)
  | pair (first second : Value)
  | record (entries : List (Value × Value))
  | again (kind : Recurring)
  deriving Inhabited

/-- Entries in order, each with its key. -/
abbrev Record (α : Type) := List (Value × α)

namespace Value

/-- Whether a value is the given text. -/
def isText (name : String) : Value → Bool
  | .text s => s == name
  | _ => false

/-- The whole number that a value counts as when it is a key; the truth values count as zero and
one. -/
def keyNumber? : Value → Option Int
  | .flag b => some (if b then 1 else 0)
  | .integer n => some n
  | .fraction x => if x.isNaN || x.isInf then none else Number.wholeValue? x
  | _ => none

/-- Whether two values are one key. -/
def sameKey (a b : Value) : Bool :=
  match a.keyNumber?, b.keyNumber? with
  | some m, some n => m == n
  | some _, none => false
  | none, some _ => false
  | none, none =>
    match a, b with
    | .null, .null => true
    | .fraction x, .fraction y => x == y
    | .text s, .text t => s == t
    | .bytes s, .bytes t => s == t
    | .day d, .day e => d == e
    | .moment d, .moment e => d.same e
    | _, _ => false

/-- Whether a value can be a key: collections that can grow cannot, nor can a pair with one. -/
def isKey : Value → Bool
  | .list _ => false
  | .collection _ => false
  | .pair first second => first.isKey && second.isKey
  | .record _ => false
  | .again _ => false
  | _ => true

/-- Whether a value counts as present: null, false, zero and whatever is empty do not. -/
def isPresent : Value → Bool
  | .null => false
  | .flag b => b
  | .integer n => n != 0
  | .fraction x => !(x == 0.0)
  | .text s => s != ""
  | .bytes bs => !bs.isEmpty
  | .list items => !items.isEmpty
  | .collection members => !members.isEmpty
  | .record entries => !entries.isEmpty
  | _ => true

/-- Whether a value is null. -/
def isNull : Value → Bool
  | .null => true
  | _ => false

end Value

namespace Record

variable {α : Type}

/-- The value under a name. -/
def get? (entries : Record α) (name : String) : Option α :=
  (entries.find? fun e => e.1.isText name).map (·.2)

/-- The entries without the one under a name. -/
def without (entries : Record α) (name : String) : Record α :=
  entries.filter fun e => !e.1.isText name

/-- Puts a value under a key: in the place of an equal key, or else at the end. -/
def put (key : Value) (value : α) : Record α → Record α
  | [] => [(key, value)]
  | (k, v) :: rest => if k.sameKey key then (k, value) :: rest else (k, v) :: put key value rest

/-- Collects entries in order; of equal keys the first gives the place and the last the value. -/
def collect (entries : List (Value × α)) : Record α :=
  entries.foldl (fun done e => put e.1 e.2 done) []

end Record

end VariableOrder.Data
