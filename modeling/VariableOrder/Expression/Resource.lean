import VariableOrder.Expression.Basic

/-!
# Resources

A resource is the tree of plain data that the installer reads: text, truth values, numbers,
lists, and records whose fields stand in a fixed order. An expression text is written as it
was, a provider call as a record that names its provider first.
-/

set_option autoImplicit false

namespace VariableOrder

/-- A piece of resource data. -/
inductive Resource where
  | text (s : String)
  | flag (b : Bool)
  | number (n : Int)
  | list (items : List Resource)
  | record (fields : List (String × Resource))
  deriving Inhabited

namespace Resource

mutual

/-- How many collections stand within each other. -/
def depth : Resource → Nat
  | .list items => depthOfAll items + 1
  | .record fields => depthOfFields fields + 1
  | _ => 0

/-- The greatest depth of the items of a list. -/
def depthOfAll : List Resource → Nat
  | [] => 0
  | r :: rest => max r.depth (depthOfAll rest)

/-- The greatest depth of the fields of a record. -/
def depthOfFields : List (String × Resource) → Nat
  | [] => 0
  | (_, r) :: rest => max r.depth (depthOfFields rest)

end

/-- Puts a value under a field name: in the place of a field of that name, or else at the end. -/
def putField (name : String) (value : Resource) :
    List (String × Resource) → List (String × Resource)
  | [] => [(name, value)]
  | (n, v) :: rest => if n = name then (n, value) :: rest else (n, v) :: putField name value rest

/-- The fields of a call: the provider's name, then the parameters in order. -/
def callFields (provider : String) (params : List (String × Resource)) :
    List (String × Resource) :=
  params.foldl (fun fields p => putField p.1 p.2 fields) [("provider", .text provider)]

end Resource

namespace Expr

mutual

/-- The resource of an expression. -/
def resource : Expr → Resource
  | .literal text => .text (String.ofList (Placeholder.escapeDollars text.toList))
  | .reference r => .text r.written
  | .template source _ => .text source
  | .call provider params => .record (Resource.callFields provider (resourceOfParams params))
  | .unsupported _ => .text ""

/-- The resources of a list of expressions. -/
def resourceOfAll : List Expr → List Resource
  | [] => []
  | e :: rest => e.resource :: resourceOfAll rest

/-- The resources of the parameters of a call. -/
def resourceOfParams : List (String × Argument) → List (String × Resource)
  | [] => []
  | (name, a) :: rest => (name, resourceOfArgument a) :: resourceOfParams rest

/-- The resource of an argument. -/
def resourceOfArgument : Argument → Resource
  | .single e => e.resource
  | .many items => .list (resourceOfAll items)

end

mutual

/-- The first raw value that would have to be written as an expression. The parts of an
expression text are not written one by one, so none of them counts. -/
def firstUnwritable : Expr → Option Data.Value
  | .literal _ => none
  | .reference _ => none
  | .template _ _ => none
  | .call _ params => firstUnwritableOfParams params
  | .unsupported raw => some raw

/-- The first such value in a list of expressions. -/
def firstUnwritableOfAll : List Expr → Option Data.Value
  | [] => none
  | e :: rest => e.firstUnwritable.or (firstUnwritableOfAll rest)

/-- The first such value in the parameters of a call. -/
def firstUnwritableOfParams : List (String × Argument) → Option Data.Value
  | [] => none
  | (_, a) :: rest => (firstUnwritableOfArgument a).or (firstUnwritableOfParams rest)

/-- The first such value in an argument. -/
def firstUnwritableOfArgument : Argument → Option Data.Value
  | .single e => e.firstUnwritable
  | .many items => firstUnwritableOfAll items

end

/-- What is said about a raw value that would have to be written as an expression. -/
def unwritableMessage (raw : Data.Value) : String :=
  "'" ++ raw.typeName ++ "' object has no attribute 'to_resource'"

end Expr

end VariableOrder
