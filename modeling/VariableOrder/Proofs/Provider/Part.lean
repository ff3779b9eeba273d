import VariableOrder.Proofs.Data.Record
import VariableOrder.Proofs.Expression.Occurrence
import VariableOrder.Proofs.Outcome
import VariableOrder.Provider.Call

/-!
# Parts of a call

What is given for the parameter of a call is a raw value or, for the input of a filter, an
expression that is built already. A call takes what is given apart: a parameter that takes a list
has a part for each item, any other parameter is one part. The parts are built one after the other
in the order of the parameters, each under a place of its own, and what they come to are the
children of the call.
-/

set_option autoImplicit false

namespace VariableOrder

open Data (Value Record)

/-- What is given for a parameter: a raw value, or an expression that is built already. -/
inductive Given where
  | raw (v : Value)
  | built (e : Expr)

namespace Given

/-- Whether null is given. -/
def isNull : Given → Bool
  | .raw v => v.isNull
  | .built _ => false

/-- What is given for a list of expressions. A single value counts as the only item; a list that
stands inside itself has an item that never ends. -/
def items : Given → List Given
  | .raw (.list items) => items.map .raw
  | .raw (.again .list) => [.raw (.again .record)]
  | g => [g]

/-- An item is all that is given, a member of a list, or the item that never ends. -/
theorem eq_of_mem_items {g item : Given} (h : item ∈ g.items) :
    item = g ∨ (∃ (items : List Value) (v : Value), g = .raw (.list items) ∧ v ∈ items ∧
      item = .raw v) ∨ g = .raw (.again .list) ∧ item = .raw (.again .record) := by
  cases g with
  | built e => exact .inl (List.mem_singleton.mp h)
  | raw v =>
    cases v with
    | list items =>
      obtain ⟨v, hv, rfl⟩ := List.mem_map.mp h
      exact .inr (.inl ⟨items, v, rfl, hv, rfl⟩)
    | again kind =>
      cases kind with
      | list => exact .inr (.inr ⟨rfl, List.mem_singleton.mp h⟩)
      | _ => exact .inl (List.mem_singleton.mp h)
    | _ => exact .inl (List.mem_singleton.mp h)

end Given

namespace Catalogue

variable (c : Catalogue)

/-- The expression of what is given. -/
def buildGiven (place : String) : Given → Except CallFailure Expr
  | .raw v => c.build place v
  | .built e => .ok e

/-- What a provider sees of what is given. -/
def givenParam : Given → Param
  | .raw v => paramOf v (fun place => c.build place v)
      (match v with
      | .list items => c.builders items
      | .again .list => [fun _ => .error (.fault .endless)]
      | _ => [fun place => c.build place v])
  | .built e => builtParam e

/-- What a provider sees of all that is given. -/
def givenParams (fields : Record Given) : Record Param :=
  fields.map fun f => (f.1, c.givenParam f.2)

/-- The entries of a record, each given as raw data. -/
def rawFields (entries : Record Value) : Record Given :=
  entries.map fun e => (e.1, .raw e.2)

/-- Values are turned into builders one by one. -/
theorem builders_eq (vs : List Value) :
    c.builders vs = vs.map fun v place => c.build place v := by
  induction vs with
  | nil => rfl
  | cons v rest ih => rw [builders, ih, List.map_cons]

/-- The parameters of a record are made of its raw fields. -/
theorem params_eq (entries : Record Value) :
    c.params entries = c.givenParams (rawFields entries) := by
  unfold givenParams rawFields
  rw [List.map_map]
  induction entries with
  | nil => rfl
  | cons first rest ih =>
    obtain ⟨key, v⟩ := first
    rw [List.map_cons, ← ih, params.eq_def]
    rfl

/-- A raw field holds what the record does under its name. -/
theorem get?_rawFields (entries : Record Value) (name : String) :
    (rawFields entries).get? name = (entries.get? name).map .raw :=
  Record.get?_map _ _ _

/-- As a single value, a parameter is built of what is given for it. -/
theorem single_givenParam (g : Given) :
    (c.givenParam g).single = fun place => c.buildGiven place g := by
  cases g <;> rfl

/-- A parameter is null exactly when what is given for it is. -/
theorem isNull_givenParam (g : Given) : (c.givenParam g).isNull = g.isNull := by
  cases g <;> rfl

/-- As a list, a parameter is built of the items of what is given for it. -/
theorem items_givenParam (g : Given) :
    (c.givenParam g).items = g.items.map fun item place => c.buildGiven place item := by
  cases g with
  | built e => rfl
  | raw v =>
    cases v with
    | list items =>
      simp only [givenParam, paramOf, builders_eq, Given.items, List.map_map]
      rfl
    | again kind => cases kind <;> simp [givenParam, paramOf, Given.items, buildGiven, build]
    | _ => rfl

end Catalogue

namespace Provider

/-- The parts of what is given for one parameter. -/
def partsOf (p : Provider) (place name : String) (g : Given) : List (String × Given) :=
  if p.list.contains name then
    g.items.zipIdx.map fun (item, i) => (place ++ ", " ++ name ++ "[" ++ toString i ++ "]", item)
  else [(place ++ ", " ++ name, g)]

/-- What is given for the parameters of the provider, in the order of the parameters. -/
def given (p : Provider) (fields : Record Given) : List (String × Given) :=
  p.paramNames.filterMap fun name =>
    ((Record.get? fields name).filter fun g => !g.isNull).map fun g => (name, g)

/-- The parts of all that is given, each with its place, in the order in which they are built. -/
def parts (p : Provider) (place : String) (fields : Record Given) : List (String × Given) :=
  (p.given fields).flatMap fun f => p.partsOf place f.1 f.2

variable (c : Catalogue) (p : Provider) (place : String)

/-- The expressions of an argument are built from its parts. -/
theorem items_argument (name : String) (g : Given) :
    (p.argument place (name, c.givenParam g)).map (fun a => a.2.items) =
      (p.partsOf place name g).mapM fun part => c.buildGiven part.1 part.2 := by
  unfold argument partsOf
  by_cases hlist : p.list.contains name = true
  · let item (x : Given × Nat) : Except CallFailure Expr :=
      c.buildGiven (place ++ ", " ++ name ++ "[" ++ toString x.2 ++ "]") x.1
    simp only [hlist, if_true, c.items_givenParam, List.zipIdx_map, List.mapM_map]
    change Except.map _ (g.items.zipIdx.mapM item >>= fun items =>
      pure (name, Argument.many items)) = g.items.zipIdx.mapM item
    cases g.items.zipIdx.mapM item <;> rfl
  · simp only [hlist, Bool.false_eq_true, if_false, c.single_givenParam, List.mapM_cons,
      List.mapM_nil]
    cases c.buildGiven (place ++ ", " ++ name) g <;> rfl

/-- The raw parameters that are given are what the provider sees of all that is given. -/
theorem map_given (fields : Record Given) :
    (p.paramNames.filterMap fun name =>
      (Param.given? (c.givenParams fields) name).map fun v => (name, v)) =
        (p.given fields).map fun f => (f.1, c.givenParam f.2) := by
  simp only [given, List.map_filterMap]
  congr 1
  funext name
  simp only [Param.given?, Catalogue.givenParams, Record.get?_map]
  cases Record.get? fields name with
  | none => rfl
  | some g => cases hnull : g.isNull <;> simp [Option.filter, c.isNull_givenParam, hnull]

/-- If nothing is wrong with what is given, then the arguments of a call are built one after the
other. -/
theorem call_of_problems {fields : Record Given}
    (h : p.problems (c.givenParams fields) = .ok []) :
    p.call (c.givenParams fields) place =
      ((p.given fields).mapM fun f => p.argument place (f.1, c.givenParam f.2)).map
        fun arguments => .call p.typeName arguments := by
  unfold call
  rw [h]
  dsimp only
  rw [map_given, List.mapM_map]
  rfl

/-- The children of a call are built from its parts, if nothing is wrong with what is given. -/
theorem children_call {fields : Record Given}
    (h : p.problems (c.givenParams fields) = .ok []) :
    (p.call (c.givenParams fields) place).map Expr.children =
      (p.parts place fields).mapM fun part => c.buildGiven part.1 part.2 := by
  calc (p.call (c.givenParams fields) place).map Expr.children
      = ((p.given fields).mapM fun f => p.argument place (f.1, c.givenParam f.2)).map
          fun arguments => arguments.flatMap fun a => a.2.items := by
        rw [call_of_problems c p place h]
        cases (p.given fields).mapM fun f => p.argument place (f.1, c.givenParam f.2) <;> rfl
    _ = (p.parts place fields).mapM fun part => c.buildGiven part.1 part.2 :=
        map_flatMap_mapM (fun f => items_argument c p place f.1 f.2) (p.given fields)

end Provider

end VariableOrder
