import VariableOrder.Proofs.Provider.Names
import VariableOrder.Proofs.Provider.Nested

/-!
# Arguments of a call

A provider admits what it is given when every name is one of its parameters, no required parameter
is missing, a constant text is allowed where only some texts are, and a list stands only where a
parameter takes one. Then each given parameter becomes one argument, in the order of the parameters:
a list of expressions for a parameter that takes a list, and a single expression for any other.
-/

set_option autoImplicit false

namespace VariableOrder

open Data (Value Record)

/-- Whether an argument is a list of expressions. -/
def Argument.isMany : Argument → Bool
  | .single _ => false
  | .many _ => true

/-- Whether what is given is a list. -/
def Given.isList : Given → Bool
  | .raw (.list _) => true
  | .raw (.again .list) => true
  | _ => false

namespace Provider

/-- Whether nothing is wrong with what a provider is given. -/
structure Admits (p : Provider) (fields : Record Given) : Prop where
  named : ∀ f ∈ fields, ∃ name ∈ p.paramNames, f.1 = .text name
  required : ∀ name ∈ p.required, ∃ g, fields.get? name = some g ∧ g.isNull = false
  allowed : ∀ choice ∈ p.choices, ∀ s, fields.get? choice.1 = some (.raw (.text s)) →
    '$' ∈ s.toList ∨ s ∈ choice.2
  single : ∀ name ∈ p.paramNames, p.list.contains name = false →
    ∀ g, fields.get? name = some g → g.isList = false

variable {c : Catalogue} {p : Provider} {place : String} {fields : Record Given}

/-- A parameter is a list exactly when what is given for it is one. -/
theorem isList_givenParam (g : Given) : (c.givenParam g).isList = g.isList := by
  cases g with
  | built e => rfl
  | raw v =>
    cases v with
    | again kind => cases kind <;> rfl
    | _ => rfl

/-- A parameter is a constant exactly when a raw text is given for it. -/
theorem text?_givenParam_eq_some_iff (g : Given) (s : String) :
    (c.givenParam g).text? = some s ↔ g = .raw (.text s) := by
  cases g with
  | built e => simp [Catalogue.givenParam, Catalogue.builtParam]
  | raw v => cases v <;> simp [Catalogue.givenParam, Catalogue.paramOf]

/-- The parameter of a name is made of what is given under that name. -/
theorem get?_givenParams (name : String) :
    Record.get? (c.givenParams fields) name = (fields.get? name).map c.givenParam :=
  Record.get?_map _ _ _

/-- No parameter is missing exactly when each required one is given and not null. -/
theorem missingParams_eq_nil_iff : p.missingParams (c.givenParams fields) = [] ↔
    ∀ name ∈ p.required, ∃ g, fields.get? name = some g ∧ g.isNull = false := by
  unfold missingParams Param.given?
  rw [List.filter_eq_nil_iff]
  refine forall₂_congr fun name _ => ?_
  rw [get?_givenParams]
  cases fields.get? name with
  | none => simp
  | some g => cases hnull : g.isNull <;> simp [Option.filter, c.isNull_givenParam, hnull]

/-- A choice is no problem exactly when every raw text given for it has a dollar sign or is allowed.
-/
theorem choiceProblem?_eq_none_iff (choice : String × List String) :
    choiceProblem? (c.givenParams fields) choice = none ↔
      ∀ s, fields.get? choice.1 = some (.raw (.text s)) → '$' ∈ s.toList ∨ s ∈ choice.2 := by
  unfold choiceProblem?
  rw [get?_givenParams]
  cases fields.get? choice.1 with
  | none => simp
  | some g =>
    cases htext : (c.givenParam g).text? with
    | none =>
      have hother : ∀ s, g ≠ .raw (.text s) := by
        rintro s rfl
        rw [(text?_givenParam_eq_some_iff _ s).mpr rfl] at htext
        cases htext
      simp [htext, hother]
    | some s =>
      obtain rfl := (text?_givenParam_eq_some_iff g s).mp htext
      simp [htext, or_iff_not_imp_left]

/-- No single parameter is a list exactly when nothing given for one of them is. -/
theorem listedSingles_eq_nil_iff : p.listedSingles (c.givenParams fields) = [] ↔
    ∀ name ∈ p.paramNames, p.list.contains name = false →
      ∀ g, fields.get? name = some g → g.isList = false := by
  unfold listedSingles
  rw [List.filter_eq_nil_iff]
  refine forall₂_congr fun name _ => ?_
  rw [get?_givenParams]
  cases fields.get? name with
  | none => simp
  | some g => simp [isList_givenParam]

/-- Nothing is wrong exactly when the provider admits what it is given. -/
theorem problems_eq_nil_iff_admits :
    p.problems (c.givenParams fields) = .ok [] ↔ p.Admits fields := by
  constructor
  · intro h
    obtain ⟨-, hmissing, -, hchoices, hsingles⟩ := problems_eq_nil_iff.mp h
    refine ⟨?_, missingParams_eq_nil_iff.mp hmissing, ?_, listedSingles_eq_nil_iff.mp hsingles⟩
    · intro f hf
      have hparam : (f.1, c.givenParam f.2) ∈ c.givenParams fields :=
        List.mem_map_of_mem (f := fun f => (f.1, c.givenParam f.2)) hf
      exact exists_name_of_problems h hparam
    · intro choice hchoice
      exact (choiceProblem?_eq_none_iff choice).mp
        (List.filterMap_eq_nil_iff.mp hchoices choice hchoice)
  · rintro ⟨hnamed, hrequired, hallowed, hsingle⟩
    have hunknown : p.unknownNames (c.givenParams fields) = [] := by
      rw [List.eq_nil_iff_forall_not_mem]
      intro key hkey
      obtain ⟨⟨q, hq⟩, hnone⟩ := (mem_unknownNames p _ key).mp hkey
      obtain ⟨f, hf, heq⟩ := List.mem_map.mp hq
      obtain ⟨rfl, -⟩ := Prod.mk.inj heq
      obtain ⟨name, hname, hkey⟩ := hnamed f hf
      exact hnone name hname hkey
    rw [problems_eq_nil_iff, hunknown]
    refine ⟨rfl, missingParams_eq_nil_iff.mpr hrequired, rfl, ?_,
      listedSingles_eq_nil_iff.mpr hsingle⟩
    exact List.filterMap_eq_nil_iff.mpr fun choice hchoice =>
      (choiceProblem?_eq_none_iff choice).mpr (hallowed choice hchoice)

/-- An argument has the name of its parameter, is a list when the parameter takes one, and holds
what the parts are built to. -/
theorem argument_eq_ok_iff {name : String} {g : Given} {a : String × Argument} :
    p.argument place (name, c.givenParam g) = .ok a ↔
      a.1 = name ∧ a.2.isMany = p.list.contains name ∧
        List.Forall₂ (fun part e => c.buildGiven part.1 part.2 = .ok e)
          (p.partsOf place name g) a.2.items := by
  obtain ⟨other, argument⟩ := a
  rw [← mapM_eq_ok_iff, ← items_argument c p place name g]
  unfold Provider.argument
  dsimp only
  cases hlist : p.list.contains name with
  | true =>
    simp only [if_true, bind_eq_ok_iff]
    cases hitems : (c.givenParam g).items.zipIdx.mapM (fun x =>
        x.1 (place ++ ", " ++ name ++ "[" ++ toString x.2 ++ "]")) with
    | error x => simp [bind, Except.bind, Except.map]
    | ok items => cases argument <;> simp [bind, Except.bind, pure, Except.pure, Except.map,
        Argument.isMany, Argument.items, eq_comm]
  | false =>
    simp only [Bool.false_eq_true, if_false]
    cases hsingle : (c.givenParam g).single (place ++ ", " ++ name) with
    | error x => simp [bind, Except.bind, Except.map]
    | ok e => cases argument <;> simp [bind, Except.bind, pure, Except.pure, Except.map,
        Argument.isMany, Argument.items, eq_comm]

/-- The argument of a single parameter is what is given for it, built at its place. -/
theorem argument_single_iff {name : String} (hlist : p.list.contains name = false)
    {g : Given} {a : String × Argument} : p.argument place (name, c.givenParam g) = .ok a ↔
      ∃ e, c.buildGiven (place ++ ", " ++ name) g = .ok e ∧ a = (name, .single e) := by
  unfold argument
  simp only [hlist, Bool.false_eq_true, if_false, c.single_givenParam, bind_eq_ok_iff]
  refine exists_congr fun e => and_congr_right fun _ => ?_
  exact ⟨fun h => (Except.ok.inj h).symm, fun h => congrArg Except.ok h.symm⟩

/-- Arguments have the names of what they are built from. -/
theorem map_fst_arguments {given : List (String × Given)} {arguments : List (String × Argument)}
    (h : List.Forall₂ (fun f a => p.argument place (f.1, c.givenParam f.2) = .ok a) given
      arguments) : arguments.map (·.1) = given.map (·.1) := by
  rw [← List.forall₂_eq_eq_eq, List.forall₂_map_left_iff, List.forall₂_map_right_iff]
  exact h.flip.imp fun a f ha => (argument_eq_ok_iff.mp ha).1

/-- The parameters that are given and not null keep the order of the parameters. -/
theorem map_fst_given (p : Provider) (fields : Record Given) : (p.given fields).map (·.1) =
    p.paramNames.filter fun name => (fields.get? name).any fun g => !g.isNull := by
  unfold given
  induction p.paramNames with
  | nil => rfl
  | cons name rest ih =>
    rw [List.filterMap_cons, List.filter_cons]
    cases Record.get? fields name with
    | none => simpa using ih
    | some g => cases hnull : g.isNull <;> simpa [Option.filter, hnull] using ih

/-- A call is accepted when its provider admits what it is given and each given parameter becomes an
argument. -/
theorem call_eq_ok_iff {e : Expr} : p.call (c.givenParams fields) place = .ok e ↔
    p.Admits fields ∧ ∃ arguments, e = .call p.typeName arguments ∧
      List.Forall₂ (fun f a => p.argument place (f.1, c.givenParam f.2) = .ok a)
        (p.given fields) arguments := by
  rw [← problems_eq_nil_iff_admits (c := c)]
  constructor
  · intro h
    have hproblems : p.problems (c.givenParams fields) = .ok [] := by
      unfold call at h
      split at h
      · cases h
      · assumption
      · cases h
    rw [call_of_problems c p place hproblems] at h
    cases harguments : (p.given fields).mapM
        fun f => p.argument place (f.1, c.givenParam f.2) with
    | error x =>
      rw [harguments] at h
      cases h
    | ok arguments =>
      rw [harguments] at h
      exact ⟨hproblems, arguments, (Except.ok.inj h).symm, mapM_eq_ok_iff.mp harguments⟩
  · rintro ⟨hproblems, arguments, rfl, harguments⟩
    rw [call_of_problems c p place hproblems, mapM_eq_ok_iff.mpr harguments]
    rfl

end Provider

end VariableOrder
