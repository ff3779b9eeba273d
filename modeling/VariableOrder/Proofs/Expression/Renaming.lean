import VariableOrder.Proofs.Definition.Arrangement

/-!
# Renamed variables

Variables get other names: in the definitions that declare them and in every reference to them.
References to names that are resolved outside the installer stay as they are. Renaming an expression
renames its references, one by one and at any depth, and it neither adds nor removes a raw value. So
a renamed definition refers to the new names of what it referred to.
-/

set_option autoImplicit false

namespace VariableOrder

open Placeholder (Reference)

/-- Gives the variable of a reference its new name, unless it is external. -/
def Placeholder.Reference.rename (f : String → String) (r : Reference) : Reference :=
  if r.external then r else { r with name := f r.name }

namespace Expr

mutual

/-- Gives all variables of an expression their new names. -/
def rename (f : String → String) : Expr → Expr
  | .literal text => .literal text
  | .reference r => .reference (r.rename f)
  | .template source parts => .template source (renameAll f parts)
  | .call provider params => .call provider (renameParams f params)
  | .unsupported raw => .unsupported raw

/-- Renames in a list of expressions. -/
def renameAll (f : String → String) : List Expr → List Expr
  | [] => []
  | e :: rest => e.rename f :: renameAll f rest

/-- Renames in the parameters of a call. -/
def renameParams (f : String → String) : List (String × Argument) → List (String × Argument)
  | [] => []
  | (name, a) :: rest => (name, renameArgument f a) :: renameParams f rest

/-- Renames in an argument. -/
def renameArgument (f : String → String) : Argument → Argument
  | .single e => .single (e.rename f)
  | .many items => .many (renameAll f items)

end

variable (f : String → String)

mutual

/-- The references of a renamed expression are its references renamed. -/
theorem references_rename : ∀ e : Expr,
    (e.rename f).references = e.references.map (Reference.rename f)
  | .literal _ => rfl
  | .reference _ => rfl
  | .template _ parts => by
    rw [rename, references, references, referencesOfAll_renameAll parts]
  | .call _ params => by
    rw [rename, references, references, referencesOfParams_renameParams params]
  | .unsupported _ => rfl

/-- The references of several renamed expressions are the renamed references. -/
theorem referencesOfAll_renameAll : ∀ es : List Expr,
    referencesOfAll (renameAll f es) = (referencesOfAll es).map (Reference.rename f)
  | [] => rfl
  | e :: rest => by
    rw [renameAll, referencesOfAll, referencesOfAll, references_rename e,
      referencesOfAll_renameAll rest, List.map_append]

/-- The references of renamed parameters are the renamed references. -/
theorem referencesOfParams_renameParams : ∀ params : List (String × Argument),
    referencesOfParams (renameParams f params) =
      (referencesOfParams params).map (Reference.rename f)
  | [] => rfl
  | (_, .single e) :: rest => by
    rw [renameParams, referencesOfParams, referencesOfParams, List.map_append,
      referencesOfParams_renameParams rest, renameArgument, referencesOfArgument,
      referencesOfArgument, references_rename e]
  | (_, .many items) :: rest => by
    rw [renameParams, referencesOfParams, referencesOfParams, List.map_append,
      referencesOfParams_renameParams rest, renameArgument, referencesOfArgument,
      referencesOfArgument, referencesOfAll_renameAll items]

end

mutual

/-- Renaming keeps the first raw value. -/
theorem firstUnsupported_rename : ∀ e : Expr,
    (e.rename f).firstUnsupported = e.firstUnsupported
  | .literal _ => rfl
  | .reference _ => rfl
  | .template _ parts => by
    rw [rename, firstUnsupported, firstUnsupported, firstUnsupportedOfAll_renameAll parts]
  | .call _ params => by
    rw [rename, firstUnsupported, firstUnsupported, firstUnsupportedOfParams_renameParams params]
  | .unsupported _ => rfl

/-- Renaming several expressions leaves raw values among them alone. -/
theorem firstUnsupportedOfAll_renameAll : ∀ es : List Expr,
    firstUnsupportedOfAll (renameAll f es) = firstUnsupportedOfAll es
  | [] => rfl
  | e :: rest => by
    rw [renameAll, firstUnsupportedOfAll, firstUnsupportedOfAll, firstUnsupported_rename e,
      firstUnsupportedOfAll_renameAll rest]

/-- Renaming parameters leaves raw values in them alone. -/
theorem firstUnsupportedOfParams_renameParams : ∀ params : List (String × Argument),
    firstUnsupportedOfParams (renameParams f params) = firstUnsupportedOfParams params
  | [] => rfl
  | (_, .single e) :: rest => by
    rw [renameParams, firstUnsupportedOfParams, firstUnsupportedOfParams,
      firstUnsupportedOfParams_renameParams rest, renameArgument, firstUnsupportedOfArgument,
      firstUnsupportedOfArgument, firstUnsupported_rename e]
  | (_, .many items) :: rest => by
    rw [renameParams, firstUnsupportedOfParams, firstUnsupportedOfParams,
      firstUnsupportedOfParams_renameParams rest, renameArgument, firstUnsupportedOfArgument,
      firstUnsupportedOfArgument, firstUnsupportedOfAll_renameAll items]

end

end Expr

namespace Definition

/-- Gives the variable of a definition and all variables that it refers to their new names. -/
def rename (f : String → String) (d : Definition) : Definition :=
  { d with
    name := f d.name
    candidates := d.candidates.map fun c => { c with value := c.value.rename f } }

/-- Whether a name is declared or referred to by some definitions. -/
def Mentions (definitions : List Definition) (name : String) : Prop :=
  name ∈ definitions.map (·.name) ∨ ∃ d ∈ definitions, d.RefersTo name

variable (f : String → String)

/-- A renamed definition has the new name. -/
@[simp]
theorem name_rename (d : Definition) : (d.rename f).name = f d.name :=
  rfl

/-- A renamed definition is declared where it was. -/
@[simp]
theorem sourceOrder_rename (d : Definition) : (d.rename f).sourceOrder = d.sourceOrder :=
  rfl

/-- Renaming a definition leaves raw values in it alone. -/
theorem firstUnsupported_rename (d : Definition) :
    (d.rename f).firstUnsupported = d.firstUnsupported := by
  simp only [firstUnsupported, rename, List.findSome?_map, Function.comp_def,
    Expr.firstUnsupported_rename]

/-- A definition refers to the names that its references without external ones have. -/
theorem refersTo_iff (d : Definition) (name : String) :
    d.RefersTo name ↔
      ∃ c ∈ d.candidates, ∃ r ∈ c.value.references, r.external = false ∧ r.name = name := by
  simp only [RefersTo, Expr.mem_references_iff]

/-- A renamed definition refers to the new names of what it referred to. -/
theorem refersTo_rename_iff (d : Definition) (name : String) :
    (d.rename f).RefersTo name ↔ ∃ old, d.RefersTo old ∧ f old = name := by
  simp only [refersTo_iff]
  constructor
  · rintro ⟨renamed, hrenamed, reference, hreference, hexternal, rfl⟩
    obtain ⟨c, hc, rfl⟩ := List.mem_map.mp hrenamed
    rw [Expr.references_rename] at hreference
    obtain ⟨r, hr, rfl⟩ := List.mem_map.mp hreference
    cases hkind : r.external with
    | true => simp [Reference.rename, hkind] at hexternal
    | false => exact ⟨r.name, ⟨c, hc, r, hr, hkind, rfl⟩, by simp [Reference.rename, hkind]⟩
  · rintro ⟨old, ⟨c, hc, r, hr, hexternal, rfl⟩, rfl⟩
    refine ⟨_, List.mem_map_of_mem hc, r.rename f, ?_, ?_, ?_⟩
    · rw [Expr.references_rename]
      exact List.mem_map_of_mem hr
    · simp [Reference.rename, hexternal]
    · simp [Reference.rename, hexternal]

end Definition

end VariableOrder
