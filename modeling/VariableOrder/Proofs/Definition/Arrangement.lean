import Mathlib.Data.List.Nodup
import Mathlib.Data.Prod.Lex
import Mathlib.Logic.Relation
import VariableOrder.Definition.Basic
import VariableOrder.Proofs.Expression.Occurrence
import VariableOrder.Proofs.Text.SortedNames

/-!
# Arrangements of definitions

A definition refers to a name when a reference to it that is not external occurs in one of its
candidates. An arrangement puts definitions into an order in which everything that a definition
refers to comes before it. Definitions rank by the places where they are declared and, at the same
place, by their positions.
-/

set_option autoImplicit false

namespace VariableOrder.Definition

open Placeholder (Reference)

/-- Whether a reference to a name that is not external occurs in one of the candidates. -/
def RefersTo (d : Definition) (name : String) : Prop :=
  ∃ c ∈ d.candidates, ∃ r : Reference,
    Expr.Occurs (.reference r) c.value ∧ r.external = false ∧ r.name = name

/-- No raw value stands in the place of an expression in any candidate. -/
def WellFormed (d : Definition) : Prop :=
  ∀ c ∈ d.candidates, c.value.WellFormed

/-- Whether both definitions are among the given ones and the second refers to the first. -/
def Requires (definitions : List Definition) (referenced dependent : Definition) : Prop :=
  referenced ∈ definitions ∧ dependent ∈ definitions ∧ dependent.RefersTo referenced.name

/-- No definition requires itself, directly or through others. -/
def Acyclic (definitions : List Definition) : Prop :=
  ∀ d, ¬ Relation.TransGen (Requires definitions) d d

/-- An order of definitions in which everything that a definition refers to comes before it. -/
structure IsArrangement (definitions arrangement : List Definition) : Prop where
  perm : arrangement.Perm definitions
  follows : ∀ before d after, arrangement = before ++ d :: after →
    ∀ referenced ∈ definitions, d.RefersTo referenced.name → referenced ∈ before

/-- The position of a definition among all definitions. -/
def position (definitions : List Definition) (d : Definition) : Nat :=
  (definitions.map (·.name)).idxOf d.name

/-- The place where a definition is declared, and then its position among all definitions. -/
def rank (definitions : List Definition) (d : Definition) : Int ×ₗ Nat :=
  toLex (d.sourceOrder, position definitions d)

section Position

variable {definitions : List Definition} (h : (definitions.map (·.name)).Nodup)

include h

/-- Among definitions with distinct names a definition is told by its name. -/
theorem position_eq {i : Nat} {d : Definition} (hd : definitions[i]? = some d) :
    position definitions d = i := by
  obtain ⟨hi, rfl⟩ := List.getElem?_eq_some_iff.mp hd
  have hidx := h.idxOf_getElem i (by simpa using hi)
  rwa [List.getElem_map] at hidx

/-- A definition stands at its position, since names are distinct. -/
theorem getElem?_position {d : Definition} (hd : d ∈ definitions) :
    definitions[position definitions d]? = some d := by
  obtain ⟨i, hi⟩ := List.mem_iff_getElem?.mp hd
  rw [position_eq h hi]
  exact hi

/-- The positions of the definitions are the numbers from zero on. -/
theorem map_position : definitions.map (position definitions) = List.range definitions.length := by
  apply List.ext_getElem (by simp)
  intro i h₁ h₂
  rw [List.getElem_map, List.getElem_range]
  exact position_eq h (List.getElem?_eq_getElem (by simpa using h₁))

end Position

/-- The names that a definition needs are those that it refers to. -/
theorem mem_needs_iff (d : Definition) (name : String) : name ∈ d.needs ↔ d.RefersTo name := by
  simp only [needs, Text.mem_sortedNames, List.mem_flatMap, Expr.referencedNames, List.mem_map,
    List.mem_filter, Bool.not_eq_true', Expr.mem_references_iff, RefersTo, and_assoc]

/-- A definition has no first raw value exactly when it is well formed. -/
theorem firstUnsupported_eq_none_iff (d : Definition) :
    d.firstUnsupported = none ↔ d.WellFormed := by
  simp only [firstUnsupported, List.findSome?_eq_none_iff, Expr.firstUnsupported_eq_none_iff,
    WellFormed]

end VariableOrder.Definition
