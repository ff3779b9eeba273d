import Mathlib.Data.List.Basic
import VariableOrder.Expression.Basic

/-!
# Occurrence of expressions

An expression occurs in another one when it is that expression or occurs in one of its children:
the parts of an expression text, or the arguments of a call. The references of an expression are
exactly the references that occur in it, at any depth, and the first raw value that stands in the
place of an expression is missing exactly when no raw value occurs.
-/

set_option autoImplicit false

namespace VariableOrder

open Placeholder (Reference)

/-- The expressions of an argument. -/
def Argument.items : Argument → List Expr
  | .single e => [e]
  | .many items => items

namespace Expr

/-- The expressions right below an expression. -/
def children : Expr → List Expr
  | .template _ parts => parts
  | .call _ params => params.flatMap fun p => p.2.items
  | _ => []

/-- An expression occurs in itself and wherever it occurs in a child. -/
inductive Occurs (e : Expr) : Expr → Prop
  | itself : Occurs e e
  | inside {child whole : Expr} (hchild : child ∈ whole.children) (h : Occurs e child) :
    Occurs e whole

/-- No raw value stands in the place of an expression. -/
def WellFormed (e : Expr) : Prop :=
  ∀ raw, ¬ Occurs (.unsupported raw) e

/-- A child is smaller than its parent. -/
theorem sizeOf_lt_of_mem_children {child whole : Expr} (h : child ∈ whole.children) :
    sizeOf child < sizeOf whole := by
  cases whole with
  | literal text => simp [children] at h
  | reference r => simp [children] at h
  | unsupported raw => simp [children] at h
  | template source parts =>
    have hlt := List.sizeOf_lt_of_mem (show child ∈ parts from h)
    simp only [template.sizeOf_spec]
    omega
  | call provider params =>
    obtain ⟨⟨name, a⟩, hp, hitem⟩ := List.mem_flatMap.mp h
    have hparam := List.sizeOf_lt_of_mem hp
    simp only [Prod.mk.sizeOf_spec] at hparam
    have hargument : sizeOf child < sizeOf a := by
      cases a with
      | single e =>
        simp only [Argument.items, List.mem_singleton] at hitem
        subst hitem
        simp
      | many items =>
        have hlt := List.sizeOf_lt_of_mem (show child ∈ items from hitem)
        simp only [Argument.many.sizeOf_spec]
        omega
    simp only [call.sizeOf_spec]
    omega

/-- What holds of an expression as soon as it holds of its children holds of every expression. -/
theorem children_induction {motive : Expr → Prop}
    (h : ∀ e, (∀ c ∈ e.children, motive c) → motive e) (e : Expr) : motive e :=
  h e fun c _ => children_induction h c
termination_by sizeOf e
decreasing_by
  exact sizeOf_lt_of_mem_children ‹_›

/-- The references of a list of expressions are those of its members in turn. -/
theorem referencesOfAll_eq (es : List Expr) : referencesOfAll es = es.flatMap references := by
  induction es with
  | nil => rfl
  | cons e rest ih => rw [referencesOfAll, ih, List.flatMap_cons]

/-- The references of parameters are those of all their expressions in turn. -/
theorem referencesOfParams_eq (params : List (String × Argument)) :
    referencesOfParams params = (params.flatMap fun p => p.2.items).flatMap references := by
  induction params with
  | nil => rfl
  | cons p rest ih =>
    obtain ⟨name, a⟩ := p
    rw [referencesOfParams, ih, List.flatMap_cons, List.flatMap_append]
    cases a with
    | single e => simp [referencesOfArgument, Argument.items]
    | many items => simp [referencesOfArgument, Argument.items, referencesOfAll_eq]

/-- A reference is among those of an expression when it is the expression or a reference of a
child. -/
theorem mem_references_step (r : Reference) (e : Expr) :
    r ∈ e.references ↔ e = .reference r ∨ ∃ c ∈ e.children, r ∈ c.references := by
  cases e with
  | literal text => simp [references, children]
  | reference s => simp [references, children, eq_comm]
  | unsupported raw => simp [references, children]
  | template source parts => simp [references, children, referencesOfAll_eq]
  | call provider params =>
    simp only [references, children, referencesOfParams_eq, reduceCtorEq, false_or]
    rw [List.mem_flatMap]

/-- The references of an expression are the references that occur in it. -/
theorem mem_references_iff (r : Reference) (e : Expr) :
    r ∈ e.references ↔ Occurs (.reference r) e := by
  constructor
  · induction e using children_induction with
    | _ e ih =>
      intro h
      rcases (mem_references_step r e).mp h with rfl | ⟨c, hc, hr⟩
      · exact .itself
      · exact .inside hc (ih c hc hr)
  · intro h
    induction h with
    | itself => exact (mem_references_step r _).mpr (.inl rfl)
    | inside hchild _ ih => exact (mem_references_step r _).mpr (.inr ⟨_, hchild, ih⟩)

/-- A list of expressions has no raw value when none of its members has one. -/
theorem firstUnsupportedOfAll_eq_none_iff (es : List Expr) :
    firstUnsupportedOfAll es = none ↔ ∀ e ∈ es, e.firstUnsupported = none := by
  induction es with
  | nil => simp [firstUnsupportedOfAll]
  | cons e rest ih => simp [firstUnsupportedOfAll, ih]

/-- Parameters have no raw value when none of their expressions has one. -/
theorem firstUnsupportedOfParams_eq_none_iff (params : List (String × Argument)) :
    firstUnsupportedOfParams params = none ↔
      ∀ e ∈ params.flatMap fun p => p.2.items, e.firstUnsupported = none := by
  induction params with
  | nil => simp [firstUnsupportedOfParams]
  | cons p rest ih =>
    obtain ⟨name, a⟩ := p
    rw [firstUnsupportedOfParams, Option.or_eq_none_iff, ih, List.flatMap_cons,
      List.forall_mem_append]
    cases a with
    | single e => simp [firstUnsupportedOfArgument, Argument.items]
    | many items =>
      simp [firstUnsupportedOfArgument, Argument.items, firstUnsupportedOfAll_eq_none_iff]

/-- An expression has no raw value when it is none itself and no child has one. -/
theorem firstUnsupported_eq_none_step (e : Expr) :
    e.firstUnsupported = none ↔
      (∀ raw, e ≠ .unsupported raw) ∧ ∀ c ∈ e.children, c.firstUnsupported = none := by
  cases e with
  | literal text => simp [firstUnsupported, children]
  | reference s => simp [firstUnsupported, children]
  | unsupported raw => simp [firstUnsupported, children]
  | template source parts =>
    simp [firstUnsupported, children, firstUnsupportedOfAll_eq_none_iff]
  | call provider params =>
    simp only [firstUnsupported, children, firstUnsupportedOfParams_eq_none_iff]
    simp

/-- An expression has no first raw value exactly when no raw value occurs in it. -/
theorem firstUnsupported_eq_none_iff (e : Expr) : e.firstUnsupported = none ↔ e.WellFormed := by
  constructor
  · intro h raw hraw
    induction hraw with
    | itself => exact ((firstUnsupported_eq_none_step _).mp h).1 raw rfl
    | inside hchild _ ih => exact ih (((firstUnsupported_eq_none_step _).mp h).2 _ hchild)
  · induction e using children_induction with
    | _ e ih =>
      intro h
      refine (firstUnsupported_eq_none_step e).mpr ⟨?_, ?_⟩
      · rintro raw rfl
        exact h raw .itself
      · intro c hc
        exact ih c hc fun raw hraw => h raw (.inside hc hraw)

end Expr

end VariableOrder
