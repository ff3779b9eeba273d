import VariableOrder.Proofs.Expression.Occurrence

/-!
# Expression texts

The references of an expression text are those among its parts, and no raw value stands in the
place of an expression there.
-/

set_option autoImplicit false

namespace VariableOrder.Expr

open Placeholder (Reference Part)

/-- The references of a text are the references among its parts. -/
theorem mem_references_ofText (r : Reference) (text : String) :
    r ∈ (ofText text).references ↔ Part.reference r ∈ Placeholder.parts text := by
  simp only [ofText, references, referencesOfAll_eq, List.mem_flatMap, List.mem_map]
  constructor
  · rintro ⟨e, ⟨p, hp, rfl⟩, hr⟩
    cases p with
    | literal text => simp [ofPart, references] at hr
    | reference s =>
      simp only [ofPart, references, List.mem_singleton] at hr
      rwa [hr]
  · intro h
    exact ⟨.reference r, ⟨_, h, rfl⟩, List.mem_singleton_self r⟩

/-- A text is a well-formed expression, whatever stands in it. -/
theorem wellFormed_ofText (text : String) : (ofText text).WellFormed := by
  rw [← firstUnsupported_eq_none_iff, firstUnsupported_eq_none_step]
  refine ⟨fun raw => by simp [ofText], ?_⟩
  intro c hc
  obtain ⟨p, -, rfl⟩ := List.mem_map.mp (show c ∈ (Placeholder.parts text).map ofPart from hc)
  cases p with
  | literal text => rfl
  | reference r => rfl

end VariableOrder.Expr
