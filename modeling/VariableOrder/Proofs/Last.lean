import Mathlib.Data.List.Basic

/-!
# The last member that fits

Where later members of a list take the place of earlier ones, what counts is the last member that
fits. It is found by a search from the end.
-/

set_option autoImplicit false

namespace VariableOrder

variable {α : Type} {P : α → Prop} {test : α → Bool} {l : List α} {a : α}

/-- Whether a member fits and none behind it does. -/
def IsLast (P : α → Prop) (l : List α) (a : α) : Prop :=
  P a ∧ ∃ before after, l = before ++ a :: after ∧ ∀ b ∈ after, ¬ P b

/-- The last element with a property is an element. -/
theorem IsLast.mem (h : IsLast P l a) : a ∈ l := by
  obtain ⟨-, before, after, rfl, -⟩ := h
  simp

/-- A search from the end finds the last element with the property. -/
theorem find?_reverse_eq_some_iff (htest : ∀ a, test a = true ↔ P a) :
    l.reverse.find? test = some a ↔ IsLast P l a := by
  rw [List.find?_eq_some_iff_append, htest]
  refine and_congr_right fun _ => ?_
  constructor
  · rintro ⟨after, before, hl, hafter⟩
    refine ⟨before.reverse, after.reverse, ?_, ?_⟩
    · rw [← List.reverse_reverse l, hl]
      simp
    · intro b hb hP
      have hfails := hafter b (List.mem_reverse.mp hb)
      rw [(htest b).mpr hP] at hfails
      cases hfails
  · rintro ⟨before, after, rfl, hafter⟩
    refine ⟨after.reverse, before.reverse, by simp, ?_⟩
    intro b hb
    rw [Bool.not_eq_true', Bool.eq_false_iff, Ne, htest]
    exact hafter b (List.mem_reverse.mp hb)

/-- A search from the end finds nothing exactly when no element has the property. -/
theorem find?_reverse_eq_none_iff (htest : ∀ a, test a = true ↔ P a) :
    l.reverse.find? test = none ↔ ∀ a ∈ l, ¬ P a := by
  simp only [List.find?_eq_none, List.mem_reverse, htest]

end VariableOrder
