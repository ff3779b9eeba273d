import Mathlib.Data.List.Basic
import Mathlib.Order.Lattice

/-!
# Ascending lists

Sorting by a comparison that agrees with a linearly ordered key yields a list that ascends in the
key, and the positions of the members that pass a test are ascending by themselves.
-/

set_option autoImplicit false

namespace VariableOrder

/-- A list that is sorted by a comparison of keys ascends in its keys. -/
theorem pairwise_mergeSort_key {α κ : Type} [LinearOrder κ] (key : α → κ) (le : α → α → Bool)
    (hle : ∀ a b, le a b = true ↔ key a ≤ key b) (l : List α) :
    (l.mergeSort le).Pairwise fun a b => key a ≤ key b := by
  have hsorted : (l.mergeSort le).Pairwise fun a b => le a b = true := by
    apply List.pairwise_mergeSort
    · intro a b c hab hbc
      rw [hle] at hab hbc ⊢
      exact le_trans hab hbc
    · intro a b
      rw [Bool.or_eq_true, hle, hle]
      exact le_total (key a) (key b)
  exact hsorted.imp fun h => (hle _ _).mp h

/-- The members of a list with their positions ascend strictly in the positions. -/
theorem pairwise_zipIdx {α : Type} (l : List α) : l.zipIdx.Pairwise fun a b => a.2 < b.2 := by
  have h : (l.zipIdx.map Prod.snd).Pairwise (· < ·) := by
    rw [List.zipIdx_map_snd]
    exact List.pairwise_lt_range'
  exact List.pairwise_map.mp h

/-- The positions of the members of a list that pass a test are strictly ascending. -/
theorem pairwise_positions {α : Type} (l : List α) (test : α → Bool) :
    (l.zipIdx.filterMap fun (a, i) => if test a then some i else none).Pairwise (· < ·) := by
  refine (pairwise_zipIdx l).filterMap _ ?_
  rintro ⟨a, i⟩ ⟨b, j⟩ hlt x hx y hy
  simp only [Option.ite_none_right_eq_some, Option.some.injEq] at hx hy
  rw [← hx.2, ← hy.2]
  exact hlt

/-- A position is listed exactly when the member there passes the test. -/
theorem mem_positions {α : Type} (l : List α) (test : α → Bool) (position : Nat) :
    position ∈ (l.zipIdx.filterMap fun (a, i) => if test a then some i else none) ↔
      ∃ a, l[position]? = some a ∧ test a = true := by
  simp only [List.mem_filterMap, Prod.exists, Option.ite_none_right_eq_some, Option.some.injEq,
    List.mem_zipIdx_iff_getElem?]
  constructor
  · rintro ⟨a, i, ha, htest, rfl⟩
    exact ⟨a, ha, htest⟩
  · rintro ⟨a, ha, htest⟩
    exact ⟨a, position, ha, htest, rfl⟩

end VariableOrder
