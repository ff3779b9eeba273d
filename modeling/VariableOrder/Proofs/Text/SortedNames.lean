import Mathlib.Data.String.Basic
import VariableOrder.Proofs.Ascending
import VariableOrder.Text.Names

/-!
# Laws of sorted names

The sorted names of a list are its names in strictly ascending order. So a list of names sorts to
the sorted names of another one exactly when it has no repetition and the same members.
-/

set_option autoImplicit false

namespace VariableOrder.Text

/-- Inserting a name adds this name only. -/
theorem mem_insertName (name other : String) (names : List String) :
    other ∈ insertName name names ↔ other = name ∨ other ∈ names := by
  induction names with
  | nil => simp [insertName]
  | cons head rest ih =>
    unfold insertName
    split_ifs with hlt heq
    · simp
    · subst heq
      simp
    · simp only [List.mem_cons, ih]
      tauto

/-- Inserting a name keeps a list strictly ascending. -/
theorem pairwise_insertName (name : String) (names : List String) (h : names.Pairwise (· < ·)) :
    (insertName name names).Pairwise (· < ·) := by
  induction names with
  | nil => simp [insertName]
  | cons head rest ih =>
    obtain ⟨hhead, hrest⟩ := List.pairwise_cons.mp h
    unfold insertName
    split_ifs with hlt heq
    · refine List.pairwise_cons.mpr ⟨?_, h⟩
      intro other hother
      rcases List.mem_cons.mp hother with rfl | hmem
      · exact hlt
      · exact lt_trans hlt (hhead other hmem)
    · exact h
    · refine List.pairwise_cons.mpr ⟨?_, ih hrest⟩
      intro other hother
      rcases (mem_insertName name other rest).mp hother with rfl | hmem
      · exact lt_of_le_of_ne (not_lt.mp hlt) (Ne.symm heq)
      · exact hhead other hmem

/-- Sorting keeps exactly the names. -/
@[simp]
theorem mem_sortedNames (name : String) (names : List String) :
    name ∈ sortedNames names ↔ name ∈ names := by
  induction names with
  | nil => simp [sortedNames]
  | cons head rest ih =>
    change name ∈ insertName head (sortedNames rest) ↔ name ∈ head :: rest
    rw [mem_insertName, ih, List.mem_cons]

/-- Sorted names are strictly ascending. -/
theorem pairwise_sortedNames (names : List String) : (sortedNames names).Pairwise (· < ·) := by
  induction names with
  | nil => exact List.Pairwise.nil
  | cons head rest ih => exact pairwise_insertName head (sortedNames rest) ih

/-- Sorted names have no repetition. -/
theorem nodup_sortedNames (names : List String) : (sortedNames names).Nodup :=
  (pairwise_sortedNames names).imp fun h => ne_of_lt h

/-- Names are sorted to the same list if they are the same, in whatever order. -/
theorem sortedNames_eq_of_perm {names others : List String} (h : names.Perm others) :
    sortedNames names = sortedNames others := by
  have hsame : (sortedNames names).Perm (sortedNames others) := by
    rw [List.perm_ext_iff_of_nodup (nodup_sortedNames names) (nodup_sortedNames others)]
    intro name
    rw [mem_sortedNames, mem_sortedNames, h.mem_iff]
  exact hsame.eq_of_pairwise (fun _ _ _ _ hab hba => absurd hba (lt_asymm hab))
    (pairwise_sortedNames names) (pairwise_sortedNames others)

/-- A list of names sorts to the sorted names of another list exactly when it has no repetition
and the same members. -/
theorem mergeSort_eq_sortedNames_iff (order names : List String) :
    order.mergeSort (· ≤ ·) = sortedNames names ↔
      order.Nodup ∧ ∀ name, name ∈ order ↔ name ∈ names := by
  have hperm := List.mergeSort_perm order (fun a b => decide (a ≤ b))
  constructor
  · intro h
    rw [h] at hperm
    refine ⟨hperm.nodup_iff.mp (nodup_sortedNames names), fun name => ?_⟩
    rw [← hperm.mem_iff, mem_sortedNames]
  · rintro ⟨hnodup, hmem⟩
    have hsame : (order.mergeSort (· ≤ ·)).Perm (sortedNames names) := by
      refine hperm.trans ((List.perm_ext_iff_of_nodup hnodup (nodup_sortedNames names)).mpr ?_)
      intro name
      rw [mem_sortedNames, hmem]
    have hsorted : (order.mergeSort (· ≤ ·)).Pairwise (· ≤ ·) :=
      pairwise_mergeSort_key id _ (fun _ _ => decide_eq_true_iff) order
    exact hsame.eq_of_pairwise (fun _ _ _ _ => le_antisymm) hsorted
      ((pairwise_sortedNames names).imp fun h => le_of_lt h)

end VariableOrder.Text
