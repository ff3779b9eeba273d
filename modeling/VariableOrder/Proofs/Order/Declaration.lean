import Mathlib.Data.Prod.Lex
import VariableOrder.Order.Sort
import VariableOrder.Proofs.Ascending

/-!
# The order of declaration

Nodes are compared by the places where their variables are declared and, at the same place, by
their numbers. This is a linear order of the nodes of any graph.
-/

set_option autoImplicit false

namespace VariableOrder.Graph

variable {g : Graph}

/-- The place where a node is declared, and then its number. -/
def declarationKey (g : Graph) (i : Nat) : Int ×ₗ Nat :=
  toLex (g.sourceOrder i, i)

/-- Whether a node is declared before another one. -/
def Before (g : Graph) (i j : Nat) : Prop :=
  g.declarationKey i < g.declarationKey j

/-- Nodes are compared by the places of declaration first and then by their numbers. -/
theorem declaredUpTo_iff (i j : Nat) :
    g.declaredUpTo i j = true ↔ g.declarationKey i ≤ g.declarationKey j := by
  simp [declaredUpTo, declarationKey, Prod.Lex.toLex_le_toLex]

/-- What is before something is before all that comes after it. -/
theorem Before.trans {i j k : Nat} (hij : g.Before i j) (hjk : g.Before j k) : g.Before i k :=
  lt_trans hij hjk

/-- Of two nodes one at most is before the other. -/
theorem Before.asymm {i j : Nat} (h : g.Before i j) : ¬ g.Before j i :=
  lt_asymm h

/-- No node is before itself. -/
theorem Before.ne {i j : Nat} (h : g.Before i j) : i ≠ j := by
  rintro rfl
  exact lt_irrefl _ h

/-- A node that is not declared up to another one comes after it. -/
theorem before_of_not_declaredUpTo {i j : Nat} (h : ¬ g.declaredUpTo i j = true) :
    g.Before j i := by
  rw [declaredUpTo_iff, not_le] at h
  exact h

/-- Different nodes have different keys, so of two nodes one is declared before the other. -/
theorem before_of_ne {i j : Nat} (h : g.declarationKey i ≤ g.declarationKey j) (hne : i ≠ j) :
    g.Before i j := by
  refine lt_of_le_of_ne h fun heq => hne ?_
  exact congrArg (fun key => (ofLex key).2) heq

/-- Of two different nodes one is before the other. -/
theorem before_or_before {i j : Nat} (hne : i ≠ j) : g.Before i j ∨ g.Before j i := by
  rcases le_total (g.declarationKey i) (g.declarationKey j) with hle | hle
  · exact .inl (before_of_ne hle hne)
  · exact .inr (before_of_ne hle hne.symm)

/-- Nodes stand in the order of declaration in one way only. -/
theorem eq_of_pairwise_before {nodes others : List Nat} (h : nodes.Pairwise g.Before)
    (hothers : others.Pairwise g.Before) (hmem : ∀ i, i ∈ nodes ↔ i ∈ others) :
    nodes = others := by
  have hperm : nodes.Perm others :=
    (List.perm_ext_iff_of_nodup (h.imp Before.ne) (hothers.imp Before.ne)).mpr hmem
  exact hperm.eq_of_pairwise (fun _ _ _ _ hij hji => absurd hji hij.asymm) h hothers

/-- Putting nodes into the order of declaration neither loses nor adds one. -/
theorem byDeclaration_perm (nodes : List Nat) : (g.byDeclaration nodes).Perm nodes :=
  List.mergeSort_perm nodes _

/-- Different nodes are put into the order of declaration. -/
theorem pairwise_byDeclaration {nodes : List Nat} (h : nodes.Nodup) :
    (g.byDeclaration nodes).Pairwise g.Before := by
  have hsorted := pairwise_mergeSort_key g.declarationKey g.declaredUpTo declaredUpTo_iff nodes
  have hnodup := (byDeclaration_perm (g := g) nodes).nodup_iff.mpr h
  refine (hsorted.and hnodup).imp ?_
  rintro i j ⟨hle, hne⟩
  exact before_of_ne hle hne

end VariableOrder.Graph
