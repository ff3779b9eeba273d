import VariableOrder.Order.Writing
import VariableOrder.Proofs.Expression.Written
import VariableOrder.Proofs.Files.Access
import VariableOrder.Proofs.Order.Resolution

/-!
# What writing an order leaves

Resolved variables hold no raw value, so nothing but the depth of their nesting can keep them from
being printed. Printing stands between opening a file and filling it: variables that are not
printed leave the file empty, and those that are printed fill it with all of their document.
-/

set_option autoImplicit false

namespace VariableOrder

open Files (Tree Place Failure)
open Files.Access (openFile Written)

/-- A well-formed expression can be written: no raw value stands where one is to be written. -/
theorem Expr.firstUnwritable_of_wellFormed {e : Expr} (h : e.WellFormed) :
    e.firstUnwritable = none := by
  rw [← firstUnsupported_eq_none_iff] at h
  induction e using children_induction with
  | _ e ih =>
    obtain ⟨hraw, hchildren⟩ := (firstUnsupported_eq_none_step e).mp h
    cases e with
    | literal text => rfl
    | reference r => rfl
    | template source parts => rfl
    | unsupported raw => exact absurd rfl (hraw raw)
    | call provider params =>
      refine firstUnwritable_call fun p hp e he => ?_
      have hchild : e ∈ (call provider params).children := List.mem_flatMap.mpr ⟨p, hp, he⟩
      exact ih e hchild (hchildren e hchild)

namespace Ordered

variable {o : Ordered} {room : Nat} {t opened : Tree} {path : String} {place : Place}

/-- Variables that definitions are resolved to can be written. -/
theorem firstUnwritable_of_resolve {definitions : List Definition} {external : List String}
    (h : resolve definitions external = .ok o) : o.firstUnwritable = none := by
  obtain ⟨g, -, hbuild, -⟩ := exists_graph_of_resolve_ok h
  have hwellFormed := (Graph.build_eq_ok_iff.mp hbuild).2.1
  simp only [firstUnwritable, Definition.firstUnwritable, List.findSome?_eq_none_iff]
  intro d hd c hc
  exact Expr.firstUnwritable_of_wellFormed
    (hwellFormed d ((perm_of_resolve h).mem_iff.mp hd) c hc)

end Ordered

end VariableOrder
