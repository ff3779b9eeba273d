import VariableOrder.Proofs.Graph.Duplicate
import VariableOrder.Proofs.Order.Numbering

/-!
# The list in which definitions are given

Definitions say themselves where they are declared. When no two of them say the same, there is only
one order of declaration, whatever list they are given in. The graph is built of the definitions in
that order, and an order of its nodes is filled with them by their names, so nothing that comes out
of a request depends on the list: neither the order and the warnings nor the failure.
-/

set_option autoImplicit false

namespace VariableOrder

variable {definitions others : List Definition}

section DistinctPlaces

variable (hperm : others.Perm definitions)
  (hdistinct : (definitions.map (·.sourceOrder)).Nodup)

include hperm hdistinct

/-- Definitions that are declared at different places have one order of declaration. -/
theorem Definition.declared_eq_of_perm : declared others = declared definitions := by
  have hsame : (declared others).Perm (declared definitions) :=
    ((declared_perm others).trans hperm).trans (declared_perm definitions).symm
  refine hsame.eq_of_pairwise ?_ (pairwise_sourceOrder_declared others)
    (pairwise_sourceOrder_declared definitions)
  intro a b ha hb hab hba
  rw [(declared_perm others).mem_iff, hperm.mem_iff] at ha
  rw [(declared_perm definitions).mem_iff] at hb
  exact List.inj_on_of_nodup_map hdistinct ha hb (le_antisymm hab hba)

/-- The graph does not depend on the list in which the definitions are given, nor does the failure
to build it. -/
theorem Graph.build_eq_of_perm : build others = build definitions := by
  simp only [build, Definition.declared_eq_of_perm hperm hdistinct]

/-- What definitions are resolved to does not depend on the list in which they are given. -/
theorem resolve_eq_of_perm (external : List String) :
    resolve others external = resolve definitions external := by
  have hbuild := Graph.build_eq_of_perm hperm hdistinct
  cases hgraph : Graph.build definitions with
  | error failure => simp only [resolve, hbuild, hgraph]
  | ok g =>
    -- the definitions are looked up in the list as it was given, but their names are distinct
    rw [resolve_of_build hgraph, resolve_of_build (hbuild.trans hgraph),
      Definition.declared_eq_of_perm hperm hdistinct]

end DistinctPlaces

/-- Definitions that are declared at different places are answered alike in whatever list they are
given: with the same ordered definitions and warnings, or with the same failure. -/
theorem requestOrder_perm (hperm : others.Perm definitions)
    (hdistinct : (definitions.map (·.sourceOrder)).Nodup) (external workers : Data.Value) :
    requestOrder others external workers = requestOrder definitions external workers := by
  simp only [requestOrder_eq, resolve_eq_of_perm hperm hdistinct]

/-- A name that is declared twice is reported with its places in ascending order, although the
later declaration is given first. -/
theorem requestOrder_perm_repeated :
    let definitions :=
      [Definition.ofValues "repeated" [] 1 false none,
        Definition.ofValues "other" [.reference ⟨"repeated", false, "repeated"⟩] 2 false none,
        Definition.ofValues "repeated" [] 7 true none]
    let failure := RequestFailure.resolution (.build (.duplicate "repeated" 1 7))
    definitions.reverse.Perm definitions ∧ (definitions.map (·.sourceOrder)).Nodup ∧
      requestOrder definitions (.list []) .null = .error failure ∧
      requestOrder definitions.reverse (.list []) .null = .error failure := by
  intro definitions failure
  have hperm := List.reverse_perm definitions
  have hdistinct : (definitions.map (·.sourceOrder)).Nodup := by decide
  have hdeclared := Definition.declared_eq_self definitions (by decide)
  have hduplicate : Definition.firstDuplicate [] (Definition.declared definitions) =
      some ("repeated", 1, 7) := by
    rw [hdeclared]
    decide +kernel
  have hrequest : requestOrder definitions (.list []) .null = .error failure := by
    simp only [requestOrder_plain, resolve, Graph.build_eq_duplicate_iff.mpr hduplicate]
    rfl
  refine ⟨hperm, hdistinct, hrequest, ?_⟩
  rw [requestOrder_perm hperm hdistinct, hrequest]

end VariableOrder
