import Mathlib.Data.List.Nodup
import Mathlib.Data.Prod.Lex
import VariableOrder.Order.Sort
import VariableOrder.Proofs.Definition.Arrangement
import VariableOrder.Proofs.Graph.Extraction
import VariableOrder.Proofs.Graph.WellFormed

/-!
# Built graphs

Definitions in the order of declaration are ascending in rank, so the numbers of nodes agree with
the ranks of definitions. Definitions have a graph exactly when their names are distinct and none
of them holds a raw value. That graph is well formed, and it has an edge between two nodes exactly
when the definition of the second refers to the name of the first.
-/

set_option autoImplicit false

namespace VariableOrder

namespace Definition

variable {definitions : List Definition}

/-- Putting definitions into the order of declaration neither loses nor adds one. -/
theorem declared_perm (definitions : List Definition) :
    (declared definitions).Perm definitions :=
  List.mergeSort_perm definitions _

/-- Names stay distinct in the order of declaration. -/
theorem nodup_declared (h : (definitions.map (·.name)).Nodup) :
    ((declared definitions).map (·.name)).Nodup :=
  ((declared_perm definitions).map _).nodup_iff.mpr h

/-- Definitions with distinct names are strictly ascending in rank when they are in declaration
order. -/
theorem pairwise_rank_declared (h : (definitions.map (·.name)).Nodup) :
    (declared definitions).Pairwise fun a b => rank definitions a < rank definitions b := by
  let le : Definition → Definition → Bool := fun a b => a.sourceOrder ≤ b.sourceOrder
  -- the stable sort is the sort of the members with their positions
  let key : Definition × Nat → Int ×ₗ Nat := fun p => toLex (p.1.sourceOrder, p.2)
  have hkey : ∀ p q, List.zipIdxLE le p q = true ↔ key p ≤ key q := by
    intro p q
    simp only [List.zipIdxLE, le, key, Prod.Lex.toLex_le_toLex, decide_eq_true_eq]
    split_ifs with hpq hqp
    · simp only [decide_eq_true_eq]
      omega
    · simp only [true_iff]
      omega
    · simp only [false_iff]
      omega
  have hsorted := pairwise_mergeSort_key key (List.zipIdxLE le) hkey definitions.zipIdx
  have hnodup : (definitions.zipIdx.mergeSort (List.zipIdxLE le)).Pairwise
      fun a b => a.2 ≠ b.2 := by
    have hpositions : (definitions.zipIdx.map Prod.snd).Nodup := by
      rw [List.zipIdx_map_snd]
      exact List.nodup_range'
    exact List.pairwise_map.mp
      (((List.mergeSort_perm _ (List.zipIdxLE le)).map Prod.snd).nodup_iff.mpr hpositions)
  have hdeclared : declared definitions =
      (definitions.zipIdx.mergeSort (List.zipIdxLE le)).map (·.1) :=
    List.mergeSort_zipIdx.symm
  rw [hdeclared, List.pairwise_map]
  refine (hsorted.and hnodup).imp_of_mem ?_
  rintro ⟨a, i⟩ ⟨b, j⟩ ha hb ⟨hle, hne⟩
  rw [List.mem_mergeSort, List.mem_zipIdx_iff_getElem?] at ha hb
  rw [rank, rank, position_eq h ha, position_eq h hb]
  exact lt_of_le_of_ne hle fun heq => hne (congrArg (fun p => (ofLex p).2) heq)

/-- Definitions in declaration order ascend by the places where they are declared. -/
theorem pairwise_sourceOrder_declared (definitions : List Definition) :
    (declared definitions).Pairwise fun a b => a.sourceOrder ≤ b.sourceOrder :=
  pairwise_mergeSort_key _ _ (fun _ _ => decide_eq_true_iff) definitions

/-- A definition whose name none of the others has keeps the names distinct. -/
theorem nodup_names_concat {seen : List Definition} {d : Definition}
    (hseen : (seen.map (·.name)).Nodup) (hnew : (seen.find? fun e => e.name == d.name) = none) :
    ((seen ++ [d]).map (·.name)).Nodup := by
  have hother : ∀ e ∈ seen, e.name ≠ d.name := by simpa using hnew
  rw [List.map_append, List.nodup_append]
  refine ⟨hseen, by simp, ?_⟩
  intro a ha b hb
  obtain ⟨e, he, rfl⟩ := List.mem_map.mp ha
  simp only [List.map_cons, List.map_nil, List.mem_singleton] at hb
  exact hb ▸ hother e he

/-- No name is repeated exactly when no first repetition is found. -/
theorem firstDuplicate_eq_none_iff (seen rest : List Definition)
    (hseen : (seen.map (·.name)).Nodup) :
    firstDuplicate seen rest = none ↔ ((seen ++ rest).map (·.name)).Nodup := by
  induction rest generalizing seen with
  | nil => simpa [firstDuplicate] using hseen
  | cons d rest ih =>
    unfold firstDuplicate
    cases hfind : seen.find? fun e => e.name == d.name with
    | some e =>
      have hmem := List.mem_of_find?_eq_some hfind
      have hname : e.name = d.name := by simpa using List.find?_some hfind
      simp only [reduceCtorEq, false_iff, List.map_append, List.map_cons]
      intro hnodup
      exact List.disjoint_of_nodup_append hnodup (List.mem_map_of_mem hmem) (by simp [hname])
    | none =>
      rw [ih (seen ++ [d]) (nodup_names_concat hseen hfind), List.append_assoc,
        List.singleton_append]

end Definition

namespace Graph

open Definition (declared)

variable {definitions : List Definition} {g : Graph}

/-- Definitions whose names are not distinct are refused for a repeated name. -/
theorem build_of_not_nodup (h : ¬ (definitions.map (·.name)).Nodup) :
    ∃ name first second, build definitions = .error (.duplicate name first second) := by
  have hsome : Definition.firstDuplicate [] (declared definitions) ≠ none := by
    rw [Ne, Definition.firstDuplicate_eq_none_iff [] _ (by simp)]
    exact mt ((Definition.declared_perm definitions).map _).nodup_iff.mp h
  obtain ⟨⟨name, first, second⟩, hfound⟩ := Option.ne_none_iff_exists'.mp hsome
  exact ⟨name, first, second, by simp only [build_eq, hfound]⟩

/-- Definitions have a graph exactly when their names are distinct and they are well formed. -/
theorem build_eq_ok_iff :
    build definitions = .ok g ↔
      (definitions.map (·.name)).Nodup ∧ (∀ d ∈ definitions, d.WellFormed) ∧
        g = ⟨(declared definitions).map (Definition.node (declared definitions))⟩ := by
  have hnone : Definition.firstDuplicate [] (declared definitions) = none ↔
      (definitions.map (·.name)).Nodup := by
    rw [Definition.firstDuplicate_eq_none_iff [] _ (by simp)]
    exact ((Definition.declared_perm definitions).map _).nodup_iff
  have hraw : (declared definitions).findSome? Definition.firstUnsupported = none ↔
      ∀ d ∈ definitions, d.WellFormed := by
    simp only [List.findSome?_eq_none_iff, Definition.firstUnsupported_eq_none_iff,
      (Definition.declared_perm definitions).mem_iff]
  rw [build_eq, ← hnone, ← hraw]
  cases Definition.firstDuplicate [] (declared definitions) with
  | some found => simp
  | none =>
    cases (declared definitions).findSome? Definition.firstUnsupported with
    | some raw => simp
    | none => simp [eq_comm]

/-- A graph has as many nodes as there are definitions. -/
theorem size_of_build (h : build definitions = .ok g) : g.size = definitions.length := by
  obtain ⟨-, -, rfl⟩ := build_eq_ok_iff.mp h
  rw [size, List.length_map, (Definition.declared_perm definitions).length_eq]

/-- A node has the name of the definition at its place. -/
theorem name_of_build (h : build definitions = .ok g) {i : Nat} {d : Definition}
    (hd : (declared definitions)[i]? = some d) : g.name i = d.name := by
  obtain ⟨-, -, rfl⟩ := build_eq_ok_iff.mp h
  simp [name, List.getElem?_map, hd, Definition.node, Definition.nodeOf]

/-- A node is declared where the definition at its place is. -/
theorem sourceOrder_of_build (h : build definitions = .ok g) {i : Nat} {d : Definition}
    (hd : (declared definitions)[i]? = some d) : g.sourceOrder i = d.sourceOrder := by
  obtain ⟨-, -, rfl⟩ := build_eq_ok_iff.mp h
  simp [sourceOrder, List.getElem?_map, hd, Definition.node, Definition.nodeOf]

/-- The number of a name in declaration order. -/
theorem position?_eq_some_iff (h : (definitions.map (·.name)).Nodup) (name : String) (i : Nat) :
    Definition.position? (declared definitions) name = some i ↔
      ∃ d, (declared definitions)[i]? = some d ∧ d.name = name :=
  findIdx?_eq_some_iff_of_nodup (Definition.nodup_declared h) name i

/-- A node needs another one exactly when its definition refers to the other one's name. -/
theorem edge_of_build (h : build definitions = .ok g) (i j : Nat) :
    g.Edge i j ↔ ∃ a b, (declared definitions)[i]? = some a ∧
      (declared definitions)[j]? = some b ∧ b.RefersTo a.name := by
  obtain ⟨hnodup, -, rfl⟩ := build_eq_ok_iff.mp h
  rw [edge_iff]
  simp only [List.getElem?_map, Option.map_eq_some_iff]
  constructor
  · rintro ⟨n, ⟨b, hb, rfl⟩, hi⟩
    rw [Definition.node, Definition.nodeOf, List.mem_mergeSort, List.mem_filterMap] at hi
    obtain ⟨name, hneeds, hposition⟩ := hi
    obtain ⟨a, ha, rfl⟩ := (position?_eq_some_iff hnodup name i).mp hposition
    exact ⟨a, b, ha, hb, (Definition.mem_needs_iff b a.name).mp hneeds⟩
  · rintro ⟨a, b, ha, hb, hrefers⟩
    refine ⟨_, ⟨b, hb, rfl⟩, ?_⟩
    rw [Definition.node, Definition.nodeOf, List.mem_mergeSort, List.mem_filterMap]
    exact ⟨a.name, (Definition.mem_needs_iff b a.name).mpr hrefers,
      (position?_eq_some_iff hnodup a.name i).mpr ⟨a, ha, rfl⟩⟩

/-- The dependencies of a definition's node are strictly ascending. -/
theorem pairwise_dependencies_node (h : (definitions.map (·.name)).Nodup) (d : Definition) :
    (Definition.node (declared definitions) d).dependencies.Pairwise (· < ·) := by
  let found := d.needs.filterMap (Definition.position? (declared definitions))
  have hnodup : found.Nodup := by
    refine (Text.nodup_sortedNames _).filterMap ?_
    intro a b i ha hb
    obtain ⟨x, hx, rfl⟩ := (position?_eq_some_iff h a i).mp ha
    obtain ⟨y, hy, rfl⟩ := (position?_eq_some_iff h b i).mp hb
    rw [Option.some.inj (hx.symm.trans hy)]
  have hsorted := pairwise_mergeSort_key id (fun a b : Nat => decide (a ≤ b))
    (fun _ _ => decide_eq_true_iff) found
  have hdistinct : (found.mergeSort fun a b => decide (a ≤ b)).Nodup :=
    (List.mergeSort_perm found _).nodup_iff.mpr hnodup
  refine (hsorted.and hdistinct).imp ?_
  rintro a b ⟨hle, hne⟩
  exact lt_of_le_of_ne hle hne

/-- The graph of definitions is well formed. -/
theorem wellFormed_of_build (h : build definitions = .ok g) : g.WellFormed := by
  have hedge := edge_of_build h
  obtain ⟨hnodup, -, hg⟩ := build_eq_ok_iff.mp h
  refine ⟨?_, ?_, ?_, ?_⟩
  · rw [hg]
    simpa [names, List.map_map, Function.comp_def, Definition.node, Definition.nodeOf] using
      Definition.nodup_declared hnodup
  · intro n hn
    rw [hg] at hn
    obtain ⟨d, -, rfl⟩ := List.mem_map.mp hn
    exact pairwise_dependencies_node hnodup d
  · intro n hn i hi
    obtain ⟨j, hj⟩ := List.mem_iff_getElem?.mp hn
    obtain ⟨a, -, ha, -⟩ := (hedge i j).mp ((edge_iff i j).mpr ⟨n, hj, hi⟩)
    have hlt := (List.getElem?_eq_some_iff.mp ha).1
    rwa [(Definition.declared_perm definitions).length_eq, ← size_of_build h] at hlt
  · rw [hg, List.pairwise_map]
    exact Definition.pairwise_sourceOrder_declared definitions

end Graph

end VariableOrder
