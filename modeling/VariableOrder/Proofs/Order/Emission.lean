import Mathlib.Data.List.Dedup
import Mathlib.Data.List.Perm.Subperm
import VariableOrder.Order.Emit
import VariableOrder.Proofs.Last
import VariableOrder.Proofs.Text.SortedNames

/-!
# Filling an order

An order of names is filled with definitions exactly when it has each of their names once. Every
name is filled with the last definition of that name, so a definition is left out if its name is
declared again behind it; with distinct names nothing is left out. In all other cases, and for a
deadlock, there is a failure and no ordered variables.
-/

set_option autoImplicit false

namespace VariableOrder

namespace Definition

variable {definitions : List Definition} {order : List String}

/-- An order is accepted exactly when it has each name of the definitions once. -/
theorem isOrderOf_iff : isOrderOf order definitions = true ↔
    order.Nodup ∧ ∀ name, name ∈ order ↔ name ∈ definitions.map (·.name) := by
  rw [isOrderOf, beq_iff_eq, Text.mergeSort_eq_sortedNames_iff]

/-- The last definition of a name is the one behind which there is none of that name. -/
theorem last?_eq_some_iff {name : String} {d : Definition} :
    last? definitions name = some d ↔ IsLast (fun e => e.name = name) definitions d :=
  find?_reverse_eq_some_iff fun _ => beq_iff_eq

/-- A name of a definition has a last definition. -/
theorem exists_last? {name : String} (h : name ∈ definitions.map (·.name)) :
    ∃ d, last? definitions name = some d ∧ d.name = name := by
  obtain ⟨d, hd, rfl⟩ := List.mem_map.mp h
  cases hlast : last? definitions d.name with
  | none =>
    have hnone := (find?_reverse_eq_none_iff fun _ => beq_iff_eq).mp hlast
    exact absurd rfl (hnone d hd)
  | some e => exact ⟨e, rfl, (last?_eq_some_iff.mp hlast).1⟩

/-- Declared names are filled with definitions of these names. -/
theorem map_name_filled (h : ∀ name ∈ order, name ∈ definitions.map (·.name)) :
    (order.filterMap (last? definitions)).map (·.name) = order := by
  rw [List.map_filterMap, List.filterMap_eq_map_iff_forall_eq_some.mpr, List.map_id]
  intro name hname
  obtain ⟨d, hd, hdname⟩ := exists_last? (h name hname)
  rw [hd, Option.map_some, hdname, id]

/-- What an order is filled with are definitions, each taken at most once. -/
theorem subperm_filled (horder : order.Nodup) (h : ∀ name ∈ order, name ∈ definitions.map (·.name)) :
    (order.filterMap (last? definitions)).Subperm definitions := by
  apply List.subperm_of_subset
  · apply List.Nodup.of_map (·.name)
    rwa [map_name_filled h]
  · intro d hd
    obtain ⟨name, -, hlast⟩ := List.mem_filterMap.mp hd
    exact (last?_eq_some_iff.mp hlast).mem

/-- Nothing is left out exactly when the names are distinct. -/
theorem filled_perm_iff (horder : order.Nodup)
    (h : ∀ name, name ∈ order ↔ name ∈ definitions.map (·.name)) :
    (order.filterMap (last? definitions)).Perm definitions ↔ (definitions.map (·.name)).Nodup := by
  have hnames := map_name_filled fun name => (h name).mp
  constructor
  · intro hperm
    have hsame := hperm.map (·.name)
    rw [hnames] at hsame
    exact hsame.nodup_iff.mp horder
  · intro hnodup
    refine (subperm_filled horder fun name => (h name).mp).perm_of_length_le (le_of_eq ?_)
    calc definitions.length = (definitions.map (·.name)).length := List.length_map _ |>.symm
      _ = order.length := ((List.perm_ext_iff_of_nodup horder hnodup).mpr h).length_eq.symm
      _ = ((order.filterMap (last? definitions)).map (·.name)).length := by rw [hnames]
      _ = (order.filterMap (last? definitions)).length := List.length_map _

end Definition

variable {definitions : List Definition} {order : List String} {warnings : List Warning}

/-- An outcome is filled exactly when it is an order that has each name once, and then with the last
definition of each name. -/
theorem emit_eq_ok_iff {outcome : Except Deadlock (List String)} {o : Ordered} :
    emit outcome definitions warnings = .ok o ↔
      ∃ order, outcome = .ok order ∧
        (order.Nodup ∧ ∀ name, name ∈ order ↔ name ∈ definitions.map (·.name)) ∧
        o = ⟨order.filterMap (Definition.last? definitions), warnings⟩ := by
  simp only [← Definition.isOrderOf_iff]
  cases outcome with
  | error d => simp [emit]
  | ok order =>
    simp only [emit, Except.ok.injEq, exists_eq_left']
    split_ifs with hfits
    · simp only [hfits, true_and, Except.ok.injEq]
      exact eq_comm
    · simp only [hfits, false_and, reduceCtorEq]

/-- A failure is the deadlock that is given, or an order that does not have each name once. -/
theorem emit_eq_error {outcome : Except Deadlock (List String)} {f : EmitFailure}
    (h : emit outcome definitions warnings = .error f) :
    (∃ d, outcome = .error d ∧ f = .deadlock d) ∨
      ∃ order, outcome = .ok order ∧ f = .notPermutation order := by
  cases outcome with
  | error d => exact .inl ⟨d, rfl, (Except.error.inj h).symm⟩
  | ok order =>
    simp only [emit] at h
    split_ifs at h
    exact .inr ⟨order, rfl, (Except.error.inj h).symm⟩

/-- An outcome can be filled exactly when it is an order that has each name once. -/
theorem exists_emit_iff {outcome : Except Deadlock (List String)} :
    (∃ o, emit outcome definitions warnings = .ok o) ↔ ∃ order, outcome = .ok order ∧
      order.Nodup ∧ ∀ name, name ∈ order ↔ name ∈ definitions.map (·.name) := by
  simp only [emit_eq_ok_iff]
  constructor
  · rintro ⟨o, order, houtcome, hfits, -⟩
    exact ⟨order, houtcome, hfits⟩
  · rintro ⟨order, houtcome, hfits⟩
    exact ⟨_, order, houtcome, hfits, rfl⟩

/-- Orders are filled exactly when they are permutations of the names, as long as the names are
distinct and no longer. -/
theorem emit_permutations_iff :
    (∀ order, (∃ o, emit (.ok order) definitions warnings = .ok o) ↔
      order.Perm (definitions.map (·.name))) ↔ (definitions.map (·.name)).Nodup := by
  simp only [exists_emit_iff, Except.ok.injEq, exists_eq_left']
  constructor
  · intro hall
    -- the names without their repetitions are filled, so they have to be all of the names
    have hperm := (hall (definitions.map (·.name)).dedup).mp
      ⟨List.nodup_dedup _, fun name => List.mem_dedup⟩
    exact hperm.nodup_iff.mp (List.nodup_dedup _)
  · intro hnodup order
    constructor
    · rintro ⟨horder, hmem⟩
      exact (List.perm_ext_iff_of_nodup horder hnodup).mpr hmem
    · intro hperm
      exact ⟨hperm.nodup_iff.mpr hnodup, fun name => hperm.mem_iff⟩

/-- An order is filled exactly when it has each name of the definitions once. Each name is then
filled with the last definition of that name, all warnings are kept, and nothing is left out exactly
when the names of the definitions are distinct; exactly then, too, are all permutations of the names
filled and no other orders. In all other cases there is a failure, which is the deadlock if there is
one. -/
theorem emit_complete_iff_distinct (outcome : Except Deadlock (List String))
    (definitions : List Definition) (warnings : List Warning) :
    ((∃ o, emit outcome definitions warnings = .ok o) ↔ ∃ order, outcome = .ok order ∧
      order.Nodup ∧ ∀ name, name ∈ order ↔ name ∈ definitions.map (·.name)) ∧
    (∀ o, emit outcome definitions warnings = .ok o →
      outcome = .ok o.names ∧ o.warnings = warnings ∧ o.definitions.Subperm definitions ∧
      (∀ d ∈ o.definitions, IsLast (fun e => e.name = d.name) definitions d) ∧
      (o.definitions.Perm definitions ↔ (definitions.map (·.name)).Nodup)) ∧
    (∀ f, emit outcome definitions warnings = .error f →
      (∃ d, outcome = .error d ∧ f = .deadlock d) ∨
        ∃ order, outcome = .ok order ∧ f = .notPermutation order) ∧
    ((∀ order, (∃ o, emit (.ok order) definitions warnings = .ok o) ↔
      order.Perm (definitions.map (·.name))) ↔ (definitions.map (·.name)).Nodup) := by
  refine ⟨exists_emit_iff, ?_, fun f hf => emit_eq_error hf, emit_permutations_iff⟩
  intro o ho
  obtain ⟨order, rfl, ⟨horder, hmem⟩, rfl⟩ := emit_eq_ok_iff.mp ho
  have hdeclared : ∀ name ∈ order, name ∈ definitions.map (·.name) := fun name => (hmem name).mp
  refine ⟨?_, rfl, Definition.subperm_filled horder hdeclared, ?_,
    Definition.filled_perm_iff horder hmem⟩
  · rw [Ordered.names, Definition.map_name_filled hdeclared]
  · intro d hd
    obtain ⟨name, -, hlast⟩ := List.mem_filterMap.mp hd
    have hlast := Definition.last?_eq_some_iff.mp hlast
    obtain rfl := hlast.1
    exact hlast

/-- With distinct names a permutation of them is filled with all definitions; with a repeated name
it is not, but a part of it is. -/
theorem emit_complete_iff_distinct_repeated :
    let first := Definition.ofValues "a" [.literal "1"] 0 true none
    let other := Definition.ofValues "b" [.literal ""] 1 false none
    let second := Definition.ofValues "a" [.literal "2"] 2 true none
    let lost : Warning := ⟨"b", "lost"⟩
    (∃ o, emit (.ok ["b", "a"]) [first, other] [lost] = .ok o ∧ o.names = ["b", "a"] ∧
      o.warnings = [lost] ∧ o.definitions.Perm [first, other]) ∧
    ∃ o, emit (.ok ["b", "a"]) [first, other, second] [lost] = .ok o ∧
      ¬ o.definitions.Perm [first, other, second] := by
  intro first other second lost
  have hdistinct := emit_complete_iff_distinct (.ok ["b", "a"]) [first, other] [lost]
  have hrepeated := emit_complete_iff_distinct (.ok ["b", "a"]) [first, other, second] [lost]
  constructor
  · have hfits : ∀ name, name ∈ ["b", "a"] ↔ name ∈ [first, other].map (·.name) := by
      simp [first, other, Definition.ofValues, or_comm]
    obtain ⟨o, ho⟩ := hdistinct.1.mpr ⟨_, rfl, by decide, hfits⟩
    obtain ⟨hnames, hwarnings, -, -, hperm⟩ := hdistinct.2.1 o ho
    exact ⟨o, ho, (Except.ok.inj hnames).symm, hwarnings, hperm.mpr (by decide)⟩
  · have hfits : ∀ name, name ∈ ["b", "a"] ↔ name ∈ [first, other, second].map (·.name) := by
      simp [first, other, second, Definition.ofValues]
    obtain ⟨o, ho⟩ := hrepeated.1.mpr ⟨_, rfl, by decide, hfits⟩
    obtain ⟨-, -, -, -, hperm⟩ := hrepeated.2.1 o ho
    exact ⟨o, ho, fun hall => absurd (hperm.mp hall) (by decide)⟩

/-- Of two definitions of one name only the second is handed on when the name is ordered once, and
the order that has the name twice is refused. -/
theorem emit_drops_repeated :
    let first := Definition.ofValues "a" [.literal "1"] 0 true none
    let second := Definition.ofValues "a" [.literal "2"] 1 true none
    let names := [first, second].map (·.name)
    (∃ o, emit (.ok ["a"]) [first, second] [] = .ok o ∧ o.definitions = [second] ∧
      ¬ ["a"].Perm names ∧ ¬ o.definitions.Perm [first, second]) ∧
    ["a", "a"].Perm names ∧ ¬ ∃ o, emit (.ok ["a", "a"]) [first, second] [] = .ok o := by
  intro first second names
  refine ⟨⟨⟨[second], []⟩, ?_, rfl, by decide, ?_⟩, by decide, ?_⟩
  · exact emit_eq_ok_iff.mpr ⟨_, rfl, ⟨by decide, by simp [first, second, Definition.ofValues]⟩, rfl⟩
  · intro hperm
    exact absurd hperm.length_eq (by decide)
  · rw [exists_emit_iff]
    rintro ⟨order, horder, hnodup, -⟩
    obtain rfl := Except.ok.inj horder
    exact absurd hnodup (by decide)

end VariableOrder
