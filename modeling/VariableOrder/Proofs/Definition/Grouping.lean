import Mathlib.Data.List.Induction
import Mathlib.Data.List.Nodup
import VariableOrder.Proofs.Definition.Load

/-!
# Grouping by name

Dynamic entries of one name are candidates of one variable. What is grouped is told by one more
entry: its candidate goes to the end of the group of its name, or makes the last group. So the
groups are those of the names in the order of their first appearance, each with all candidates of
its name in their order.
-/

set_option autoImplicit false

namespace VariableOrder.Definition

/-- The candidates that entries have under a name, in the order of the entries. -/
def candidatesOf (name : String) (entries : List (String × Candidate)) : List Candidate :=
  (entries.filter fun e => e.1 == name).map (·.2)

/-- A name that is appended is listed last if it is a new one. -/
theorem eraseDups_concat (names : List String) (name : String) :
    (names ++ [name]).eraseDups =
      if name ∈ names then names.eraseDups else names.eraseDups ++ [name] := by
  rw [List.eraseDups_append]
  split_ifs with h <;> simp [List.removeAll, h, List.eraseDups_cons]

/-- Each of the different names is kept once. -/
theorem nodup_eraseDups (names : List String) : names.eraseDups.Nodup := by
  induction names using List.reverseRecOn with
  | nil => simp
  | append_singleton names name ih =>
    rw [eraseDups_concat]
    split_ifs with h
    · exact ih
    · rw [← List.concat_eq_append]
      exact ih.concat fun hmem => h (List.mem_eraseDups.mp hmem)

/-- A further entry adds its candidate to its own name only. -/
theorem candidatesOf_concat (name : String) (entries : List (String × Candidate))
    (e : String × Candidate) :
    candidatesOf name (entries ++ [e]) =
      if e.1 = name then candidatesOf name entries ++ [e.2] else candidatesOf name entries := by
  unfold candidatesOf
  rw [List.filter_append, List.map_append]
  split_ifs with h <;> simp [h]

/-- A name that no entry has has no candidates. -/
theorem candidatesOf_eq_nil {name : String} {entries : List (String × Candidate)}
    (h : name ∉ entries.map (·.1)) : candidatesOf name entries = [] := by
  unfold candidatesOf
  rw [List.map_eq_nil_iff, List.filter_eq_nil_iff]
  intro e he
  rw [beq_iff_eq]
  rintro rfl
  exact h (List.mem_map_of_mem he)

/-- One step: a candidate goes to the group of its name, or makes the last group. -/
theorem addCandidate_map {names : List String} (hnodup : names.Nodup) {name : String}
    (x : Candidate) {f : String → List Candidate} (hnew : name ∉ names → f name = []) :
    addCandidate name x (names.map fun n => (n, f n)) =
      (if name ∈ names then names else names ++ [name]).map fun n =>
        (n, if name = n then f n ++ [x] else f n) := by
  induction names with
  | nil => simp [addCandidate, hnew]
  | cons first rest ih =>
    obtain ⟨hfirst, hrest⟩ := List.nodup_cons.mp hnodup
    rw [List.map_cons, addCandidate]
    by_cases hname : first = name
    · subst hname
      have hothers : ∀ n ∈ rest, (n, f n) = (n, if first = n then f n ++ [x] else f n) := by
        intro n hn
        rw [if_neg (ne_of_mem_of_not_mem hn hfirst).symm]
      simp [List.map_congr_left hothers]
    · have hne : name ≠ first := fun heq => hname heq.symm
      rw [if_neg hname, ih hrest fun hmem => hnew (by simp [hne, hmem])]
      by_cases hmem : name ∈ rest <;> simp [hne, hmem]

/-- A further entry is added to the groups of the entries in front of it. -/
theorem grouped_concat (entries : List (String × Candidate)) (e : String × Candidate) :
    grouped (entries ++ [e]) = addCandidate e.1 e.2 (grouped entries) := by
  simp [grouped]

/-- The groups are those of the names in the order of their first appearance, each with all
candidates of its name. -/
theorem grouped_eq (entries : List (String × Candidate)) :
    grouped entries =
      (entries.map (·.1)).eraseDups.map fun name => (name, candidatesOf name entries) := by
  induction entries using List.reverseRecOn with
  | nil => rfl
  | append_singleton entries e ih =>
    have hnew : e.1 ∉ (entries.map (·.1)).eraseDups → candidatesOf e.1 entries = [] := by
      rw [List.mem_eraseDups]
      exact candidatesOf_eq_nil
    rw [grouped_concat, ih, addCandidate_map (nodup_eraseDups _) e.2 hnew, List.map_append,
      List.map_singleton, eraseDups_concat]
    simp only [List.mem_eraseDups, candidatesOf_concat]

/-- The groups hold exactly the given candidates, each under its name. -/
theorem mem_grouped_iff (entries : List (String × Candidate)) (name : String) (c : Candidate) :
    (∃ candidates, (name, candidates) ∈ grouped entries ∧ c ∈ candidates) ↔
      (name, c) ∈ entries := by
  have hmem : ∀ n, c ∈ candidatesOf n entries ↔ (n, c) ∈ entries := by simp [candidatesOf]
  rw [grouped_eq]
  constructor
  · rintro ⟨candidates, hgroup, hc⟩
    obtain ⟨n, -, heq⟩ := List.mem_map.mp hgroup
    obtain ⟨rfl, rfl⟩ := Prod.mk.inj heq
    exact (hmem n).mp hc
  · intro h
    have hname : name ∈ (entries.map (·.1)).eraseDups :=
      List.mem_eraseDups.mpr (List.mem_map.mpr ⟨_, h, rfl⟩)
    exact ⟨_, List.mem_map.mpr ⟨name, hname, rfl⟩, (hmem name).mpr h⟩

/-- The groups are named as the entries are. -/
theorem mem_map_grouped_iff {entries : List (String × Candidate)} {name : String} :
    name ∈ (grouped entries).map (·.1) ↔ name ∈ entries.map (·.1) := by
  rw [grouped_eq, List.map_map]
  simp

/-- One step: one candidate more, whether its name is a new one or not. -/
theorem length_addCandidate (name : String) (x : Candidate)
    (groups : List (String × List Candidate)) :
    ((addCandidate name x groups).flatMap (·.2)).length = (groups.flatMap (·.2)).length + 1 := by
  induction groups with
  | nil => rfl
  | cons first rest ih =>
    obtain ⟨n, candidates⟩ := first
    rw [addCandidate]
    split_ifs with hname
    · simp only [List.flatMap_cons, List.length_append, List.length_singleton]
      omega
    · simp only [List.flatMap_cons, List.length_append, ih]
      omega

/-- Every entry is one candidate of one group. -/
theorem length_grouped (entries : List (String × Candidate)) :
    ((grouped entries).flatMap (·.2)).length = entries.length := by
  induction entries using List.reverseRecOn with
  | nil => rfl
  | append_singleton entries e ih =>
    rw [grouped_concat, length_addCandidate, ih, List.length_append, List.length_singleton]

section Numbered

variable {β : Type}

/-- What is said of the definitions of entries, apart from their places, is said of the entries. -/
theorem map_ofStatic (g : String → List Candidate → Bool → β)
    (entries : List (String × Candidate)) :
    ((ofStatic entries).map fun d => g d.name d.candidates d.isStatic) =
      entries.map fun a => g a.1 [a.2] true := by
  unfold ofStatic
  rw [List.map_map]
  conv_rhs => rw [← List.zipIdx_map_fst 0 entries, List.map_map]
  rfl

/-- Apart from their places, the dynamic definitions are the groups. -/
theorem map_ofDynamic (g : String → List Candidate → Bool → β) (declared : Nat)
    (entries : List (String × Candidate)) :
    ((ofDynamic declared entries).map fun d => g d.name d.candidates d.isStatic) =
      (grouped entries).map fun group => g group.1 group.2 false := by
  unfold ofDynamic
  rw [List.map_map]
  conv_rhs => rw [← List.zipIdx_map_fst 0 (grouped entries), List.map_map]
  rfl

end Numbered

end VariableOrder.Definition
