import VariableOrder.Proofs.Data.Record
import VariableOrder.Proofs.Text.SortedNames
import VariableOrder.Provider.Call

/-!
# Names of parameters

Parameters are given under names. A name that is no text breaks off the check of a provider, since
no provider knows it and it can not be told; nothing else does. When nothing is wrong, everything
is given under the name of a parameter.
-/

set_option autoImplicit false

namespace VariableOrder

open Data (Value Record)

/-- A name is of the class of texts exactly when it is one. -/
theorem Param.nameClass_eq_two_iff {v : Value} : nameClass v = 2 ↔ ∃ s, v = .text s := by
  cases v with
  | moment m =>
    simp only [nameClass, reduceCtorEq, exists_false, iff_false]
    split <;> decide
  | _ => simp [nameClass]

/-- Names make a fault unless all of them are texts. -/
theorem Param.namesFault?_eq_none_iff (names : List Value) :
    namesFault? names = none ↔ ∀ v ∈ names, ∃ s, v = .text s := by
  cases names with
  | nil => simp [namesFault?]
  | cons first others =>
    simp only [← nameClass_eq_two_iff, List.forall_mem_cons]
    cases hother : others.find? fun v => nameClass v != nameClass first with
    | some v =>
      have hmem := List.mem_of_find?_eq_some hother
      have hne : nameClass v ≠ nameClass first := by
        simpa using List.find?_some hother
      simp only [namesFault?, hother, reduceCtorEq, false_iff, not_and]
      intro hfirst hall
      exact hne ((hall v hmem).trans hfirst.symm)
    | none =>
      -- all names are of one class, so that of the first decides
      have hsame : ∀ v ∈ others, nameClass v = nameClass first := by
        simpa using hother
      by_cases hfirst : nameClass first = 2
      · have hall : ∀ v ∈ others, nameClass v = 2 := fun v hv => (hsame v hv).trans hfirst
        rw [hfirst] at hother
        simp only [namesFault?, hfirst, hother, if_true, true_and, true_iff]
        exact hall
      · simp [namesFault?, hother, hfirst]

namespace Provider

variable (p : Provider) (raw : Record Param)

/-- The names that no parameter has. -/
def unknownNames : List Value :=
  (raw.map (·.1)).filter fun key => !p.paramNames.any fun name => key.isText name

/-- Unknown names are told in order, unless they can not be put into one or are no texts. -/
theorem unknownParams_eq : p.unknownParams raw =
    match Param.namesFault? (p.unknownNames raw) with
    | some f => .error f
    | none => .ok (Text.sortedNames (Param.nameTexts (p.unknownNames raw))) :=
  rfl

/-- The unknown names are the keys that are no parameters. -/
theorem mem_unknownNames (key : Value) :
    key ∈ p.unknownNames raw ↔
      (∃ q, (key, q) ∈ raw) ∧ ∀ name ∈ p.paramNames, key ≠ .text name := by
  simp only [unknownNames, List.mem_filter, List.mem_map, Prod.exists, exists_and_right,
    exists_eq_right, Bool.not_eq_true', List.any_eq_false, Value.isText_iff, ne_eq]

/-- The check of a provider breaks off exactly when something is given under a name that is no
text. -/
theorem problems_eq_error_iff :
    (∃ f, p.problems raw = .error f) ↔ ∃ e ∈ raw, ∀ s, e.1 ≠ .text s := by
  have hnames : (∃ f, p.problems raw = .error f) ↔
      Param.namesFault? (p.unknownNames raw) ≠ none := by
    unfold problems
    rw [unknownParams_eq]
    cases Param.namesFault? (p.unknownNames raw) with
    | none => simp [bind, Except.bind, pure, Except.pure]
    | some f => simp [bind, Except.bind]
  rw [hnames, Ne, Param.namesFault?_eq_none_iff]
  simp only [mem_unknownNames, not_forall, not_exists]
  constructor
  · rintro ⟨key, ⟨⟨q, hq⟩, -⟩, hkey⟩
    exact ⟨(key, q), hq, hkey⟩
  · rintro ⟨⟨key, q⟩, hq, hkey⟩
    exact ⟨key, ⟨⟨q, hq⟩, fun name _ => hkey name⟩, hkey⟩

variable {p raw}

/-- There is no problem exactly when no check finds one. -/
theorem problems_eq_nil_iff :
    p.problems raw = .ok [] ↔ Param.namesFault? (p.unknownNames raw) = none ∧
      p.missingParams raw = [] ∧ Text.sortedNames (Param.nameTexts (p.unknownNames raw)) = [] ∧
      p.choices.filterMap (choiceProblem? raw) = [] ∧ p.listedSingles raw = [] := by
  unfold problems
  rw [unknownParams_eq]
  cases Param.namesFault? (p.unknownNames raw) with
  | some f => simp [bind, Except.bind]
  | none => simp [bind, Except.bind, pure, Except.pure]

/-- When nothing is wrong, everything is given under the name of a parameter. -/
theorem exists_name_of_problems (h : p.problems raw = .ok []) {key : Value} {q : Param}
    (hmem : (key, q) ∈ raw) : ∃ name ∈ p.paramNames, key = .text name := by
  obtain ⟨hnofault, -, hunknown, -⟩ := problems_eq_nil_iff.mp h
  by_contra hnone
  have hkey : key ∈ p.unknownNames raw :=
    (mem_unknownNames p raw key).mpr ⟨⟨q, hmem⟩, fun name hname heq => hnone ⟨name, hname, heq⟩⟩
  obtain ⟨s, rfl⟩ := (Param.namesFault?_eq_none_iff _).mp hnofault key hkey
  have hs : s ∈ Text.sortedNames (Param.nameTexts (p.unknownNames raw)) := by
    rw [Text.mem_sortedNames]
    exact List.mem_filterMap.mpr ⟨_, hkey, rfl⟩
  rw [hunknown] at hs
  cases hs

end Provider

end VariableOrder
