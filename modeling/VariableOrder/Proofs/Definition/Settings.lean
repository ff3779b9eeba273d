import VariableOrder.Definition.Source
import VariableOrder.Order.Request
import VariableOrder.Proofs.Schema.Collection

/-!
# Accepted settings

Names from outside and a count of workers that is absent or at least one are accepted as they are,
and no other count is, neither in a request nor in a definition file.
-/

set_option autoImplicit false

namespace VariableOrder

open Schema (Checked)

/-- A list of texts is accepted as it is. -/
theorem Schema.checkList_texts (texts : List String) :
    checkList checkText (.list (texts.map .text)) = .ok texts := by
  refine checkItems_eq_ok_iff.mpr ?_
  rw [List.forall₂_map_left_iff, List.forall₂_same]
  intro s _
  rfl

/-- An absent count and a count from one on are accepted as they are. -/
theorem Schema.checkOptionalAtLeast_one (workers : Option Int)
    (h : ∀ n, workers = some n → 1 ≤ n) :
    checkOptionalAtLeast 1 (Settings.workersValue workers) = .ok workers := by
  cases workers with
  | none => rfl
  | some n =>
    have hn : ¬ n < 1 := by
      have hone := h n rfl
      omega
    change (if n < 1 then Checked.refuse (.atLeast 1) else .ok (some n)) = .ok (some n)
    rw [if_neg hn]

/-- A number that is accepted is as large as required. -/
theorem Schema.le_of_checkOptionalAtLeast {least n : Int} {v : Data.Value}
    (h : checkOptionalAtLeast least v = .ok (some n)) : least ≤ n := by
  unfold checkOptionalAtLeast at h
  split at h
  · cases h
  · obtain ⟨m, -, h⟩ := bind_eq_ok_iff.mp h
    split at h
    · cases h
    · obtain rfl := Option.some.inj (Except.ok.inj h)
      omega

namespace Settings

variable {s : Settings}

/-- A count of workers that is understood is at least one. -/
theorem one_le_of_ofFields {entries : Data.Record Data.Value} (h : ofFields entries = .ok s)
    (n : Int) (hn : s.workers = some n) : 1 ≤ n := by
  unfold ofFields at h
  dsimp only at h
  split at h
  · rename_i hworkers _
    obtain rfl := Except.ok.inj h
    obtain rfl : _ = some n := hn
    rcases Schema.defaulted_eq_ok_iff.mp hworkers with ⟨v, -, hv⟩ | ⟨-, hnone⟩
    · exact Schema.le_of_checkOptionalAtLeast hv
    · cases hnone
  · cases h

/-- Accepted settings ask for one worker at least, if they name a count. -/
theorem one_le_of_ofValue {v : Data.Value} (h : ofValue v = .ok s) (n : Int)
    (hn : s.workers = some n) : 1 ≤ n := by
  cases v with
  | record entries => exact one_le_of_ofFields h n hn
  | _ => cases h

/-- Requested settings are accepted when the names and the count of workers are. -/
theorem requested_eq_ok_iff {external workers : Data.Value} :
    requested external workers = .ok s ↔
      Schema.checkList Schema.checkText external = .ok s.external ∧
        Schema.checkOptionalAtLeast 1 workers = .ok s.workers := by
  obtain ⟨names, count⟩ := s
  unfold requested ofFields
  cases hexternal : Schema.checkList Schema.checkText external <;>
    cases hworkers : Schema.checkOptionalAtLeast 1 workers <;>
    simp [Schema.defaulted, Data.Record.get?, Data.Value.isText, externalField, workersField,
      hexternal, hworkers, Checked.under, Except.mapError, Schema.forbidOthers, Schema.isOther]

/-- Names from outside and a valid count of workers are the requested settings. -/
theorem requested_eq_ok (external : List String) (workers : Option Int)
    (h : ∀ n, workers = some n → 1 ≤ n) :
    requested (.list (external.map .text)) (workersValue workers) = .ok ⟨external, workers⟩ :=
  requested_eq_ok_iff.mpr
    ⟨Schema.checkList_texts external, Schema.checkOptionalAtLeast_one workers h⟩

end Settings

/-- The settings of a file with valid parts ask for one worker at least, if they name a count. -/
theorem Layout.one_le_of_ofFields {raw : Data.Record Data.Value} {layout : Layout}
    (h : ofFields raw = .ok layout) (n : Int) (hn : layout.settings.workers = some n) : 1 ≤ n := by
  unfold ofFields at h
  dsimp only at h
  split at h
  · rename_i hsettings _ _ _
    obtain rfl := Except.ok.inj h
    rcases Schema.defaulted_eq_ok_iff.mp hsettings with ⟨v, -, hv⟩ | ⟨-, rfl⟩
    · exact Settings.one_le_of_ofValue hv n hn
    · cases hn
  · cases h

namespace Definition

end Definition

end VariableOrder
