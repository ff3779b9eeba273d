import VariableOrder.Proofs.Data.Plain
import VariableOrder.Proofs.Schema.Collection

/-!
# Accepted plain data

Plain data is understood as it is: a list by its items, and a record by its entries, whose keys have
to be texts.
-/

set_option autoImplicit false

namespace VariableOrder.Schema

open Data (Value Record)

variable {α : Type} {check : Value → Checked α}

/-- Plain data that is accepted as a text is that text. -/
theorem eq_text_of_checkText {v : Value} {s : String} (hv : v.Simple) (h : checkText v = .ok s) :
    v = .text s := by
  cases hv with
  | text t =>
    obtain rfl := Except.ok.inj h
    rfl
  | _ => cases h

/-- Plain data that is accepted as a list is a list, and its items are accepted in their places. -/
theorem eq_list_of_checkList {v : Value} {l : List α} (hv : v.Simple)
    (h : checkList check v = .ok l) :
    ∃ items, v = .list items ∧ List.Forall₂ (fun item a => check item = .ok a) items l := by
  cases hv with
  | @list items hall => exact ⟨items, rfl, checkItems_eq_ok_iff.mp h⟩
  | _ => cases h

/-- A record of plain data is understood entry by entry, under the same keys. -/
theorem eq_record_of_checkRecord {v : Value} {l : List (String × α)} (hv : v.Simple)
    (h : checkRecord check v = .ok l) : ∃ entries, v = .record entries ∧
      List.Forall₂ (fun entry a => entry.1 = .text a.1 ∧ check entry.2 = .ok a.2) entries l := by
  obtain ⟨entries, checked, rfl, hall, hl⟩ := checkRecord_eq_ok_iff.mp h
  cases hv with
  | record hdistinct _ hkey _ =>
    have htext : List.Forall₂ (fun entry a => entry.1 = .text a.1 ∧ check entry.2 = .ok a.2)
        entries checked :=
      forall₂_imp_of_mem hall fun entry hentry a ha =>
        ⟨eq_text_of_checkText (hkey entry hentry) ha.1, ha.2⟩
    -- keys that are distinct texts stay apart, so no entry replaces another one
    have hkeys : entries.map (·.1) = checked.map fun a => .text a.1 := by
      rw [← List.forall₂_eq_eq_eq, List.forall₂_map_left_iff, List.forall₂_map_right_iff]
      exact htext.imp fun _ _ h => h.1
    have hnodup : (checked.map (·.1)).Nodup := by
      have hpairwise : (entries.map (·.1)).Pairwise fun a b => a.sameKey b = false :=
        List.pairwise_map.mpr hdistinct
      rw [hkeys, List.pairwise_map] at hpairwise
      refine List.pairwise_map.mpr (hpairwise.imp ?_)
      intro a b hne heq
      rw [heq] at hne
      exact absurd (Value.sameKey_text.mpr rfl) (Bool.eq_false_iff.mp hne)
    rw [foldl_putText_of_nodup (by simpa using hnodup)] at hl
    exact ⟨entries, rfl, hl ▸ htext⟩

/-- The fields of a record of plain data are understood as they are. -/
theorem eq_record_of_checkFields {v : Value} {fields : Record Value} (hv : v.Simple)
    (h : checkFields v = .ok fields) : v = .record fields := by
  obtain ⟨l, hrecord, rfl⟩ := checkFields_eq_ok_iff.mp h
  obtain ⟨entries, rfl, hall⟩ := eq_record_of_checkRecord hv hrecord
  have hentries : entries = l.map fun a => (.text a.1, a.2) := by
    rw [← List.forall₂_eq_eq_eq, List.forall₂_map_right_iff]
    exact hall.imp fun entry a h => Prod.ext h.1 (Except.ok.inj h.2)
  exact congrArg Value.record hentries

end VariableOrder.Schema
