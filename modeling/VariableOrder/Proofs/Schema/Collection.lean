import VariableOrder.Proofs.Data.Record
import VariableOrder.Proofs.Outcome
import VariableOrder.Schema.Collection

/-!
# Accepted collections

A list is accepted when each of its items is, and a record when each of its entries is. What is
understood of a record has texts for keys, and nothing in it is made up. A record whose keys are
distinct texts already is understood as it is.
-/

set_option autoImplicit false

namespace VariableOrder.Schema

open Data (Value Record)

variable {α : Type} {check : Value → Checked α}

/-- Telling where something was found leaves successes alone. -/
theorem under_eq_ok_iff {label : String} {checked : Checked α} {a : α} :
    checked.under label = .ok a ↔ checked = .ok a := by
  cases checked <;> simp [Checked.under, Except.mapError]

/-- A field with a standard is accepted as its value is, and a missing one as the standard. -/
theorem defaulted_eq_ok_iff {entries : Record Value} {name : String} {standard a : α} :
    defaulted entries name standard check = .ok a ↔
      (∃ v, entries.get? name = some v ∧ check v = .ok a) ∨
      entries.get? name = none ∧ standard = a := by
  unfold defaulted
  cases entries.get? name <;> simp [under_eq_ok_iff]

/-- A required field is accepted exactly when it is there and its value is. -/
theorem required_eq_ok_iff {entries : Record Value} {name : String} {a : α} :
    required entries name check = .ok a ↔
      ∃ v, entries.get? name = some v ∧ check v = .ok a := by
  unfold required
  cases entries.get? name <;> simp [under_eq_ok_iff, Checked.refuse]

/-- Checks are gathered to a success exactly when each of them is one. -/
theorem gather_eq_ok_iff {outcomes : List (Checked α)} {l : List α} :
    gather outcomes = .ok l ↔ List.Forall₂ (fun outcome a => outcome = .ok a) outcomes l := by
  have hnone : List.Forall₂ (fun outcome a => outcome = .ok a) outcomes l →
      outcomes.flatMap Checked.findings = [] := by
    intro h
    rw [List.flatMap_eq_nil_iff]
    intro outcome hmem
    obtain ⟨a, -, rfl⟩ := exists_of_forall₂_left h hmem
    rfl
  unfold gather
  split
  · exact mapM_eq_ok_iff
  · refine iff_of_false (by simp) ?_
    intro h
    exact absurd (hnone h) ‹_›

/-- Items are accepted exactly when each of them is. -/
theorem checkItems_eq_ok_iff {items : List Value} {l : List α} :
    checkItems check items = .ok l ↔ List.Forall₂ (fun v a => check v = .ok a) items l := by
  have hitems : List.Forall₂ (fun v a => check v = .ok a) (items.zipIdx.map Prod.fst) l ↔
      List.Forall₂ (fun v a => check v = .ok a) items l := by
    rw [List.zipIdx_map_fst]
  unfold checkItems
  rw [gather_eq_ok_iff, ← hitems]
  simp only [List.forall₂_map_left_iff, under_eq_ok_iff]

/-- Whatever is accepted in a list was accepted on its own. -/
theorem exists_of_mem_checkList {v : Value} {l : List α} (h : checkList check v = .ok l) {a : α}
    (ha : a ∈ l) : ∃ item, check item = .ok a := by
  have hitems : ∃ items, checkItems check items = .ok l := by
    cases v with
    | list items => exact ⟨items, h⟩
    | collection items => exact ⟨items, h⟩
    | pair first second => exact ⟨[first, second], h⟩
    | _ => simp [checkList, Checked.refuse] at h
  obtain ⟨items, hitems⟩ := hitems
  obtain ⟨item, -, hitem⟩ := exists_of_forall₂_right (checkItems_eq_ok_iff.mp hitems) ha
  exact ⟨item, hitem⟩

/-- Putting a value under a text adds no other entry. -/
theorem mem_putText {key : String} {x : α} {entries : List (String × α)} {e : String × α}
    (h : e ∈ putText key x entries) : e = (key, x) ∨ e ∈ entries := by
  induction entries with
  | nil => exact .inl (List.mem_singleton.mp h)
  | cons first rest ih =>
    obtain ⟨k, y⟩ := first
    by_cases hkey : k = key
    · subst hkey
      rw [putText, if_pos rfl] at h
      exact (List.mem_cons.mp h).imp_right (List.mem_cons_of_mem _)
    · rw [putText, if_neg hkey] at h
      rcases List.mem_cons.mp h with rfl | hrest
      · exact .inr List.mem_cons_self
      · exact (ih hrest).imp_right (List.mem_cons_of_mem _)

/-- Putting values one after the other adds only entries of these values. -/
theorem mem_foldl_putText {checked done : List (String × α)} {e : String × α}
    (h : e ∈ checked.foldl (fun done e => putText e.1 e.2 done) done) : e ∈ done ∨ e ∈ checked := by
  induction checked generalizing done with
  | nil => exact .inl h
  | cons first rest ih =>
    rcases ih h with hdone | hrest
    · rcases mem_putText hdone with rfl | hmem
      · exact .inr List.mem_cons_self
      · exact .inl hmem
    · exact .inr (List.mem_cons_of_mem _ hrest)

/-- A new name goes to the end. -/
theorem putText_of_forall_ne {key : String} (x : α) {entries : List (String × α)}
    (h : ∀ e ∈ entries, e.1 ≠ key) : putText key x entries = entries ++ [(key, x)] := by
  induction entries with
  | nil => rfl
  | cons first rest ih =>
    obtain ⟨hfirst, hrest⟩ := List.forall_mem_cons.mp h
    rw [putText, if_neg hfirst, ih hrest, List.cons_append]

/-- Entries with distinct names are put one behind the other. -/
theorem foldl_putText_of_nodup {checked done : List (String × α)}
    (h : ((done ++ checked).map (·.1)).Nodup) :
    checked.foldl (fun done e => putText e.1 e.2 done) done = done ++ checked := by
  induction checked generalizing done with
  | nil => simp
  | cons first rest ih =>
    have hnew : ∀ e ∈ done, e.1 ≠ first.1 := by
      intro e he
      rw [List.map_append, List.nodup_append] at h
      exact h.2.2 e.1 (List.mem_map_of_mem he) first.1 (by simp)
    rw [List.append_cons] at h
    rw [List.foldl_cons, putText_of_forall_ne first.2 hnew, ih h, List.append_assoc,
      List.singleton_append]

/-- An entry is accepted exactly when its key is a text and its value is accepted. -/
theorem checkEntry_eq_ok_iff {entry : Value × Value} {a : String × α} :
    checkEntry check entry = .ok a ↔ checkText entry.1 = .ok a.1 ∧ check entry.2 = .ok a.2 := by
  obtain ⟨key, x⟩ := a
  have hkey : (checkText entry.1).under "[key]" = .ok key ↔ checkText entry.1 = .ok key :=
    under_eq_ok_iff
  unfold checkEntry
  rw [under_eq_ok_iff, ← hkey]
  cases (checkText entry.1).under "[key]" <;> cases check entry.2 <;> simp

/-- A record is accepted exactly when all its entries are, and of equal texts the last value counts.
-/
theorem checkRecord_eq_ok_iff {v : Value} {l : List (String × α)} :
    checkRecord check v = .ok l ↔ ∃ (entries : Record Value) (checked : List (String × α)),
      v = .record entries ∧ List.Forall₂
        (fun entry a => checkText entry.1 = .ok a.1 ∧ check entry.2 = .ok a.2) entries checked ∧
      checked.foldl (fun done e => putText e.1 e.2 done) [] = l := by
  cases v with
  | record entries =>
    have hentries : ∀ checked, gather (entries.map (checkEntry check)) = .ok checked ↔
        List.Forall₂ (fun entry a => checkText entry.1 = .ok a.1 ∧ check entry.2 = .ok a.2)
          entries checked := by
      intro checked
      rw [gather_eq_ok_iff]
      simp only [List.forall₂_map_left_iff, checkEntry_eq_ok_iff]
    simp only [checkRecord, Value.record.injEq, exists_and_left, exists_eq_left', ← hentries]
    cases gather (entries.map (checkEntry check)) <;> simp [Except.map]
  | _ => simp [checkRecord, Checked.refuse]

/-- Everything in an accepted record is what some value was accepted as. -/
theorem exists_of_mem_checkRecord {v : Value} {l : List (String × α)}
    (h : checkRecord check v = .ok l) {a : String × α} (ha : a ∈ l) :
    ∃ item, check item = .ok a.2 := by
  obtain ⟨entries, checked, -, hall, rfl⟩ := checkRecord_eq_ok_iff.mp h
  have hmem : a ∈ checked := (mem_foldl_putText ha).resolve_left List.not_mem_nil
  obtain ⟨entry, -, -, hitem⟩ := exists_of_forall₂_right hall hmem
  exact ⟨entry.2, hitem⟩

/-- Fields are the entries of an accepted record under the texts of their keys. -/
theorem checkFields_eq_ok_iff {v : Value} {fields : Record Value} :
    checkFields v = .ok fields ↔
      ∃ l, checkRecord checkAny v = .ok l ∧ (l.map fun e => (.text e.1, e.2)) = fields := by
  unfold checkFields
  cases checkRecord checkAny v <;> simp [Except.map]

/-- The fields that are understood of a record have texts for keys. -/
theorem exists_text_of_checkFields {v : Value} {fields : Record Value}
    (h : checkFields v = .ok fields) : ∀ f ∈ fields, ∃ s, f.1 = .text s := by
  obtain ⟨l, -, rfl⟩ := checkFields_eq_ok_iff.mp h
  intro f hf
  obtain ⟨e, -, rfl⟩ := List.mem_map.mp hf
  exact ⟨e.1, rfl⟩

/-- A text is another key exactly when it is none of the names. -/
theorem isOther_text_iff {names : List String} {name : String} :
    isOther names (.text name) = true ↔ name ∉ names := by
  simp [isOther, Value.isText_iff, List.forall_mem_ne]

/-- There is no bad key exactly when all keys are texts. -/
theorem badKeys_eq_nil_iff {entries : Record Value} :
    badKeys entries = [] ↔ ∀ e ∈ entries, ∃ s, e.1 = .text s := by
  have htext : ∀ v : Value, isTextKey v = true ↔ ∃ s, v = .text s := by
    intro v
    cases v <;> simp [isTextKey]
  simp only [badKeys, List.map_eq_nil_iff, List.filter_eq_nil_iff, Bool.not_eq_true',
    Bool.not_eq_false, htext]

end VariableOrder.Schema
