import VariableOrder.Proofs.Schema.Collection

/-!
# What a record holds under a name

Keys are read as texts when a record is checked, so several keys may be read as the same name; the
last of them gives the value. A record is understood name by name from what it holds last under each
name, and no name is left out.
-/

set_option autoImplicit false

namespace VariableOrder

open Data (Value Record)

namespace Schema

variable {α : Type} {check : Value → Checked α}

/-- What stands first under a name. -/
def textAt? (entries : List (String × α)) (name : String) : Option α :=
  (entries.find? fun e => e.1 == name).map (·.2)

/-- What a record holds under a name when its keys are read as texts; of equal keys the last
counts. -/
def lookup? (entries : Record Value) (name : String) : Option Value :=
  (entries.reverse.find? fun e => (checkText e.1).toOption == some name).map (·.2)

/-- A first entry under the text is what stands there; any other is passed over. -/
theorem textAt?_cons (first : String × α) (rest : List (String × α)) (name : String) :
    textAt? (first :: rest) name = if first.1 = name then some first.2 else textAt? rest name := by
  unfold textAt?
  by_cases h : first.1 = name <;> simp [h]

/-- What stands under a text in two lists is what stands in the left one, or else in the right one.
-/
theorem textAt?_append (left right : List (String × α)) (name : String) :
    textAt? (left ++ right) name = (textAt? left name).or (textAt? right name) := by
  unfold textAt?
  rw [List.find?_append, Option.map_or]

/-- After putting a value under a text that text has it, and every other text has what it had. -/
theorem textAt?_putText (key : String) (x : α) (entries : List (String × α)) (name : String) :
    textAt? (putText key x entries) name = if key = name then some x else textAt? entries name := by
  induction entries with
  | nil => exact textAt?_cons (key, x) [] name
  | cons first rest ih =>
    rw [putText]
    by_cases hfirst : first.1 = key
    · rw [if_pos hfirst, textAt?_cons, textAt?_cons, hfirst]
      split_ifs <;> rfl
    · rw [if_neg hfirst, textAt?_cons, textAt?_cons, ih]
      -- the name is not that of the first one and the new one at once
      split_ifs with hname hkey
      · exact absurd (hname.trans hkey.symm) hfirst
      all_goals rfl

/-- Of the values that are put under a name the last one stays. -/
theorem textAt?_foldl_putText (checked done : List (String × α)) (name : String) :
    textAt? (checked.foldl (fun done e => putText e.1 e.2 done) done) name =
      (textAt? checked.reverse name).or (textAt? done name) := by
  induction checked generalizing done with
  | nil => rfl
  | cons first rest ih =>
    rw [List.foldl_cons, ih, textAt?_putText, List.reverse_cons, textAt?_append, Option.or_assoc,
      textAt?_cons]
    split_ifs <;> rfl

/-- A record is understood name by name, from what it holds last under each. -/
theorem lookup?_of_checkRecord {v : Value} {l : List (String × α)}
    (h : checkRecord check v = .ok l) : ∃ entries, v = .record entries ∧ ∀ name,
      Option.Rel (fun w a => check w = .ok a) (lookup? entries name) (textAt? l name) := by
  obtain ⟨entries, checked, rfl, hall, rfl⟩ := checkRecord_eq_ok_iff.mp h
  refine ⟨entries, rfl, ?_⟩
  intro name
  rw [textAt?_foldl_putText]
  show Option.Rel _ _ ((textAt? checked.reverse name).or none)
  rw [Option.or_none]
  have hfound := rel_find?_of_forall₂ (List.rel_reverse hall)
    (p := fun entry => (checkText entry.1).toOption == some name) (q := fun a => a.1 == name)
    (by
      rintro entry a ⟨hkey, -⟩
      rw [hkey]
      rfl)
  unfold lookup? textAt?
  generalize entries.reverse.find? _ = entry? at hfound ⊢
  generalize checked.reverse.find? _ = a? at hfound ⊢
  cases hfound with
  | none => exact .none
  | some hvalue => exact .some hvalue.2

/-- When a single name is understood, the record holds something under that name only. -/
theorem exists_lookup?_eq_some_iff {entries : Record Value} {name : String} {a : α}
    (h : ∀ other, Option.Rel (fun w a => check w = .ok a) (lookup? entries other)
      (textAt? [(name, a)] other)) :
    ∃ w, check w = .ok a ∧ ∀ other v, lookup? entries other = some v ↔ other = name ∧ v = w := by
  have hname := h name
  rw [textAt?_cons, if_pos rfl] at hname
  cases hw : lookup? entries name with
  | none =>
    rw [hw] at hname
    cases hname
  | some w =>
    rw [hw] at hname
    obtain ⟨hcheck⟩ := hname
    refine ⟨w, hcheck, ?_⟩
    intro other v
    by_cases hother : other = name
    · rw [hother, hw, Option.some.injEq]
      simp [eq_comm]
    · have hnone := h other
      rw [textAt?_cons, if_neg (Ne.symm hother)] at hnone
      cases hv : lookup? entries other with
      | none => simp [hother]
      | some v =>
        rw [hv] at hnone
        cases hnone

/-- A field is what the last entry with a key of its text says. -/
theorem get?_of_checkFields {v : Value} {fields : Record Value} (h : checkFields v = .ok fields) :
    ∃ entries, v = .record entries ∧ ∀ name, fields.get? name = lookup? entries name := by
  obtain ⟨l, hl, rfl⟩ := checkFields_eq_ok_iff.mp h
  obtain ⟨entries, rfl, hlookup⟩ := lookup?_of_checkRecord hl
  refine ⟨entries, rfl, ?_⟩
  intro name
  have hget : Record.get? (l.map fun e => (Value.text e.1, e.2)) name = textAt? l name := by
    unfold Record.get? textAt?
    rw [List.find?_map, Option.map_map]
    rfl
  have hsame := hlookup name
  rw [hget]
  generalize lookup? entries name = v? at hsame ⊢
  generalize textAt? l name = a? at hsame ⊢
  cases hsame with
  | none => rfl
  | some hvalue => exact congrArg some (Except.ok.inj hvalue).symm

end Schema

end VariableOrder
