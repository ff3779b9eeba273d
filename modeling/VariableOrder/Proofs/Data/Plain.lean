import VariableOrder.Data.Shown
import VariableOrder.Proofs.Data.Record
import VariableOrder.Proofs.Placeholder.Written

/-!
# Plain data

Plain data is made of nulls, truth values, numbers and texts, in lists and in records with distinct
keys. The text of a number holds no dollar sign, so only texts can refer to something.
-/

set_option autoImplicit false

namespace VariableOrder

open Placeholder (Part Reference)

/-- Data of nulls, truth values, numbers and texts, in lists and in records with distinct keys. -/
inductive Data.Value.Simple : Data.Value → Prop where
  | null : Simple .null
  | flag (b : Bool) : Simple (.flag b)
  | integer (n : Int) : Simple (.integer n)
  | fraction (x : Float) : Simple (.fraction x)
  | text (s : String) : Simple (.text s)
  | list {items : List Data.Value} (h : ∀ v ∈ items, Simple v) : Simple (.list items)
  | record {entries : Data.Record Data.Value} (hdistinct : entries.Distinct)
      (hscalar : ∀ e ∈ entries, e.1.isKey = true) (hkey : ∀ e ∈ entries, Simple e.1)
      (h : ∀ e ∈ entries, Simple e.2) : Simple (.record entries)

/-- A record of plain data whose keys are distinct texts is plain data. -/
theorem Data.Value.Simple.of_texts {fields : List (String × Data.Value)}
    (hnodup : (fields.map (·.1)).Nodup) (h : ∀ f ∈ fields, f.2.Simple) :
    (Data.Value.record (fields.map fun f => (.text f.1, f.2))).Simple := by
  refine .record ?_ ?_ ?_ ?_
  · refine List.pairwise_map.mpr ((List.pairwise_map.mp hnodup).imp ?_)
    intro a b hne
    rw [Bool.eq_false_iff, Ne, Data.Value.sameKey_text]
    exact fun heq => hne (Data.Value.text.inj heq)
  · intro e he
    obtain ⟨f, -, rfl⟩ := List.mem_map.mp he
    rfl
  · intro e he
    obtain ⟨f, -, rfl⟩ := List.mem_map.mp he
    exact .text f.1
  · intro e he
    obtain ⟨f, hf, rfl⟩ := List.mem_map.mp he
    exact h f hf

/-- A text without a dollar sign is one literal part, unless it is empty. -/
theorem Placeholder.parts_of_dollar_not_mem {text : String} (h : '$' ∉ text.toList) :
    parts text = withText text.toList [] := by
  have hescaped : escapeDollars text.toList = text.toList := by
    unfold escapeDollars
    calc (text.toList.flatMap fun c => if c = '$' then ['$', '$'] else [c])
        = text.toList.flatMap fun c => [c] := by
          apply List.flatMap_congr
          intro c hc
          have hne : c ≠ '$' := fun heq => h (heq ▸ hc)
          simp [hne]
      _ = text.toList := by simp
  have hchunks := chunks_escapeDollars text.toList []
  rw [hescaped, List.append_nil] at hchunks
  have hjoined := joined_literalChunks text.toList (chunks [])
  rw [parts, hchunks, partsOf, hjoined]
  change withText (text.toList ++ []) [] = _
  rw [List.append_nil]

/-- A text without a dollar sign refers to nothing. -/
theorem Placeholder.reference_not_mem_parts {text : String} (h : '$' ∉ text.toList)
    (r : Reference) : Part.reference r ∉ parts text := by
  rw [parts_of_dollar_not_mem h, withText]
  split_ifs <;> simp

namespace Number

/-- Decimal digits are no dollar signs. -/
theorem dollar_not_mem_toDigits (n : Nat) : '$' ∉ Nat.toDigits 10 n := by
  intro h
  have hdigit := Nat.isDigit_of_mem_toDigits (by omega) (by omega) h
  revert hdigit
  decide

/-- A whole number is written without a dollar sign. -/
theorem dollar_not_mem_toString (n : Int) : '$' ∉ (toString n).toList := by
  cases n with
  | ofNat m =>
    change '$' ∉ m.repr.toList
    rw [Nat.toList_repr]
    exact dollar_not_mem_toDigits m
  | negSucc m =>
    change '$' ∉ ("-" ++ (m + 1).repr).toList
    rw [String.toList_append, Nat.toList_repr, List.mem_append, not_or]
    exact ⟨by decide, dollar_not_mem_toDigits (m + 1)⟩

/-- The digits that count are no dollar signs. -/
theorem dollar_not_mem_significant (n : Nat) : '$' ∉ significant n := by
  unfold significant
  dsimp only
  split_ifs
  · decide
  · intro h
    rw [List.mem_reverse] at h
    exact dollar_not_mem_toDigits n
      (List.mem_reverse.mp ((List.dropWhile_sublist _).subset h))

/-- Zeros are no dollar signs. -/
theorem dollar_not_mem_zeros (count : Nat) : '$' ∉ List.replicate count '0' := by
  intro h
  exact absurd (List.eq_of_mem_replicate h) (by decide)

/-- Digits around a point are written without a dollar sign. -/
theorem dollar_not_mem_positional {digits : List Char} (h : '$' ∉ digits) (first : Int) :
    '$' ∉ positional digits first := by
  have hpadded : ∀ count, '$' ∉ digits ++ List.replicate count '0' := by
    simp [h]
  unfold positional
  dsimp only
  split_ifs
  · simp [h]
  · rw [List.mem_append, not_or]
    exact ⟨fun hmem => hpadded _ (List.mem_of_mem_take hmem), by decide⟩
  · rw [List.mem_append, List.mem_cons, not_or, not_or]
    exact ⟨fun hmem => hpadded _ (List.mem_of_mem_take hmem), by decide,
      fun hmem => hpadded _ (List.mem_of_mem_drop hmem)⟩

/-- Digits with an exponent are written without a dollar sign. -/
theorem dollar_not_mem_exponential {digits : List Char} (h : '$' ∉ digits) (first : Int) :
    '$' ∉ exponential digits first := by
  have hsize := dollar_not_mem_toDigits first.natAbs
  have hsign : '$' ≠ if first < 0 then '-' else '+' := by
    split_ifs <;> decide
  unfold exponential
  dsimp only
  rw [List.mem_append, not_or]
  constructor
  · cases digits with
    | nil => simp
    | cons d rest =>
      rw [List.mem_cons, not_or] at h
      cases rest <;> simp_all
  · simp only [List.mem_append, List.mem_cons, not_or]
    exact ⟨by decide, hsign, dollar_not_mem_zeros _, hsize⟩

/-- A fraction is written without a dollar sign. -/
theorem dollar_not_mem_floatText (x : Float) : '$' ∉ (floatText x).toList := by
  have hmagnitude : ∀ bits, '$' ∉ magnitudeText bits := by
    intro bits
    unfold magnitudeText
    dsimp only
    split_ifs
    · exact dollar_not_mem_positional (dollar_not_mem_significant _) _
    · exact dollar_not_mem_exponential (dollar_not_mem_significant _) _
  unfold floatText
  dsimp only
  split_ifs <;> simp [hmagnitude]

end Number

end VariableOrder
