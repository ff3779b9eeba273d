import VariableOrder.Proofs.Schema.Collection
import VariableOrder.Schema.Scalar

/-!
# What scalars are read as

A field of an entry that is a text, a condition or a flag may be written in more than one way. What
is read off a value is told here by the ways in which it can be written, whatever order they are
tried in, and so is what a field comes to that may be missing. A value that is written in none of
these ways is refused.
-/

set_option autoImplicit false

namespace VariableOrder.Schema

open Data (Value Record)

/-- The text that a value is read as: the value itself, or what its bytes encode. -/
inductive ReadsText : Value → String → Prop where
  | text (s : String) : ReadsText (.text s) s
  | bytes {bs : List UInt8} {cs : List Char} (h : Text.decodeUtf8 bs = .ok cs) :
      ReadsText (.bytes bs) (String.ofList cs)

/-- The words that are read as a truth value. -/
def wordsOf (b : Bool) : List String :=
  if b then trueWords else falseWords

/-- The number that is read as a truth value. -/
def numberOf (b : Bool) : Int :=
  if b then 1 else 0

/-- The truth value that a value is read as: the value itself, the number one or zero, also as a
fraction, or a word in upper or lower case. -/
inductive ReadsFlag : Value → Bool → Prop where
  | flag (b : Bool) : ReadsFlag (.flag b) b
  | integer (b : Bool) : ReadsFlag (.integer (numberOf b)) b
  | fraction {x : Float} {b : Bool} (h : integerOfFraction x = .ok (numberOf b)) :
      ReadsFlag (.fraction x) b
  | word {v : Value} {s : String} {b : Bool} (htext : ReadsText v s)
      (hword : String.ofList (s.toList.map Char.toLower) ∈ wordsOf b) : ReadsFlag v b

/-- What a field with a standard is read as: what its value is read as, or the standard if there is
no such field. -/
def ReadsField {α : Type} (reads : Value → α → Prop) (fields : Record Value) (name : String)
    (standard a : α) : Prop :=
  match fields.get? name with
  | some v => reads v a
  | none => a = standard

/-- What a value that may be null is read as: nothing if it is null, and otherwise a text. -/
inductive ReadsOptionalText : Value → Option String → Prop where
  | null {v : Value} (h : v.isNull = true) : ReadsOptionalText v none
  | text {v : Value} {s : String} (h : ReadsText v s) : ReadsOptionalText v (some s)

/-- A value is read as a text exactly when it is one or its bytes encode it. -/
theorem textOf?_eq_ok_iff {v : Value} {s : String} : textOf? v = some (.ok s) ↔ ReadsText v s := by
  constructor
  · intro h
    cases v with
    | text t =>
      obtain rfl := Except.ok.inj (Option.some.inj h)
      exact .text t
    | bytes bs =>
      unfold textOf? at h
      dsimp only at h
      cases hdecode : Text.decodeUtf8 bs with
      | ok cs =>
        rw [hdecode] at h
        obtain rfl := Except.ok.inj (Option.some.inj h)
        exact .bytes hdecode
      | error e =>
        rw [hdecode] at h
        cases Option.some.inj h
    | _ => cases h
  · rintro (_ | hdecode)
    · rfl
    · simp only [textOf?, hdecode]

/-- A check for a text accepts exactly what is read as one. -/
theorem checkText_eq_ok_iff {v : Value} {s : String} : checkText v = .ok s ↔ ReadsText v s := by
  rw [← textOf?_eq_ok_iff, checkText]
  rcases textOf? v with _ | (_ | t) <;> simp [Checked.refuse]

/-- A check for a text or null accepts exactly what is read as one of them. -/
theorem checkOptionalText_eq_ok_iff {v : Value} {t : Option String} :
    checkOptionalText v = .ok t ↔ ReadsOptionalText v t := by
  unfold checkOptionalText
  split_ifs with hnull
  · constructor
    · intro h
      obtain rfl := Except.ok.inj h
      exact .null hnull
    · rintro (_ | htext)
      · rfl
      · cases htext <;> cases hnull
  · rw [map_eq_ok_iff]
    constructor
    · rintro ⟨s, hs, rfl⟩
      exact .text (checkText_eq_ok_iff.mp hs)
    · rintro (hother | htext)
      · exact absurd hother hnull
      · exact ⟨_, checkText_eq_ok_iff.mpr htext, rfl⟩

/-- No word is read as both truth values. -/
theorem flagOfText_eq_ok_iff {s : String} {b : Bool} :
    flagOfText s = .ok b ↔ String.ofList (s.toList.map Char.toLower) ∈ wordsOf b := by
  have hdisjoint : ∀ word ∈ falseWords, word ∉ trueWords := by decide
  unfold flagOfText
  dsimp only
  simp only [List.contains_iff_mem]
  split_ifs with htrue hfalse
  · cases b
    · simpa [wordsOf] using fun hother => hdisjoint _ hother htrue
    · simpa [wordsOf] using htrue
  · cases b
    · simpa [wordsOf] using hfalse
    · simpa [wordsOf] using htrue
  · cases b <;> simp [wordsOf, Checked.refuse, htrue, hfalse]

/-- One and zero are the numbers that are read as truth values. -/
theorem flagOfInteger_eq_ok_iff {n : Int} {b : Bool} :
    flagOfInteger n = .ok b ↔ n = numberOf b := by
  unfold flagOfInteger
  split_ifs with hone hzero <;> cases b <;> simp_all [numberOf, Checked.refuse]

/-- A check for a truth value accepts exactly what is read as one. -/
theorem checkFlag_eq_ok_iff {v : Value} {b : Bool} : checkFlag v = .ok b ↔ ReadsFlag v b := by
  constructor
  · intro h
    cases v with
    | flag a =>
      obtain rfl := Except.ok.inj h
      exact .flag a
    | integer n =>
      obtain rfl := flagOfInteger_eq_ok_iff.mp h
      exact .integer b
    | fraction x =>
      unfold checkFlag at h
      dsimp only at h
      cases hwhole : integerOfFraction x with
      | ok n =>
        rw [hwhole] at h
        obtain rfl := flagOfInteger_eq_ok_iff.mp h
        exact .fraction hwhole
      | error e =>
        rw [hwhole] at h
        cases h
    | text s => exact .word (.text s) (flagOfText_eq_ok_iff.mp h)
    | bytes bs =>
      unfold checkFlag at h
      dsimp only at h
      rcases htext : textOf? (.bytes bs) with _ | (_ | s)
      · rw [htext] at h
        cases h
      · rw [htext] at h
        cases h
      · rw [htext] at h
        exact .word (textOf?_eq_ok_iff.mp htext) (flagOfText_eq_ok_iff.mp h)
    | _ => cases h
  · rintro (_ | _ | hwhole | ⟨htext, hword⟩)
    · rfl
    · exact flagOfInteger_eq_ok_iff.mpr rfl
    · simp only [checkFlag, hwhole]
      exact flagOfInteger_eq_ok_iff.mpr rfl
    · have hflag := flagOfText_eq_ok_iff.mpr hword
      cases htext with
      | text s => exact hflag
      | bytes hdecode => simpa only [checkFlag, textOf?, hdecode] using hflag

/-- A field with a standard is accepted exactly as what it is read as. -/
theorem defaulted_eq_ok_iff_reads {α : Type} {check : Value → Checked α} {reads : Value → α → Prop}
    (hcheck : ∀ {v a}, check v = .ok a ↔ reads v a) {fields : Record Value} {name : String}
    {standard a : α} :
    defaulted fields name standard check = .ok a ↔ ReadsField reads fields name standard a := by
  rw [defaulted_eq_ok_iff, ReadsField]
  cases fields.get? name with
  | none => simp [eq_comm]
  | some v => simp [hcheck]

end VariableOrder.Schema
