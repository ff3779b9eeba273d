import VariableOrder.Definition.Source
import VariableOrder.Proofs.Definition.Load

/-!
# Definition files that break off

A definition file has definitions, is refused with messages, or breaks off without a message. It
breaks off in three ways: its path can not be written, a scalar in it does not suit its kind, or
building its entries leads to something broken.
-/

set_option autoImplicit false

namespace VariableOrder.Definition

open Data (Value Record)

/-- A file yields no entries and no message either when its path can not be written, or when its
document breaks off in a scalar. -/
theorem source_messages?_iff {path : String} {content : Except Files.Failure (List UInt8)} :
    (∃ f, source path content = .error f ∧ (FileFailure.source f).messages? = none) ↔
      content = .error .zeroCharacter ∨
      ∃ bytes f, content = .ok bytes ∧ Document.read bytes = .error f ∧ isOfFile f = false := by
  cases content with
  | error failure =>
    cases failure with
    | refused reason place => simp [source, FileFailure.messages?]
    | zeroCharacter => simp [source, FileFailure.messages?]
  | ok bytes =>
    simp only [source, reduceCtorEq, Except.ok.injEq, exists_and_left, exists_eq_left', false_or]
    cases Document.read bytes with
    | ok v => cases v <;> simp [entriesOf, FileFailure.messages?]
    | error f => cases hfile : isOfFile f <;> simp [entriesOf, FileFailure.messages?, hfile]

/-- Asking for the definitions breaks off exactly when loading does. -/
theorem definitions?_eq_fault_iff {l : Loading} :
    (∃ f, l.definitions? = .error (.fault f)) ↔ ∃ f, l.outcome = .error f := by
  unfold Loading.definitions?
  cases l.outcome with
  | error f => simp
  | ok ds => by_cases h : l.messages.isEmpty = true <;> simp [h]

/-- A file breaks off without a message in three ways. -/
theorem ofFile_messages?_iff {c : Catalogue} {path : String}
    {content : Except Files.Failure (List UInt8)} :
    (∃ f, ofFile c path content = .error f ∧ f.messages? = none) ↔
      (content = .error .zeroCharacter ∨
        ∃ bytes f, content = .ok bytes ∧ Document.read bytes = .error f ∧ isOfFile f = false) ∨
      ∃ raw, source path content = .ok raw ∧ BreaksOff c raw := by
  rw [← source_messages?_iff]
  unfold ofFile
  cases source path content with
  | error f => simp
  | ok raw =>
    have hload : (∃ f, (load c [] raw).definitions?.mapError FileFailure.load = .error f ∧
        f.messages? = none) ↔ ∃ f, (load c [] raw).definitions? = .error (.fault f) := by
      cases (load c [] raw).definitions? with
      | ok ds => simp [Except.mapError]
      | error f => cases f <;> simp [Except.mapError, FileFailure.messages?]
    simp only [hload, definitions?_eq_fault_iff, load_fault_iff]
    simp

/-- Loading breaks off exactly when building the accepted entries leads to something broken;
otherwise it leaves a message for whatever is refused, behind the earlier ones. A file breaks off
when its entries do, when its path can not be written, or in a scalar of its document. -/
theorem load_breaksOff (c : Catalogue) (earlier : List String) (raw : Record Value) (path : String)
    (content : Except Files.Failure (List UInt8)) :
    (BreaksOff c raw ∧ (∃ f, (load c earlier raw).outcome = .error f) ∨
      ¬ BreaksOff c raw ∧ (load c earlier raw).messages = earlier ++ refusals c raw ∧
        ∃ ds, (load c earlier raw).outcome = .ok ds) ∧
    ((∃ f, ofFile c path content = .error f ∧ f.messages? = none) ↔
      (content = .error .zeroCharacter ∨
        ∃ bytes f, content = .ok bytes ∧ Document.read bytes = .error f ∧ isOfFile f = false) ∨
      ∃ raw, source path content = .ok raw ∧ BreaksOff c raw) := by
  refine ⟨?_, ofFile_messages?_iff⟩
  by_cases h : BreaksOff c raw
  · exact .inl ⟨h, (load_fault_iff earlier).mpr h⟩
  · rw [load_eq h]
    exact .inr ⟨h, rfl, _, rfl⟩

/-- A list in the place of the name of a provider breaks the loading off, though the entry is no
worse than others that are refused with a message. -/
theorem load_breaksOff_listed :
    let entry (provider : Value) : Record Value :=
      [(.text "dynamicvariables", .list [.record [(.text "name", .text "a"),
        (.text "value", .record [(.text "provider", provider)])]])]
    (load .standard [] (entry (.list [.text "x"]))).outcome = .error (.collectionAsName "list") ∧
      (load .standard [] (entry (.text "x"))).messages.length = 1 := by
  intro entry
  exact ⟨rfl, rfl⟩

end VariableOrder.Definition
