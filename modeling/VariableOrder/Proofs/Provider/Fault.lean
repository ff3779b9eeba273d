import Mathlib.Logic.Relation
import VariableOrder.Proofs.Provider.Names
import VariableOrder.Proofs.Provider.Nested

/-!
# Where building breaks off

Building a raw value breaks off at a record that gives a collection for the name of its provider,
at one that gives something to a provider under a name that is no text, and at one that stands
inside itself. Such a record need not be the value itself: building leads from a record whose
provider finds nothing wrong to the parts of its call, to each part as long as those in front of it
have an expression.
-/

set_option autoImplicit false

namespace VariableOrder

open Data (Value Record)

/-- A call breaks off when its names make a fault, or when it comes to a part that breaks off. -/
theorem Provider.call_fault_iff {c : Catalogue} {p : Provider} {place : String}
    {fields : Record Given} :
    (∃ f, p.call (c.givenParams fields) place = .error (.fault f)) ↔
      (∃ e ∈ fields, ∀ s, e.1 ≠ .text s) ∨
      p.problems (c.givenParams fields) = .ok [] ∧
        ∃ part, ComesTo (fun part => c.buildGiven part.1 part.2) (p.parts place fields) part ∧
          ∃ f, c.buildGiven part.1 part.2 = .error (.fault f) := by
  have hnames : (∃ f, p.problems (c.givenParams fields) = .error f) ↔
      ∃ e ∈ fields, ∀ s, e.1 ≠ .text s := by
    rw [problems_eq_error_iff]
    simp [Catalogue.givenParams]
  rw [← hnames]
  cases hproblems : p.problems (c.givenParams fields) with
  | error f =>
    have hcall : p.call (c.givenParams fields) place = .error (.fault f) := by
      unfold call
      rw [hproblems]
    exact iff_of_true ⟨f, hcall⟩ (.inl ⟨f, rfl⟩)
  | ok problems =>
    cases problems with
    | nil =>
      have hparts : ∀ x, p.call (c.givenParams fields) place = .error x ↔
          (p.parts place fields).mapM (fun part => c.buildGiven part.1 part.2) = .error x := by
        intro x
        rw [← children_call c p place hproblems]
        cases p.call (c.givenParams fields) place <;> simp [Except.map]
      simp only [hparts, mapM_eq_error_iff, reduceCtorEq, exists_false, false_or, true_and]
      constructor
      · rintro ⟨f, part, hcomes, hf⟩
        exact ⟨part, hcomes, f, hf⟩
      · rintro ⟨part, hcomes, f, hf⟩
        exact ⟨f, part, hcomes, hf⟩
    | cons first others =>
      have hcall : p.call (c.givenParams fields) place =
          .error (.problem place (.parameters p (first :: others))) := by
        unfold call
        rw [hproblems]
      simp [hcall]

namespace Catalogue

variable (c : Catalogue)

/-- Whether a provider is given something under a name that is no text. -/
def Misnames (kind : String) (fields : Record Given) : Prop :=
  (∃ p, c.get? kind = some p) ∧ ∃ e ∈ fields, ∀ s, e.1 ≠ .text s

/-- Whether the call of a provider comes to a part: nothing is wrong with what is given, and the
parts in front have expressions. -/
def Takes (kind place : String) (fields : Record Given) (part : String × Given) : Prop :=
  ∃ p, c.get? kind = some p ∧ p.problems (c.givenParams fields) = .ok [] ∧
    ComesTo (fun part => c.buildGiven part.1 part.2) (p.parts place fields) part

/-- A record leads to the parts of the call that it makes. -/
def Leads (whole part : String × Given) : Prop :=
  ∃ (entries : Record Value) (kind : String), whole.2 = .raw (.record entries) ∧
    entries.get? providerKey = some (.text kind) ∧ kind ≠ "" ∧
    c.Takes kind whole.1 (nestedFields entries) part

/-- The values at which building breaks off. -/
inductive Broken : Given → Prop where
  | provider {entries : Record Value} {kind : Value} (hkind : entries.get? providerKey = some kind)
      (hpresent : kind.isPresent = true) (hkey : kind.isKey = false) :
      Broken (.raw (.record entries))
  | names {entries : Record Value} {kind : String}
      (hkind : entries.get? providerKey = some (.text kind)) (hne : kind ≠ "")
      (hnames : c.Misnames kind (nestedFields entries)) : Broken (.raw (.record entries))
  | endless : Broken (.raw (.again .record))

variable {c} {place : String} {g : Given}

/-- A call breaks off exactly when its provider can not tell its unknown names, or when building one
of the parts that it takes does. -/
theorem call_breaksOff_iff {kind : String} {fields : Record Given} :
    (∃ f, c.call kind (c.givenParams fields) place = .error (.fault f)) ↔
      c.Misnames kind fields ∨ ∃ part, c.Takes kind place fields part ∧
        ∃ f, c.buildGiven part.1 part.2 = .error (.fault f) := by
  unfold Misnames Takes
  rw [call_fault_iff]
  simp only [Provider.call_fault_iff]
  constructor
  · rintro ⟨p, hp, hnames | ⟨hproblems, part, hcomes, hf⟩⟩
    · exact .inl ⟨⟨p, hp⟩, hnames⟩
    · exact .inr ⟨part, ⟨p, hp, hproblems, hcomes⟩, hf⟩
  · rintro (⟨⟨p, hp⟩, hnames⟩ | ⟨part, ⟨p, hp, hproblems, hcomes⟩, hf⟩)
    · exact ⟨p, hp, .inl hnames⟩
    · exact ⟨p, hp, .inr ⟨hproblems, part, hcomes, hf⟩⟩

/-- What is neither a record nor one inside itself does not break off. -/
theorem buildGiven_ne_fault (hrecord : ∀ entries, g ≠ .raw (.record entries))
    (hagain : g ≠ .raw (.again .record)) (f : CallFault) :
    c.buildGiven place g ≠ .error (.fault f) := by
  have hscalar : ∀ v : Value, scalarExpr v place ≠ .error (.fault f) := by
    intro v
    unfold scalarExpr
    split
    · simp
    · simp
    · split_ifs <;> simp
  cases g with
  | built e => simp [buildGiven]
  | raw v =>
    cases v with
    | record entries => exact absurd rfl (hrecord entries)
    | list items => simp [buildGiven, build]
    | again kind =>
      cases kind with
      | record => exact absurd rfl hagain
      | list => simp [buildGiven, build]
      | pair => simpa [buildGiven, build] using hscalar (.again .pair)
    | _ =>
      simp only [buildGiven, build]
      exact hscalar _

/-- One step: a value breaks off where it stands, or at something that it leads to. -/
theorem buildGiven_fault_step :
    (∃ f, c.buildGiven place g = .error (.fault f)) ↔
      c.Broken g ∨ ∃ part, c.Leads (place, g) part ∧
        ∃ f, c.buildGiven part.1 part.2 = .error (.fault f) := by
  by_cases hagain : g = .raw (.again .record)
  · subst hagain
    have hend : c.build place (.again .record) = .error (.fault .endless) := by
      simp [build]
    exact iff_of_true ⟨_, hend⟩ (.inl .endless)
  by_cases hrecord : ∃ entries, g = .raw (.record entries)
  · obtain ⟨entries, rfl⟩ := hrecord
    change (∃ f, c.build place (.record entries) = .error (.fault f)) ↔ _
    rw [build_record_fault_iff]
    simp only [call_breaksOff_iff]
    constructor
    · rintro (⟨kind, hkind, hpresent, hkey⟩ | ⟨kind, hkind, hne, hnames | ⟨part, hpart, hf⟩⟩)
      · exact .inl (.provider hkind hpresent hkey)
      · exact .inl (.names hkind hne hnames)
      · exact .inr ⟨part, ⟨entries, kind, rfl, hkind, hne, hpart⟩, hf⟩
    · rintro (hbroken | ⟨part, ⟨entries', kind, hv, hkind, hne, hpart⟩, hf⟩)
      · cases hbroken with
        | provider hkind hpresent hkey => exact .inl ⟨_, hkind, hpresent, hkey⟩
        | names hkind hne hnames => exact .inr ⟨_, hkind, hne, .inl hnames⟩
      · obtain rfl : entries = entries' := Value.record.inj (Given.raw.inj hv)
        exact .inr ⟨kind, hkind, hne, .inr ⟨part, hpart, hf⟩⟩
  · have hother : ∀ entries, g ≠ .raw (.record entries) := fun entries h => hrecord ⟨entries, h⟩
    have hnone : ¬ ∃ f, c.buildGiven place g = .error (.fault f) := by
      rintro ⟨f, hf⟩
      exact buildGiven_ne_fault hother hagain f hf
    refine iff_of_false hnone ?_
    rintro (hbroken | ⟨part, ⟨entries, kind, hg, -⟩, -⟩)
    · cases hbroken with
      | provider => exact hother _ rfl
      | names => exact hother _ rfl
      | endless => exact hagain rfl
    · exact hother entries hg

/-- What a record leads to is smaller than the record. -/
theorem Leads.sizeOf_lt {whole part : String × Given} (h : c.Leads whole part) :
    sizeOf part.2 < sizeOf whole.2 := by
  obtain ⟨entries, kind, hwhole, -, -, p, -, -, hcomes⟩ := h
  rw [hwhole]
  exact sizeOf_of_mem_parts hcomes.mem

/-- Building breaks off exactly when it leads to something broken. -/
theorem buildGiven_fault_iff :
    (∃ f, c.buildGiven place g = .error (.fault f)) ↔
      ∃ s, Relation.ReflTransGen c.Leads (place, g) s ∧ c.Broken s.2 := by
  constructor
  · -- A part is smaller than its whole, so the way to what is broken ends.
    induction hsize : sizeOf g using Nat.strong_induction_on generalizing place g with
    | _ n ih =>
      intro hfault
      rcases buildGiven_fault_step.mp hfault with hbroken | ⟨part, hleads, hpart⟩
      · exact ⟨(place, g), .refl, hbroken⟩
      · have hlt : sizeOf part.2 < n := hsize ▸ hleads.sizeOf_lt
        obtain ⟨s, hway, hbroken⟩ := ih _ hlt rfl hpart
        exact ⟨s, .head hleads hway, hbroken⟩
  · rintro ⟨s, hway, hbroken⟩
    have hall : ∀ whole, Relation.ReflTransGen c.Leads whole s →
        ∃ f, c.buildGiven whole.1 whole.2 = .error (.fault f) := by
      intro whole h
      induction h using Relation.ReflTransGen.head_induction_on with
      | refl => exact buildGiven_fault_step.mpr (.inl hbroken)
      | head hleads _ ih => exact buildGiven_fault_step.mpr (.inr ⟨_, hleads, ih⟩)
    exact hall (place, g) hway

end Catalogue

end VariableOrder
