import VariableOrder.Proofs.Provider.Part

/-!
# Nested calls

A raw value that is a record is a call of the provider that it names. It has no expression without
a provider that the catalogue knows, and otherwise the one of the call; it breaks off as the call
does, or because a collection stands where the name of the provider belongs. Every part of the call
is smaller than the record.
-/

set_option autoImplicit false

namespace VariableOrder

open Data (Value Record)

/-- All that a record gives for a call, which is everything but the name of the provider. -/
def nestedFields (entries : Record Value) : Record Given :=
  Catalogue.rawFields (Record.without entries Catalogue.providerKey)

/-- What a provider is given are its parameters that are there and not null. -/
theorem Provider.mem_given_iff {p : Provider} {fields : Record Given} {f : String × Given} :
    f ∈ p.given fields ↔
      f.1 ∈ p.paramNames ∧ fields.get? f.1 = some f.2 ∧ f.2.isNull = false := by
  obtain ⟨name, g⟩ := f
  simp only [given, List.mem_filterMap, Option.map_eq_some_iff, Option.filter_eq_some_iff,
    Bool.not_eq_true', Prod.mk.injEq]
  constructor
  · rintro ⟨_, hname, _, hget, rfl, rfl⟩
    exact ⟨hname, hget⟩
  · rintro ⟨hname, hget⟩
    exact ⟨name, hname, g, hget, rfl, rfl⟩

/-- A part comes from what is given for some parameter. -/
theorem Provider.exists_given_of_mem_parts {p : Provider} {place : String} {fields : Record Given}
    {part : String × Given} (h : part ∈ p.parts place fields) :
    ∃ name ∈ p.paramNames, ∃ g, fields.get? name = some g ∧ g.isNull = false ∧
      part ∈ p.partsOf place name g := by
  obtain ⟨⟨name, g⟩, hgiven, hpart⟩ := List.mem_flatMap.mp h
  obtain ⟨hname, hget, hnull⟩ := mem_given_iff.mp hgiven
  exact ⟨name, hname, g, hget, hnull, hpart⟩

/-- Whatever is given for a parameter has its parts among those of the call. -/
theorem Provider.mem_parts {p : Provider} {place name : String} {fields : Record Given} {g : Given}
    (hname : name ∈ p.paramNames) (hget : fields.get? name = some g) (hnull : g.isNull = false)
    {part : String × Given} (hpart : part ∈ p.partsOf place name g) :
    part ∈ p.parts place fields :=
  List.mem_flatMap.mpr ⟨(name, g), mem_given_iff.mpr ⟨hname, hget, hnull⟩, hpart⟩

/-- A part of what is given for a parameter is all of it, or an item for a parameter that takes a
list. -/
theorem Provider.mem_partsOf_iff {p : Provider} {place name : String} {g g' : Given} :
    (∃ here, (here, g') ∈ p.partsOf place name g) ↔
      if p.list.contains name then g' ∈ g.items else g' = g := by
  unfold partsOf
  split_ifs
  · simp only [List.mem_map, Prod.exists, Prod.mk.injEq, List.mem_zipIdx_iff_getElem?]
    constructor
    · rintro ⟨here, g'', i, hi, -, rfl⟩
      exact List.mem_of_getElem? hi
    · intro h
      obtain ⟨i, hi⟩ := List.mem_iff_getElem?.mp h
      exact ⟨_, g', i, hi, rfl, rfl⟩
  · simp

/-- What holds of all that is given, and of the items of what it holds of, holds of every part. -/
theorem Provider.of_mem_parts {P : Given → Prop} {p : Provider} {place : String}
    {fields : Record Given} (hfields : ∀ f ∈ fields, P f.2)
    (hitems : ∀ g item, P g → item ∈ g.items → P item) {part : String × Given}
    (h : part ∈ p.parts place fields) : P part.2 := by
  obtain ⟨name, -, g, hget, -, hpartOf⟩ := exists_given_of_mem_parts h
  have hg := hfields _ (Data.Record.mem_of_get? hget)
  have hof := mem_partsOf_iff.mp ⟨part.1, hpartOf⟩
  split_ifs at hof
  · exact hitems g part.2 hg hof
  · rwa [hof]

/-- No item is larger than what it belongs to. -/
theorem Given.sizeOf_of_mem_items {g item : Given} (h : item ∈ g.items) :
    sizeOf item ≤ sizeOf g := by
  rcases eq_of_mem_items h with rfl | ⟨items, v, rfl, hv, rfl⟩ | ⟨rfl, rfl⟩
  · exact Nat.le_refl _
  · have hlt := List.sizeOf_lt_of_mem hv
    simp only [raw.sizeOf_spec, Value.list.sizeOf_spec]
    omega
  · simp

/-- The parts of a nested call are smaller than its record. -/
theorem sizeOf_of_mem_parts {p : Provider} {place : String} {entries : Record Value}
    {part : String × Given} (h : part ∈ p.parts place (nestedFields entries)) :
    sizeOf part.2 < sizeOf (Given.raw (.record entries)) := by
  refine Provider.of_mem_parts (P := fun g => sizeOf g < sizeOf (Given.raw (.record entries)))
    ?_ (fun g item hg hitem => Nat.lt_of_le_of_lt (Given.sizeOf_of_mem_items hitem) hg) h
  intro f hf
  obtain ⟨⟨key, v⟩, hentry, rfl⟩ := List.mem_map.mp hf
  have hlt := List.sizeOf_lt_of_mem (List.mem_of_mem_filter hentry)
  simp only [Given.raw.sizeOf_spec, Value.record.sizeOf_spec, Prod.mk.sizeOf_spec] at hlt ⊢
  omega

namespace Catalogue

variable {c : Catalogue} {place : String} {entries : Record Value}

/-- Without the name of its provider, a record holds the fields of its call. -/
theorem params_without :
    Record.without (c.params entries) providerKey = c.givenParams (nestedFields entries) := by
  unfold nestedFields givenParams rawFields Record.without
  rw [params_eq, givenParams, rawFields, List.map_map, List.map_map, List.filter_map]
  rfl

/-- A record is built to the nested call that it makes. -/
theorem build_record : c.build place (.record entries) =
    c.nestedCall (entries.get? providerKey) (c.givenParams (nestedFields entries)) place := by
  rw [build, params_without]

/-- A call succeeds exactly when there is a provider of its kind that makes it. -/
theorem call_eq_ok_iff {kind : String} {raw : Record Param} {e : Expr} :
    c.call kind raw place = .ok e ↔ ∃ p, c.get? kind = some p ∧ p.call raw place = .ok e := by
  unfold call
  cases c.get? kind <;> simp

/-- A call breaks off exactly when there is a provider of its kind at which it does. -/
theorem call_fault_iff {kind : String} {raw : Record Param} :
    (∃ f, c.call kind raw place = .error (.fault f)) ↔
      ∃ p, c.get? kind = some p ∧ ∃ f, p.call raw place = .error (.fault f) := by
  unfold call
  cases c.get? kind <;> simp

/-- Only a text that is not empty names a provider. -/
theorem nestedCall_eq (c : Catalogue) (place : String) (kind? : Option Value)
    (raw : Record Param) :
    (∃ kind, kind? = some (.text kind) ∧ kind ≠ "" ∧
      c.nestedCall kind? raw place = c.call kind raw place) ∨
    (∃ kind, kind? = some kind ∧ kind.isPresent = true ∧ kind.isKey = false ∧
      c.nestedCall kind? raw place = .error (.fault (.collectionAsName kind.growingName))) ∨
    (∀ kind, kind? = some (.text kind) → kind = "") ∧
      (∀ kind, kind? = some kind → kind.isPresent = true → kind.isKey = true) ∧
      ∃ p, c.nestedCall kind? raw place = .error (.problem place p) := by
  cases kind? with
  | none => exact .inr (.inr ⟨by simp, by simp, _, rfl⟩)
  | some kind =>
    by_cases hpresent : kind.isPresent = true
    · by_cases hkey : kind.isKey = true
      · have hunknown : ∀ v : Value, (∃ p, (if v.isWritable then
            Except.error (.problem place (.unknownProvider v.plain c.names))
            else .error (.problem place .numberTooLong)) =
              (.error (.problem place p) : Except CallFailure Expr)) := by
          intro v
          split
          · exact ⟨_, rfl⟩
          · exact ⟨_, rfl⟩
        cases kind with
        | text s =>
          have hs : s ≠ "" := by simpa [Value.isPresent] using hpresent
          refine .inl ⟨s, rfl, hs, ?_⟩
          simp [nestedCall, Value.isPresent, Value.isKey, hs]
        | _ =>
          refine .inr (.inr ⟨by simp, by simp [hkey], ?_⟩)
          simp only [nestedCall, hpresent, hkey, Bool.not_true, Bool.false_eq_true, if_false]
          exact hunknown _
      · refine .inr (.inl ⟨kind, rfl, hpresent, by simpa using hkey, ?_⟩)
        simp [nestedCall, hpresent, hkey]
    · refine .inr (.inr ⟨?_, ?_, .unnamedProvider, ?_⟩)
      · rintro s hs
        obtain rfl := Option.some.inj hs
        simpa [Value.isPresent] using hpresent
      · rintro other hother hpresent'
        obtain rfl := Option.some.inj hother
        exact absurd hpresent' hpresent
      · simp [nestedCall, hpresent]

/-- A record is built to what the call of its provider comes to. -/
theorem build_record_eq_ok_iff {e : Expr} :
    c.build place (.record entries) = .ok e ↔
      ∃ kind, entries.get? providerKey = some (.text kind) ∧ kind ≠ "" ∧
        c.call kind (c.givenParams (nestedFields entries)) place = .ok e := by
  rw [build_record]
  rcases nestedCall_eq c place (entries.get? providerKey)
      (c.givenParams (nestedFields entries)) with
    ⟨kind, hkind, hne, hcall⟩ | ⟨kind, hkind, -, hkey, hcall⟩ | ⟨hnone, -, p, hcall⟩
  · rw [hcall]
    simp [hkind, hne]
  · rw [hcall]
    refine iff_of_false (by simp) ?_
    rintro ⟨s, hs, -⟩
    obtain rfl := Option.some.inj (hkind.symm.trans hs)
    cases hkey
  · rw [hcall]
    refine iff_of_false (by simp) ?_
    rintro ⟨s, hs, hne, -⟩
    exact absurd (hnone s hs) hne

/-- A record breaks off if a collection stands where the name of its provider belongs, or if the
call of its provider breaks off. -/
theorem build_record_fault_iff :
    (∃ f, c.build place (.record entries) = .error (.fault f)) ↔
      (∃ kind, entries.get? providerKey = some kind ∧ kind.isPresent = true ∧
        kind.isKey = false) ∨
      ∃ kind, entries.get? providerKey = some (.text kind) ∧ kind ≠ "" ∧
        ∃ f, c.call kind (c.givenParams (nestedFields entries)) place = .error (.fault f) := by
  rw [build_record]
  rcases nestedCall_eq c place (entries.get? providerKey)
      (c.givenParams (nestedFields entries)) with
    ⟨kind, hkind, hne, hcall⟩ | ⟨kind, hkind, hpresent, hkey, hcall⟩ | ⟨hnone, hall, p, hcall⟩
  · rw [hcall]
    simp [hkind, hne, Value.isKey]
  · rw [hcall]
    exact iff_of_true ⟨_, rfl⟩ (.inl ⟨kind, hkind, hpresent, hkey⟩)
  · rw [hcall]
    refine iff_of_false (by simp) ?_
    rintro (⟨kind, hkind, hpresent, hkey⟩ | ⟨kind, hkind, hne, -⟩)
    · rw [hall kind hkind hpresent] at hkey
      cases hkey
    · exact hne (hnone kind hkind)

end Catalogue

end VariableOrder
