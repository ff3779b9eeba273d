import VariableOrder.Proofs.Definition.Load
import VariableOrder.Proofs.Provider.Mention
import VariableOrder.Proofs.Schema.Plain

/-!
# Names mentioned in entries

A static entry mentions what its value mentions. A dynamic entry mentions what is mentioned in any
parameter of its provider, or in any parameter of a filter other than the input, for which the
filter is given what it is around. The candidate of an accepted entry of plain data refers to
exactly the names that the entry mentions.
-/

set_option autoImplicit false

namespace VariableOrder

open Data (Value Record)

/-- The part of a definition file that lists the entries of a kind. -/
def EntryKind.part : EntryKind → String
  | .static => "variables"
  | .dynamic => "dynamicvariables"

/-- Whether an entry is about the variable of a name; blanks around the name do not belong to it. -/
def Names (entry : Record Value) (name : String) : Prop :=
  ∃ s, entry.get? "name" = some (.text s) ∧ String.ofList (Text.strip s.toList) = name

/-- Whether a filter of an entry has the given parameters. -/
def FilterParameters (entry parameters : Record Value) : Prop :=
  ∃ (filters : List Value) (types : Record Value) (type : Value),
    entry.get? "filters" = some (.list filters) ∧ .record types ∈ filters ∧
      (type, .record parameters) ∈ types

/-- Whether an entry of a kind mentions a name in its value, in a parameter of its provider or in a
parameter of a filter. -/
inductive EntryKind.Mentions (name : String) (entry : Record Value) : EntryKind → Prop where
  | value {v : Value} (hvalue : entry.get? "value" = some v) (h : v.Mentions name) :
      Mentions name entry .static
  | parameter {key : String} {v : Value} (hfield : (.text key, v) ∈ entry)
      (hkey : key = "value" ∨ key ∉ DynamicEntry.fieldNames) (h : v.Mentions name) :
      Mentions name entry .dynamic
  | filter {parameters : Record Value} {key v : Value}
      (hparameters : FilterParameters entry parameters) (hfield : (key, v) ∈ parameters)
      (hkey : key ≠ .text Catalogue.filterInput) (h : v.Mentions name) :
      Mentions name entry .dynamic

/-- What an accepted entry yields: its name, and a value that refers to exactly the names that the
entry mentions. -/
structure EntryKind.Yields (kind : EntryKind) (entry : Record Value) (name : String)
    (candidate : Candidate) : Prop where
  names_iff : ∀ other, Names entry other ↔ other = name
  refersTo_iff : ∀ other, candidate.value.RefersTo other ↔ kind.Mentions other entry
  wellFormed : candidate.value.WellFormed

section Fields

variable {entry : Record Value} (hentry : (Value.record entry).Simple)

include hentry

/-- The keys of plain data are distinct. -/
theorem distinct_of_simple : entry.Distinct := by
  cases hentry with
  | record hdistinct => exact hdistinct

/-- What an entry of plain data holds is plain data. -/
theorem simple_of_mem {key v : Value} (h : (key, v) ∈ entry) : v.Simple := by
  cases hentry with
  | record _ _ _ hall => exact hall _ h

/-- What a field of plain data holds is plain data. -/
theorem simple_of_get? {name : String} {v : Value} (h : entry.get? name = some v) : v.Simple :=
  simple_of_mem hentry (Record.mem_of_get? h)

/-- An accepted entry is about the variable of its name and of no other. -/
theorem names_iff_of_required {name : String}
    (h : Schema.required entry "name" Schema.checkName = .ok name) (other : String) :
    Names entry other ↔ other = name := by
  obtain ⟨v, hget, hname⟩ := Schema.required_eq_ok_iff.mp h
  obtain ⟨s, hs, hstrip⟩ := bind_eq_ok_iff.mp hname
  obtain rfl := Schema.eq_text_of_checkText (simple_of_get? hentry hget) hs
  have hstripped : String.ofList (Text.strip s.toList) = name := by
    split_ifs at hstrip
    · cases hstrip
    · cases hstrip
    · exact Except.ok.inj hstrip
  simp only [Names, hget, Option.some.injEq, Value.text.injEq, exists_eq_left', hstripped, eq_comm]

end Fields

namespace StaticEntry

variable {entry : Record Value} {e : StaticEntry}

/-- The candidate of an accepted static entry refers to what its value mentions. -/
theorem yields_of_candidate {c : Catalogue} {candidate : Candidate}
    (hentry : (Value.record entry).Simple) (haccepted : ofFields entry = .ok e)
    (h : e.candidate c = .ok candidate) : EntryKind.static.Yields entry e.name candidate := by
  obtain ⟨hname, hvalue, -, -⟩ := ofFields_eq_ok_iff.mp haccepted
  obtain ⟨x, hx, hcandidate⟩ := bind_eq_ok_iff.mp h
  obtain rfl := Except.ok.inj hcandidate
  have hbuilt : ∀ v : Value, v.Simple → e.value = v → (Given.raw v).Mirrors x := by
    rintro v hv rfl
    exact Catalogue.mirrors_buildGiven (g := .raw e.value) hv hx
  rcases Schema.defaulted_eq_ok_iff.mp hvalue with ⟨v, hget, hv⟩ | ⟨hget, hv⟩
  · have hmirrors := hbuilt v (simple_of_get? hentry hget) (Except.ok.inj hv).symm
    refine ⟨names_iff_of_required hentry hname, ?_, hmirrors.wellFormed⟩
    intro other
    rw [hmirrors.refersTo_iff]
    constructor
    · intro hmentions
      exact .value hget hmentions
    · intro hmentions
      cases hmentions with
      | value hother hmentions =>
        obtain rfl := Option.some.inj (hget.symm.trans hother)
        exact hmentions
  · have hmirrors := hbuilt (.text "") (.text "") hv.symm
    refine ⟨names_iff_of_required hentry hname, ?_, hmirrors.wellFormed⟩
    intro other
    rw [hmirrors.refersTo_iff]
    refine iff_of_false ?_ ?_
    · intro hmentions
      cases hmentions with
      | text hr => exact Placeholder.reference_not_mem_parts (by decide) _ hr
    · intro hmentions
      cases hmentions with
      | value hother => cases hget.symm.trans hother

end StaticEntry

namespace Catalogue

variable {c : Catalogue} {place : String}

/-- All that a filter is given is sound, if what it is around is. -/
theorem allSound_filterFields {inner : Expr} {parameters : Record Value} (hinner : inner.WellFormed)
    (h : (Value.record parameters).Simple) : Given.AllSound (filterFields inner parameters) := by
  refine ⟨((distinct_of_simple h).map _).put _ _, ?_⟩
  exact forall_mem_filterFields (P := Given.Sound) hinner fun f hf => simple_of_mem h hf

/-- What a filter is given mentions what the inner expression refers to and what its own parameters
mention, without the one that is replaced. -/
theorem exists_mentions_filterFields_iff {inner : Expr} {parameters : Record Value}
    (h : (Value.record parameters).Simple) (name : String) :
    (∃ f ∈ filterFields inner parameters, f.2.Mentions name) ↔
      inner.RefersTo name ∨ ∃ f ∈ parameters, f.1 ≠ .text filterInput ∧ f.2.Mentions name := by
  have hmem : ∀ f, f ∈ filterFields inner parameters ↔
      f = (.text filterInput, .built inner) ∨
        f ∈ rawFields parameters ∧ f.1 ≠ .text filterInput :=
    fun f => ((distinct_of_simple h).map Given.raw).mem_put_iff
  simp only [hmem]
  constructor
  · rintro ⟨f, rfl | ⟨hf, hkey⟩, hmentions⟩
    · exact .inl hmentions
    · obtain ⟨field, hfield, rfl⟩ := List.mem_map.mp hf
      exact .inr ⟨field, hfield, hkey, hmentions⟩
  · rintro (hrefers | ⟨field, hfield, hkey, hmentions⟩)
    · exact ⟨(.text filterInput, .built inner), .inl rfl, hrefers⟩
    · exact ⟨(field.1, .raw field.2), .inr ⟨List.mem_map_of_mem hfield, hkey⟩, hmentions⟩

/-- A filter adds what is mentioned in its parameters. -/
theorem refersTo_filter_iff {inner e : Expr} {filter : List (String × Record Value)}
    (hinner : inner.WellFormed) (hfilter : ∀ t ∈ filter, (Value.record t.2).Simple)
    (h : c.filter inner filter place = .ok e) :
    (∀ name, e.RefersTo name ↔ inner.RefersTo name ∨
      ∃ t ∈ filter, ∃ f ∈ t.2, f.1 ≠ .text filterInput ∧ f.2.Mentions name) ∧ e.WellFormed := by
  match filter, hfilter, h with
  | [(type, parameters)], hfilter, h =>
    have hparameters := hfilter _ (List.mem_singleton_self _)
    rw [filter_eq] at h
    obtain ⟨hrefers, hwellFormed⟩ :=
      refersTo_call_iff (allSound_filterFields hinner hparameters) h
    refine ⟨fun name => (hrefers name).trans ?_, hwellFormed⟩
    rw [exists_mentions_filterFields_iff hparameters]
    simp
  | [], _, h => cases h
  | _ :: _ :: _, _, h => cases h

/-- Filters around each other add what is mentioned in all their parameters. -/
theorem refersTo_filters_iff {filters : List (List (String × Record Value))} {inner e : Expr}
    (hinner : inner.WellFormed)
    (hfilters : ∀ filter ∈ filters, ∀ t ∈ filter, (Value.record t.2).Simple)
    (h : filters.foldlM (fun inner filter => c.filter inner filter place) inner = .ok e) :
    (∀ name, e.RefersTo name ↔ inner.RefersTo name ∨ ∃ filter ∈ filters,
      ∃ t ∈ filter, ∃ f ∈ t.2, f.1 ≠ .text filterInput ∧ f.2.Mentions name) ∧ e.WellFormed := by
  induction filters generalizing inner with
  | nil =>
    obtain rfl := Except.ok.inj h
    simp [hinner]
  | cons first rest ih =>
    rw [List.foldlM_cons] at h
    obtain ⟨next, hnext, hrest⟩ := bind_eq_ok_iff.mp h
    obtain ⟨hfirst, hall⟩ := List.forall_mem_cons.mp hfilters
    obtain ⟨hstep, hwellFormed⟩ := refersTo_filter_iff hinner hfirst hnext
    obtain ⟨hrun, he⟩ := ih hwellFormed hall hrest
    refine ⟨fun name => ?_, he⟩
    rw [hrun name, hstep name, or_assoc, List.exists_mem_cons_iff]

end Catalogue

/-- The parameters of a filter of plain data are plain data. -/
theorem FilterParameters.simple {entry parameters : Record Value}
    (hentry : (Value.record entry).Simple) (h : FilterParameters entry parameters) :
    (Value.record parameters).Simple := by
  obtain ⟨filters, types, type, hget, hitem, hmem⟩ := h
  cases simple_of_get? hentry hget with
  | list hitems => exact simple_of_mem (hitems _ hitem) hmem

namespace DynamicEntry

variable {entry : Record Value} {e : DynamicEntry}

/-- All that the provider of an entry of plain data is given is sound. -/
theorem allSound_providerParameters (hentry : (Value.record entry).Simple)
    (haccepted : ofFields entry = .ok e) :
    Given.AllSound (Catalogue.rawFields e.providerParameters) := by
  refine ⟨(distinct_providerParameters (distinct_of_simple hentry) haccepted).map _, ?_⟩
  intro f hf
  obtain ⟨⟨key, v⟩, hfield, rfl⟩ := List.mem_map.mp hf
  exact simple_of_mem hentry (mem_of_mem_providerParameters haccepted hfield).1

/-- The filters of an accepted entry are understood as they stand in the entry. -/
theorem exists_mem_filters_iff (hentry : (Value.record entry).Simple)
    (haccepted : ofFields entry = .ok e) (parameters : Record Value) :
    (∃ filter ∈ e.filters, ∃ t ∈ filter, t.2 = parameters) ↔
      FilterParameters entry parameters := by
  obtain ⟨-, -, -, -, -, -, -, hfilters, -, -⟩ := ofFields_eq_ok_iff.mp haccepted
  unfold FilterParameters
  rcases Schema.defaulted_eq_ok_iff.mp hfilters with ⟨v, hget, hv⟩ | ⟨hget, hnone⟩
  · have hsimple := simple_of_get? hentry hget
    obtain ⟨items, rfl, hall⟩ := Schema.eq_list_of_checkList hsimple hv
    cases hsimple with
    | list hitems =>
      constructor
      · rintro ⟨filter, hfilter, t, ht, rfl⟩
        obtain ⟨item, hitem, hrecord⟩ := exists_of_forall₂_right hall hfilter
        have hsimple := hitems item hitem
        obtain ⟨types, rfl, htypes⟩ := Schema.eq_record_of_checkRecord hsimple hrecord
        obtain ⟨⟨type, content⟩, hmem, -, hfields⟩ := exists_of_forall₂_right htypes ht
        obtain rfl := Schema.eq_record_of_checkFields (simple_of_mem hsimple hmem) hfields
        exact ⟨items, types, type, hget, hitem, hmem⟩
      · rintro ⟨others, types, type, hothers, hitem, hmem⟩
        obtain rfl := Value.list.inj (Option.some.inj (hget.symm.trans hothers))
        obtain ⟨filter, hfilter, hrecord⟩ := exists_of_forall₂_left hall hitem
        have hsimple := hitems _ hitem
        obtain ⟨types', heq, htypes⟩ := Schema.eq_record_of_checkRecord hsimple hrecord
        obtain rfl := Value.record.inj heq
        obtain ⟨t, ht, -, hfields⟩ := exists_of_forall₂_left htypes hmem
        have hcontent := Schema.eq_record_of_checkFields (simple_of_mem hsimple hmem) hfields
        exact ⟨filter, hfilter, t, ht, (Value.record.inj hcontent).symm⟩
  · rw [← hnone]
    refine iff_of_false (by simp) ?_
    rintro ⟨filters, types, type, hsome, -⟩
    cases hget.symm.trans hsome

/-- The candidate of an accepted dynamic entry refers to what is mentioned in the parameters of its
provider and of its filters. -/
theorem yields_of_candidate {c : Catalogue} {candidate : Candidate}
    (hentry : (Value.record entry).Simple) (haccepted : ofFields entry = .ok e)
    (h : e.candidate c = .ok candidate) : EntryKind.dynamic.Yields entry e.name candidate := by
  obtain ⟨hname, -⟩ := ofFields_eq_ok_iff.mp haccepted
  obtain ⟨x, hx, hcandidate⟩ := bind_eq_ok_iff.mp h
  obtain rfl := Except.ok.inj hcandidate
  rw [expression_eq] at hx
  obtain ⟨inner, hinner, hfilters⟩ := bind_eq_ok_iff.mp hx
  have hparameters := exists_mem_filters_iff hentry haccepted
  obtain ⟨hcall, hcallWellFormed⟩ :=
    Catalogue.refersTo_call_iff (allSound_providerParameters hentry haccepted) hinner
  have hsimple : ∀ filter ∈ e.filters, ∀ t ∈ filter, (Value.record t.2).Simple := by
    intro filter hfilter t ht
    exact ((hparameters t.2).mp ⟨filter, hfilter, t, ht, rfl⟩).simple hentry
  obtain ⟨hrun, hwellFormed⟩ := Catalogue.refersTo_filters_iff hcallWellFormed hsimple hfilters
  refine ⟨names_iff_of_required hentry hname, ?_, hwellFormed⟩
  obtain ⟨-, -, -, -, -, -, -, -, hkeys, -⟩ := ofFields_eq_ok_iff.mp haccepted
  intro other
  rw [hrun, hcall]
  constructor
  · rintro (⟨f, hf, hmentions⟩ | ⟨filter, hfilter, t, ht, ⟨key, v⟩, hfield, hkey, hmentions⟩)
    · -- what the provider is given has texts for names, as the entry has
      obtain ⟨⟨key, v⟩, hfield, rfl⟩ := List.mem_map.mp hf
      obtain ⟨hmem, hplace⟩ := mem_of_mem_providerParameters haccepted hfield
      obtain ⟨name, rfl⟩ := Schema.badKeys_eq_nil_iff.mp hkeys _ hmem
      refine .parameter hmem ?_ hmentions
      rcases hplace with hother | ⟨hvalue, -⟩
      · exact .inr (Schema.isOther_text_iff.mp hother)
      · exact .inl (Value.text.inj hvalue)
    · exact .filter ((hparameters t.2).mp ⟨filter, hfilter, t, ht, rfl⟩) hfield hkey hmentions
  · intro hmentions
    cases hmentions with
    | @parameter key v hmem hplace hmentions =>
      left
      have hgiven := mem_providerParameters_iff (distinct_of_simple hentry) haccepted (.text key, v)
      refine ⟨_, List.mem_map_of_mem (hgiven.mpr ⟨hmem, ?_⟩), hmentions⟩
      rcases hplace with rfl | hother
      · -- a null value is not given to the provider, but it mentions nothing either
        right
        refine ⟨rfl, ?_⟩
        by_contra hnull
        exact Given.not_mentions_of_isNull (g := .raw v) (by simpa [Given.isNull] using hnull) other
          hmentions
      · exact .inl (Schema.isOther_text_iff.mpr hother)
    | @filter parameters key v hof hfield hkey hmentions =>
      obtain ⟨filter, hfilter, t, ht, rfl⟩ := (hparameters parameters).mpr hof
      exact .inr ⟨filter, hfilter, t, ht, (key, v), hfield, hkey, hmentions⟩

end DynamicEntry

end VariableOrder
