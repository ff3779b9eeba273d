import VariableOrder.Definition.Entry
import VariableOrder.Proofs.Provider.Fault
import VariableOrder.Proofs.Schema.Collection

/-!
# Accepted entries

An entry is accepted when each of its fields is. The value of a static entry is built on its own.
A dynamic entry makes a call of its provider, and then a call for each filter around what was built
so far, which the filter is given as its input. All that these calls are given has texts for names,
so an entry breaks off only in something that such a call takes.
-/

set_option autoImplicit false

namespace VariableOrder

open Data (Value Record)

/-- A static entry is accepted exactly when each of its fields is and there is no other field. -/
theorem StaticEntry.ofFields_eq_ok_iff {entries : Record Value} {e : StaticEntry} :
    ofFields entries = .ok e ↔
      Schema.required entries "name" Schema.checkName = .ok e.name ∧
      Schema.defaulted entries "value" (.text "") Schema.checkAny = .ok e.value ∧
      Schema.defaulted entries "condition" none Schema.checkOptionalText = .ok e.condition ∧
      Schema.forbidOthers entries fieldNames = [] := by
  obtain ⟨name, value, condition⟩ := e
  unfold ofFields
  dsimp only
  split
  · rename_i hname hvalue hcondition hothers
    simp [hname, hvalue, hcondition, hothers]
  · rename_i hnot
    refine iff_of_false (by simp) ?_
    rintro ⟨hname, hvalue, hcondition, hothers⟩
    exact hnot _ _ _ hname hvalue hcondition hothers

/-- All that a filter is given: its parameters, with the expression that it is around as input. -/
def Catalogue.filterFields (inner : Expr) (parameters : Record Value) : Record Given :=
  Record.put (.text filterInput) (.built inner) (rawFields parameters)

/-- What holds of the input of a filter and of all its parameters holds of all that it is given. -/
theorem Catalogue.forall_mem_filterFields {P : Given → Prop} {inner : Expr}
    {parameters : Record Value} (hinner : P (.built inner))
    (hparameters : ∀ f ∈ parameters, P (.raw f.2)) :
    ∀ f ∈ filterFields inner parameters, P f.2 := by
  have hraw : ∀ f ∈ rawFields parameters, P f.2 := List.forall_mem_map.mpr hparameters
  intro f hf
  rcases Record.mem_put hf with hf | ⟨hbuilt, -⟩
  · exact hraw f hf
  · rwa [hbuilt]

/-- A filter makes the call of its provider with its parameters and the value that it is around. -/
theorem Catalogue.filter_eq (c : Catalogue) (inner : Expr) (type : String)
    (parameters : Record Value) (place : String) :
    c.filter inner [(type, parameters)] place =
      c.call (filterKind type) (c.givenParams (filterFields inner parameters)) place := by
  have hput := Record.put_map c.givenParam (.text filterInput) (.built inner) (rawFields parameters)
  unfold filter filterFields
  dsimp only
  rw [params_eq, givenParams, givenParams, ← hput]
  rfl

namespace DynamicEntry

variable {entries : Record Value} {e : DynamicEntry}

/-- A dynamic entry is accepted exactly when each of its fields is, and what is left are the
parameters of its provider. -/
theorem ofFields_eq_ok_iff : ofFields entries = .ok e ↔
    Schema.required entries "name" Schema.checkName = .ok e.name ∧
    Schema.defaulted entries "provider" none Schema.checkOptionalText = .ok e.provider ∧
    Schema.defaulted entries "value" .null Schema.checkAny = .ok e.value ∧
    Schema.defaulted entries "condition" none Schema.checkOptionalText = .ok e.condition ∧
    Schema.defaulted entries "checkonce" false Schema.checkFlag = .ok e.checkOnce ∧
    Schema.defaulted entries "ignorefailure" true Schema.checkFlag = .ok e.ignoreFailure ∧
    Schema.defaulted entries "unset" true Schema.checkFlag = .ok e.autoUnset ∧
    Schema.defaulted entries "filters" []
      (Schema.checkList (Schema.checkRecord Schema.checkFields)) = .ok e.filters ∧
    Schema.badKeys entries = [] ∧ otherFields entries = e.parameters := by
  obtain ⟨name, provider, value, condition, checkOnce, ignoreFailure, autoUnset, filters,
    parameters⟩ := e
  unfold ofFields
  dsimp only
  split
  · rename_i hname hprovider hvalue hcondition hcheckOnce hignoreFailure hautoUnset hfilters hothers
    simp [hname, hprovider, hvalue, hcondition, hcheckOnce, hignoreFailure, hautoUnset, hfilters,
      hothers]
  · rename_i hnot
    refine iff_of_false (by simp) ?_
    rintro ⟨hname, hprovider, hvalue, hcondition, hcheckOnce, hignoreFailure, hautoUnset, hfilters,
      hothers, -⟩
    exact hnot _ _ _ _ _ _ _ _ hname hprovider hvalue hcondition hcheckOnce hignoreFailure
      hautoUnset hfilters hothers

/-- The provider of an entry is given fields that mean nothing else, and the value if it is not
null. -/
theorem mem_of_mem_providerParameters (haccepted : ofFields entries = .ok e) {f : Value × Value}
    (hf : f ∈ e.providerParameters) : f ∈ entries ∧
      (Schema.isOther fieldNames f.1 = true ∨ f.1 = .text "value" ∧ f.2.isNull = false) := by
  obtain ⟨-, -, hvalue, -, -, -, -, -, -, hparameters⟩ := ofFields_eq_ok_iff.mp haccepted
  have hother : f ∈ e.parameters → f ∈ entries ∧ Schema.isOther fieldNames f.1 = true := by
    rw [← hparameters]
    exact List.mem_filter.mp
  unfold providerParameters at hf
  split_ifs at hf with hnull
  · exact (hother hf).imp_right .inl
  · rcases List.mem_append.mp hf with hf | hf
    · exact (hother hf).imp_right .inl
    · obtain rfl := List.mem_singleton.mp hf
      refine ⟨?_, .inr ⟨rfl, by simpa using hnull⟩⟩
      rcases Schema.defaulted_eq_ok_iff.mp hvalue with ⟨v, hget, hv⟩ | ⟨-, hv⟩
      · obtain rfl := Except.ok.inj hv
        exact Record.mem_of_get? hget
      · rw [← hv] at hnull
        exact absurd rfl hnull

/-- The provider of an entry with distinct keys is given exactly the fields that mean nothing else,
and the value if it is not null. -/
theorem mem_providerParameters_iff (hentry : entries.Distinct)
    (haccepted : ofFields entries = .ok e) (f : Value × Value) :
    f ∈ e.providerParameters ↔ f ∈ entries ∧
      (Schema.isOther fieldNames f.1 = true ∨ f.1 = .text "value" ∧ f.2.isNull = false) := by
  refine ⟨mem_of_mem_providerParameters haccepted, ?_⟩
  obtain ⟨-, -, hvalue, -, -, -, -, -, -, hparameters⟩ := ofFields_eq_ok_iff.mp haccepted
  obtain ⟨key, v⟩ := f
  unfold providerParameters
  rintro ⟨hmem, hkey | ⟨hkey, hv⟩⟩
  · have hother : (key, v) ∈ e.parameters := by
      rw [← hparameters]
      exact List.mem_filter.mpr ⟨hmem, hkey⟩
    split_ifs
    · exact hother
    · exact List.mem_append_left _ hother
  · -- no other value stands under the same key
    obtain rfl : key = .text "value" := hkey
    have hsame : e.value = v := by
      unfold Schema.defaulted at hvalue
      rw [hentry.get?_of_mem hmem] at hvalue
      exact (Except.ok.inj hvalue).symm
    rw [hsame, if_neg (by simp [hv])]
    exact List.mem_append_right _ (List.mem_singleton_self _)

/-- The provider of an entry with distinct keys is given distinct keys. -/
theorem distinct_providerParameters (hentry : entries.Distinct)
    (haccepted : ofFields entries = .ok e) : Record.Distinct e.providerParameters := by
  obtain ⟨-, -, -, -, -, -, -, -, -, hparameters⟩ := ofFields_eq_ok_iff.mp haccepted
  have hothers : Record.Distinct e.parameters := by
    rw [← hparameters]
    exact hentry.filter _
  unfold providerParameters
  split_ifs
  · exact hothers
  · refine List.pairwise_append.mpr ⟨hothers, List.pairwise_singleton _ _, ?_⟩
    intro f hf last hlast
    obtain rfl := List.mem_singleton.mp hlast
    rw [Bool.eq_false_iff, Ne, Value.sameKey_text]
    intro hkey
    rw [← hparameters] at hf
    have hother := (List.mem_filter.mp hf).2
    rw [hkey] at hother
    revert hother
    decide

/-- The entry with other filters. -/
def withFilters (e : DynamicEntry) (filters : List (List (String × Record Value))) : DynamicEntry :=
  { e with filters := filters }

/-- The calls of an entry that are come to: that of its provider, and that of a filter around what
the provider and the filters in front of it were built to. -/
inductive Calls (c : Catalogue) (e : DynamicEntry) : String → Record Given → Prop where
  | provider : Calls c e e.kind (Catalogue.rawFields e.providerParameters)
  | filter {before after : List (List (String × Record Value))} {type : String}
      {parameters : Record Value} {inner : Expr}
      (hfilters : e.filters = before ++ [(type, parameters)] :: after)
      (hinner : (e.withFilters before).expression c = .ok inner) :
      Calls c e (Catalogue.filterKind type) (Catalogue.filterFields inner parameters)

/-- The expression of an entry is the call of its provider with the filters around it. -/
theorem expression_eq (c : Catalogue) (e : DynamicEntry) : e.expression c =
    (c.call e.kind (c.givenParams (Catalogue.rawFields e.providerParameters))
      (EntryKind.dynamic.context e.name)) >>= fun inner =>
        e.filters.foldlM (fun inner filter =>
          c.filter inner filter (EntryKind.dynamic.context e.name)) inner := by
  rw [← Catalogue.params_eq]
  rfl

/-- The candidate of an entry holds its expression. -/
theorem expression_of_candidate {c : Catalogue} {candidate : Candidate}
    (h : e.candidate c = .ok candidate) : e.expression c = .ok candidate.value := by
  obtain ⟨value, hvalue, hcandidate⟩ := bind_eq_ok_iff.mp h
  obtain rfl := Except.ok.inj hcandidate
  exact hvalue

/-- An entry breaks off when one of its calls does. -/
theorem expression_fault_iff {c : Catalogue} :
    (∃ f, e.expression c = .error (.fault f)) ↔ ∃ kind fields, e.Calls c kind fields ∧
      ∃ f, c.call kind (c.givenParams fields) (EntryKind.dynamic.context e.name) =
        .error (.fault f) := by
  have hbefore : ∀ before, (e.withFilters before).expression c =
      (c.call e.kind (c.givenParams (Catalogue.rawFields e.providerParameters))
        (EntryKind.dynamic.context e.name)) >>= fun inner =>
          before.foldlM (fun inner filter =>
            c.filter inner filter (EntryKind.dynamic.context e.name)) inner :=
    fun before => expression_eq c (e.withFilters before)
  rw [expression_eq]
  -- The filters in front of one make an entry of their own: its expression is what that filter is
  -- around, so a failing step of the fold is a call that is come to.
  constructor
  · rintro ⟨f, hf⟩
    cases hcall : c.call e.kind (c.givenParams (Catalogue.rawFields e.providerParameters))
        (EntryKind.dynamic.context e.name) with
    | error x =>
      rw [hcall] at hf
      obtain rfl := Except.error.inj hf
      exact ⟨_, _, .provider, f, hcall⟩
    | ok first =>
      rw [hcall] at hf
      obtain ⟨before, filter, after, inner, hfilters, hinner, hfilter⟩ := foldlM_eq_error_iff.mp hf
      have hexpression : (e.withFilters before).expression c = .ok inner := by
        rw [hbefore, hcall]
        exact hinner
      match filter, hfilters, hfilter with
      | [(type, parameters)], hfilters, hfilter =>
        rw [Catalogue.filter_eq] at hfilter
        exact ⟨_, _, .filter hfilters hexpression, f, hfilter⟩
      | [], _, hfilter => cases hfilter
      | _ :: _ :: _, _, hfilter => cases hfilter
  · rintro ⟨kind, fields, hcalls, f, hf⟩
    cases hcalls with
    | provider =>
      rw [hf]
      exact ⟨f, rfl⟩
    | @filter before after type parameters inner hfilters hinner =>
      rw [hbefore] at hinner
      cases hcall : c.call e.kind (c.givenParams (Catalogue.rawFields e.providerParameters))
          (EntryKind.dynamic.context e.name) with
      | error x =>
        rw [hcall] at hinner
        cases hinner
      | ok first =>
        rw [hcall] at hinner
        rw [← Catalogue.filter_eq] at hf
        exact ⟨f, foldlM_eq_error_iff.mpr ⟨before, _, after, inner, hfilters, hinner, hf⟩⟩

/-- All that the calls of an accepted entry are given has texts for names. -/
theorem Calls.exists_text {c : Catalogue} {kind : String} {fields : Record Given}
    (h : e.Calls c kind fields) (haccepted : ofFields entries = .ok e) :
    ∀ f ∈ fields, ∃ s, f.1 = .text s := by
  obtain ⟨-, -, -, -, -, -, -, hfilters, hkeys, -⟩ := ofFields_eq_ok_iff.mp haccepted
  have hraw : ∀ parameters : Record Value, (∀ f ∈ parameters, ∃ s, f.1 = .text s) →
      ∀ f ∈ Catalogue.rawFields parameters, ∃ s, f.1 = .text s := by
    intro parameters htext f hf
    obtain ⟨entry, hentry, rfl⟩ := List.mem_map.mp hf
    exact htext entry hentry
  cases h with
  | provider =>
    refine hraw _ ?_
    intro f hf
    exact Schema.badKeys_eq_nil_iff.mp hkeys f (mem_of_mem_providerParameters haccepted hf).1
  | @filter before after type parameters inner hsplit hinner =>
    have hmem : [(type, parameters)] ∈ e.filters := by
      rw [hsplit]
      simp
    rcases Schema.defaulted_eq_ok_iff.mp hfilters with ⟨v, -, hv⟩ | ⟨-, hnone⟩
    · obtain ⟨item, hitem⟩ := Schema.exists_of_mem_checkList hv hmem
      obtain ⟨content, hcontent⟩ :=
        Schema.exists_of_mem_checkRecord hitem (List.mem_singleton_self (type, parameters))
      have htext := hraw parameters (Schema.exists_text_of_checkFields hcontent)
      intro f hf
      rcases Record.mem_put hf with hf | ⟨-, hkey | ⟨g, hg⟩⟩
      · exact htext f hf
      · exact ⟨_, hkey⟩
      · exact htext (f.1, g) hg
    · rw [← hnone] at hmem
      cases hmem

/-- What the calls of an entry lead to when it is built. -/
def Reaches (c : Catalogue) (e : DynamicEntry) (s : String × Given) : Prop :=
  ∃ kind fields part, e.Calls c kind fields ∧
    c.Takes kind (EntryKind.dynamic.context e.name) fields part ∧
    Relation.ReflTransGen c.Leads part s

/-- An accepted entry breaks off exactly when its calls lead to something broken. -/
theorem expression_breaksOff_iff {c : Catalogue} (h : ofFields entries = .ok e) :
    (∃ f, e.expression c = .error (.fault f)) ↔ ∃ s, e.Reaches c s ∧ c.Broken s.2 := by
  rw [expression_fault_iff]
  constructor
  · rintro ⟨kind, fields, hcalls, hf⟩
    rcases Catalogue.call_breaksOff_iff.mp hf with ⟨-, f, hf, hname⟩ | ⟨part, htakes, hpart⟩
    · obtain ⟨s, hs⟩ := hcalls.exists_text h f hf
      exact absurd hs (hname s)
    · obtain ⟨s, hway, hbroken⟩ := Catalogue.buildGiven_fault_iff.mp hpart
      exact ⟨s, ⟨kind, fields, part, hcalls, htakes, hway⟩, hbroken⟩
  · rintro ⟨s, ⟨kind, fields, part, hcalls, htakes, hway⟩, hbroken⟩
    have hpart := Catalogue.buildGiven_fault_iff.mpr ⟨s, hway, hbroken⟩
    exact ⟨kind, fields, hcalls, Catalogue.call_breaksOff_iff.mpr (.inr ⟨part, htakes, hpart⟩)⟩

end DynamicEntry

end VariableOrder
