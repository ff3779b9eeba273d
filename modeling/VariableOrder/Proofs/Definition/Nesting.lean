import VariableOrder.Proofs.Definition.Filtering
import VariableOrder.Proofs.Provider.Place

/-!
# Calls as entries

A call that is nested in other data may as well be the value of an entry, as long as its provider
takes no parameter that is a field of entries. The value is the only such field that an entry hands
on to its provider, so an entry makes any call but those of the provider for environment variables,
whose only parameter is the name.
-/

set_option autoImplicit false

namespace VariableOrder

open Data (Value Record)

namespace DynamicEntry

variable {c : Catalogue} {entries entry : Record Value}

/-- Whether no field of an entry but the provider and the value is among the keys of a record. -/
def LeavesFields (entries : Record Value) : Prop :=
  ∀ f ∈ entries, ∀ name ∈ fieldNames, f.1 = .text name → name = "provider" ∨ name = "value"

/-- The other fields of an entry are missing in such a record. -/
theorem LeavesFields.get?_eq_none (h : LeavesFields entries) {field : String}
    (hfield : field ∈ fieldNames) (hprovider : field ≠ "provider") (hvalue : field ≠ "value") :
    entries.get? field = none := by
  cases hfound : entries.get? field with
  | none => rfl
  | some w =>
    have hown := h _ (Record.mem_of_get? hfound) field hfield rfl
    exact absurd hown (not_or.mpr ⟨hprovider, hvalue⟩)

section Extended

variable (hkeys : entries.TextKeys) (hfields : LeavesFields entries) {v : Value}
  (hperm : entry.Perm ((.text "name", v) :: entries))

include hkeys hfields hperm

/-- A record with a name is an entry whose keys are texts. -/
theorem textKeys_extended : entry.TextKeys := by
  have hnew : Value.text "name" ∉ entries.map (·.1) := by
    intro hmem
    obtain ⟨f, hf, hkey⟩ := List.mem_map.mp hmem
    have hfield := hfields f hf "name" (by decide) hkey
    revert hfield
    decide
  have hextended : Record.TextKeys ((.text "name", v) :: entries) := by
    refine ⟨List.forall_mem_cons.mpr ⟨⟨_, rfl⟩, hkeys.text⟩, ?_⟩
    exact List.nodup_cons.mpr ⟨hnew, hkeys.nodup⟩
  exact hextended.of_perm (hperm.map _).symm

/-- The entry has the new name, and otherwise what the record has. -/
theorem get?_extended (name : String) :
    entry.get? name = if name = "name" then some v else entries.get? name := by
  rw [(textKeys_extended hkeys hfields hperm).get?_eq_of_perm hperm]
  split_ifs with hname
  · rw [hname]
    exact Record.get?_cons_self "name" v entries
  · exact Record.get?_cons_of_ne (by simpa using Ne.symm hname) entries

/-- Such an entry is accepted, with the provider that the record names and no filters. -/
theorem exists_ofFields_extended {kind : String} (hne : kind ≠ "")
    (hkind : entries.get? "provider" = some (.text kind))
    {name : String} (hname : Schema.checkName v = .ok name) :
    ∃ e, ofFields entry = .ok e ∧ e.name = name ∧ e.kind = kind ∧ e.filters = [] := by
  have hget := get?_extended hkeys hfields hperm
  have hdefault : ∀ {α : Type} (field : String) (standard : α) (check : Value → Schema.Checked α),
      field ∈ fieldNames → field ≠ "provider" → field ≠ "value" → field ≠ "name" →
        Schema.defaulted entry field standard check = .ok standard := by
    intro α field standard check hfield hprovider hvalue hother
    refine Schema.defaulted_eq_ok_iff.mpr (.inr ⟨?_, rfl⟩)
    rw [hget, if_neg hother, hfields.get?_eq_none hfield hprovider hvalue]
  refine ⟨{ name := name, provider := some kind, value := (entries.get? "value").getD .null
            condition := none, checkOnce := false, ignoreFailure := true, autoUnset := true
            filters := [], parameters := otherFields entry },
    ofFields_eq_ok_iff.mpr ⟨?_, ?_, ?_, ?_, ?_, ?_, ?_, ?_, ?_, rfl⟩, rfl, if_neg hne, rfl⟩
  · exact Schema.required_eq_ok_iff.mpr ⟨v, by rw [hget, if_pos rfl], hname⟩
  · refine Schema.defaulted_eq_ok_iff.mpr (.inl ⟨.text kind, ?_, rfl⟩)
    rw [hget, if_neg (by decide), hkind]
  · have hvalue : entry.get? "value" = entries.get? "value" := by
      rw [hget, if_neg (by decide)]
    unfold Schema.defaulted
    rw [hvalue]
    cases entries.get? "value" <;> rfl
  · apply hdefault <;> decide
  · apply hdefault <;> decide
  · apply hdefault <;> decide
  · apply hdefault <;> decide
  · apply hdefault <;> decide
  · exact Schema.badKeys_eq_nil_iff.mpr (textKeys_extended hkeys hfields hperm).text

/-- Such an entry gives its provider what the record gives for a call, but for null. -/
theorem mem_providerParameters_extended {e : DynamicEntry} (haccepted : ofFields entry = .ok e)
    (f : Value × Value) : f ∈ e.providerParameters ↔
      f ∈ Record.without entries "provider" ∧ (f.1 = .text "value" → f.2.isNull = false) := by
  have hentry := textKeys_extended hkeys hfields hperm
  rw [mem_providerParameters_iff hentry.distinct haccepted, hperm.mem_iff, List.mem_cons,
    Record.mem_without]
  constructor
  · rintro ⟨rfl | hmem, hplace⟩
    · -- the name itself is not handed on
      rcases hplace with hother | ⟨hvalue, -⟩
      · exact absurd (by decide) (Schema.isOther_text_iff.mp hother)
      · exact absurd (Value.text.inj hvalue) (by decide)
    · obtain ⟨param, hparam⟩ := hkeys.text f hmem
      rw [hparam] at hplace ⊢
      rcases hplace with hother | ⟨hvalue, hnull⟩
      · have hfield := Schema.isOther_text_iff.mp hother
        refine ⟨⟨hmem, ?_⟩, ?_⟩
        · rintro hprovider
          exact hfield (Value.text.inj hprovider ▸ by decide)
        · intro hvalue
          exact absurd (Value.text.inj hvalue ▸ by decide) hfield
      · refine ⟨⟨hmem, ?_⟩, fun _ => hnull⟩
        rw [hvalue, Ne, Value.text.injEq]
        decide
  · rintro ⟨⟨hmem, hprovider⟩, hvalue⟩
    obtain ⟨param, hparam⟩ := hkeys.text f hmem
    rw [hparam] at hprovider hvalue ⊢
    refine ⟨.inr hmem, ?_⟩
    by_cases hfield : param ∈ fieldNames
    · rcases hfields f hmem param hfield hparam with rfl | rfl
      · exact absurd rfl hprovider
      · exact .inr ⟨rfl, hvalue rfl⟩
    · exact .inl (Schema.isOther_text_iff.mpr hfield)

end Extended

/-- Whatever a nested record is built to is the value of the entry that it makes with a name. -/
theorem exists_read_of_build (hkeys : entries.TextKeys) (hfields : LeavesFields entries)
    {place : String} {e : Expr} (h : c.build place (.record entries) = .ok e)
    {v : Value} {name : String} (hname : Schema.checkName v = .ok name)
    (hperm : entry.Perm ((.text "name", v) :: entries)) (position : Nat) :
    ∃ candidate, read c position entry = .ok (name, candidate) ∧ candidate.value = e := by
  obtain ⟨kind, hkind, hne, hcall⟩ := Catalogue.build_record_eq_ok_iff.mp h
  obtain ⟨p, hp, hcall⟩ := Catalogue.call_eq_ok_iff.mp hcall
  obtain ⟨hadmits, -⟩ := Provider.call_eq_ok_iff.mp hcall
  obtain ⟨d, haccepted, hdname, hdkind, hfilters⟩ :=
    exists_ofFields_extended hkeys hfields hperm hne hkind hname
  have hmem := mem_providerParameters_extended hkeys hfields hperm haccepted
  have hdistinct := distinct_providerParameters (textKeys_extended hkeys hfields hperm).distinct
    haccepted
  have hexpression : d.expression c = .ok e := by
    rw [expression_eq, hfilters, hdkind]
    have hprovider : c.call kind (c.givenParams (Catalogue.rawFields d.providerParameters))
        (EntryKind.dynamic.context d.name) = .ok e := by
      refine Catalogue.call_eq_ok_iff.mpr ⟨p, hp, Provider.call_of_get?_iff hcall ?_ ?_ _⟩
      · intro f hf
        obtain ⟨g, hg, rfl⟩ := List.mem_map.mp hf
        exact hadmits.named _ (List.mem_map_of_mem ((hmem g).mp hg).1)
      · intro param g hnull
        unfold nestedFields
        rw [Catalogue.get?_rawFields, Catalogue.get?_rawFields]
        simp only [Option.map_eq_some_iff]
        refine exists_congr fun w => and_congr_left fun hw => ?_
        subst hw
        rw [hdistinct.get?_eq_some_iff, (hkeys.without _).distinct.get?_eq_some_iff, hmem]
        exact and_iff_left fun _ => hnull
    rw [hprovider]
    rfl
  refine ⟨⟨e, d.condition, d.checkOnce, d.ignoreFailure, d.autoUnset⟩,
    EntryKind.read_dynamic_eq_ok_iff.mpr ⟨d, haccepted, hdname, ?_⟩, rfl⟩
  rw [candidate, hexpression]
  rfl

/-- The value of an entry is no call of the provider for environment variables, which would need a
parameter that is the name of the entry. -/
theorem value_ne_environment {position : Nat} {name : String} {candidate : Candidate}
    (h : read .standard position entry = .ok (name, candidate))
    (arguments : List (String × Argument)) :
    candidate.value ≠ .call "environment" arguments := by
  obtain ⟨e, haccepted, -, hcandidate⟩ := EntryKind.read_dynamic_eq_ok_iff.mp h
  obtain ⟨first, hfirst, hfiltered⟩ := filtered_of_expression Catalogue.named_standard haccepted
    (expression_of_candidate hcandidate)
  intro hcall
  rw [hcall] at hfiltered
  generalize givenFilters entry = filters at hfiltered
  cases hfiltered with
  | none =>
    -- the only provider of that name requires what no entry hands on
    obtain ⟨p, hp, hcall⟩ := Catalogue.call_eq_ok_iff.mp hfirst
    rw [Catalogue.params_eq] at hcall
    obtain ⟨hadmits, others, hsame, -⟩ := Provider.call_eq_ok_iff.mp hcall
    have hrequired : ∀ p ∈ Catalogue.standardProviders, p.typeName = "environment" →
        "name" ∈ p.required := by decide
    have hname := hrequired p (Catalogue.mem_standardProviders hp) (Expr.call.inj hsame).1.symm
    obtain ⟨g, hg, -⟩ := hadmits.required "name" hname
    obtain ⟨f, hf, hkey⟩ := List.mem_map.mp (Record.mem_of_get? hg)
    obtain ⟨-, hother⟩ := mem_of_mem_providerParameters haccepted hf
    rw [(Prod.mk.inj hkey).1] at hother
    rcases hother with hother | ⟨hvalue, -⟩
    · exact absurd (by decide) (Schema.isOther_text_iff.mp hother)
    · exact absurd (Value.text.inj hvalue) (by decide)
  | more _ hfilter =>
    generalize houter : Expr.call "environment" arguments = outer at hfilter
    cases hfilter with
    | @call _ _ type p _ _ _ hp hkind =>
      have hown : p.typeName = Catalogue.filterKind type :=
        hkind.resolve_right fun h => h.1 (Catalogue.mem_standardProviders hp)
      have hfirst := Catalogue.head?_filterKind type
      rw [← hown, ← (Expr.call.inj houter).1] at hfirst
      revert hfirst
      decide

end DynamicEntry

namespace Catalogue

/-- The parameters of a standard provider that are fields of an entry are values, except for the one
for environment variables. -/
theorem eq_value_of_mem_paramNames {p : Provider} (hp : p ∈ standardProviders)
    (hne : p.typeName ≠ "environment") {name : String} (hname : name ∈ p.paramNames)
    (hfield : name ∈ DynamicEntry.fieldNames) : name = "value" := by
  have hall : ∀ p ∈ standardProviders, p.typeName ≠ "environment" →
      ∀ name ∈ p.paramNames, name ∈ DynamicEntry.fieldNames → name = "value" := by decide
  exact hall p hp hne name hname hfield

/-- What a nested record is built to is the value of some entry unless it is a call of the provider
for environment variables, and any name makes the record such an entry as long as no other fields of
an entry are among its keys. -/
theorem exists_entry_iff {entries : Record Value} (hkeys : entries.TextKeys) {place : String}
    {e : Expr} (h : standard.build place (.record entries) = .ok e) :
    ((∃ position entry name candidate,
        DynamicEntry.read standard position entry = .ok (name, candidate) ∧ candidate.value = e) ↔
      ∀ arguments, e ≠ .call "environment" arguments) ∧
    (DynamicEntry.LeavesFields entries → ∀ v name entry position, Schema.checkName v = .ok name →
      entry.Perm ((.text "name", v) :: entries) →
        ∃ candidate, DynamicEntry.read standard position entry = .ok (name, candidate) ∧
          candidate.value = e) := by
  have hextended : DynamicEntry.LeavesFields entries → ∀ v name entry position,
      Schema.checkName v = .ok name → entry.Perm ((.text "name", v) :: entries) →
        ∃ candidate, DynamicEntry.read standard position entry = .ok (name, candidate) ∧
          candidate.value = e :=
    fun hfields _ _ _ position hname hperm =>
      DynamicEntry.exists_read_of_build hkeys hfields h hname hperm position
  refine ⟨⟨?_, ?_⟩, hextended⟩
  · rintro ⟨position, entry, name, candidate, hread, rfl⟩ arguments
    exact DynamicEntry.value_ne_environment hread arguments
  · intro hother
    obtain ⟨kind, hkind, hne, hcall⟩ := build_record_eq_ok_iff.mp h
    obtain ⟨p, hp, hcall⟩ := call_eq_ok_iff.mp hcall
    obtain ⟨hadmits, arguments, rfl, -⟩ := Provider.call_eq_ok_iff.mp hcall
    have hfields : DynamicEntry.LeavesFields entries := by
      intro f hf name hname hkey
      by_cases hprovider : name = "provider"
      · exact .inl hprovider
      · have hmem : f ∈ Record.without entries providerKey := by
          refine Record.mem_without.mpr ⟨hf, ?_⟩
          rw [hkey, Ne, Value.text.injEq]
          exact hprovider
        obtain ⟨param, hparam, hsame⟩ := hadmits.named (f.1, .raw f.2) (List.mem_map_of_mem hmem)
        obtain rfl : name = param := Value.text.inj (hkey.symm.trans hsame)
        have hne : p.typeName ≠ "environment" := by
          intro hname
          exact hother arguments (congrArg (Expr.call · arguments) hname)
        exact .inr (eq_value_of_mem_paramNames (mem_standardProviders hp) hne hparam hname)
    obtain ⟨candidate, hread, hvalue⟩ := hextended hfields (.text "x") "x" _ 0 rfl (.refl _)
    exact ⟨0, _, "x", candidate, hread, hvalue⟩

/-- A value of the registry is read by an entry as well as by a nested record. -/
theorem exists_entry_iff_registry :
    let entries : Record Value := [(.text "provider", .text "regvalue"), (.text "key", .text "k"),
      (.text "value", .text "v")]
    ∃ e, standard.build "" (.record entries) = .ok e ∧
      (∃ position entry name candidate,
        DynamicEntry.read standard position entry = .ok (name, candidate) ∧ candidate.value = e) ∧
      ∃ candidate, DynamicEntry.read standard 0 ((.text "name", .text " x ") :: entries) =
        .ok ("x", candidate) ∧ candidate.value = e := by
  intro entries
  have hkeys : entries.TextKeys := ⟨by simp [entries], by simp [entries]⟩
  have hfields : DynamicEntry.LeavesFields entries := by
    unfold DynamicEntry.LeavesFields
    simp only [entries, List.forall_mem_cons, Value.text.injEq]
    refine ⟨?_, ?_, ?_, nofun⟩
    · rintro _ _ rfl
      exact .inl rfl
    · rintro _ hfield rfl
      exact absurd hfield (by decide)
    · rintro _ _ rfl
      exact .inr rfl
  have hbuild : standard.build "" (.record entries) =
    .ok (.call "regvalue" [("key", .single (.ofText "k")), ("value", .single (.ofText "v"))]) := rfl
  obtain ⟨hiff, hextended⟩ := exists_entry_iff hkeys hbuild
  refine ⟨_, hbuild, hiff.mpr (by simp), ?_⟩
  exact hextended hfields (.text " x ") "x" _ 0 rfl (.refl _)

/-- A nested record reads an environment variable, but no entry does: the parameter of the provider
is taken for the name of the entry. -/
theorem environment_has_no_entry :
    let entries : Record Value := [(.text "provider", .text "environment"),
      (.text "name", .text "HOME")]
    let call : Expr := .call "environment" [("name", .single (.ofText "HOME"))]
    entries.TextKeys ∧ standard.build "" (.record entries) = .ok call ∧
      (∀ position entry name candidate,
        DynamicEntry.read standard position entry = .ok (name, candidate) →
          candidate.value ≠ call) ∧
      (DynamicEntry.read standard 1 entries).mapError Refusal.message = .error
        "Dynamic variable 'HOME': Provider 'environment' requires parameter(s): name." := by
  intro entries call
  refine ⟨⟨by simp [entries], by simp [entries]⟩, rfl, ?_, rfl⟩
  exact fun _ _ _ _ hread => DynamicEntry.value_ne_environment hread _

end Catalogue

end VariableOrder
