import VariableOrder.Proofs.Definition.Mention
import VariableOrder.Proofs.Provider.Reread

/-!
# Loaded expressions

Expressions are loaded from raw values and from the entries of definition files. The value of an
accepted dynamic entry is a call of its provider with a call around it for each filter, and all of
them are in canonical form when the entry is made of nulls and texts. So what is written of a loaded
expression is read as the same expression again.
-/

set_option autoImplicit false

namespace VariableOrder

open Data (Value Record)

/-- The fields of a dynamic entry that are truth values. They do not belong to its expression. -/
def DynamicEntry.flagNames : List String := ["checkonce", "ignorefailure", "unset"]

/-- Whether a dynamic entry is made of nulls and texts, in lists and in records with distinct keys,
apart from its truth values. -/
structure TextualEntry (entry : Record Value) : Prop where
  simple : (Value.record entry).Simple
  textual : ∀ f ∈ entry, (∀ flag ∈ DynamicEntry.flagNames, f.1 ≠ .text flag) → f.2.Textual

/-- The expressions that are loaded from nulls and texts: what a raw value is built to, and the
values of accepted dynamic entries. -/
inductive Catalogue.Loads (c : Catalogue) : Expr → Prop where
  | value {place : String} {v : Value} {e : Expr} (hv : v.Textual) (h : c.build place v = .ok e) :
    Loads c e
  | entry {position : Nat} {entry : Record Value} {name : String} {candidate : Candidate}
      (hentry : TextualEntry entry)
      (h : DynamicEntry.read c position entry = .ok (name, candidate)) : Loads c candidate.value

section Entry

variable {c : Catalogue} {place : String} {entry : Record Value} {e : DynamicEntry}

/-- The provider of such an entry is given nulls and texts, since no flag is a parameter. -/
theorem TextualEntry.textual_providerParameters (hentry : TextualEntry entry)
    (haccepted : DynamicEntry.ofFields entry = .ok e) :
    ∀ f ∈ e.providerParameters, f.2.Textual := by
  intro f hf
  obtain ⟨hmem, hkey⟩ := DynamicEntry.mem_of_mem_providerParameters haccepted hf
  -- no flag is a parameter of the provider
  have hparameter : ∀ flag ∈ DynamicEntry.flagNames,
      Schema.isOther DynamicEntry.fieldNames (.text flag) = false ∧ flag ≠ "value" := by
    decide
  refine hentry.textual f hmem fun flag hflag hname => ?_
  obtain ⟨hother, hvalue⟩ := hparameter flag hflag
  rw [hname, hother] at hkey
  rcases hkey with hkey | ⟨hkey, -⟩
  · cases hkey
  · exact hvalue (Value.text.inj hkey)

/-- The filters of such an entry are given nulls and texts. -/
theorem TextualEntry.textual_filter (hentry : TextualEntry entry) {parameters : Record Value}
    (h : FilterParameters entry parameters) : ∀ f ∈ parameters, f.2.Textual := by
  obtain ⟨filters, types, type, hget, hitem, hmem⟩ := h
  have hother : "filters" ∉ DynamicEntry.flagNames := by
    decide
  have hfilters : (Value.list filters).Textual :=
    hentry.textual _ (Record.mem_of_get? hget) fun flag hflag hname =>
      hother (Value.text.inj hname ▸ hflag)
  cases hfilters with
  | list hitems =>
    cases hitems _ hitem with
    | record htypes =>
      cases htypes _ hmem with
      | record hparameters => exact hparameters

namespace Catalogue

/-- One step: a filter makes a call in canonical form around one. -/
theorem textual_of_filter (hc : c.Coherent) {inner outer : Expr}
    {filter : List (String × Record Value)} (hinner : (Given.built inner).Textual c)
    (hfilter : ∀ t ∈ filter, ∀ f ∈ t.2, f.2.Textual)
    (h : c.filter inner filter place = .ok outer) : (Given.built outer).Textual c := by
  match filter, hfilter, h with
  | [(type, parameters)], hfilter, h =>
    rw [filter_eq] at h
    have hfields : ∀ f ∈ filterFields inner parameters, f.2.Textual c :=
      forall_mem_filterFields hinner (hfilter _ (List.mem_singleton_self (type, parameters)))
    exact textual_call hc hfields h
  | [], _, h => cases h
  | _ :: _ :: _, _, h => cases h

/-- Filters around each other make a call in canonical form around one. -/
theorem textual_of_filters (hc : c.Coherent) {filters : List (List (String × Record Value))}
    {inner outer : Expr} (hinner : (Given.built inner).Textual c)
    (hfilters : ∀ filter ∈ filters, ∀ t ∈ filter, ∀ f ∈ t.2, f.2.Textual)
    (h : filters.foldlM (fun inner filter => c.filter inner filter place) inner = .ok outer) :
    (Given.built outer).Textual c := by
  induction filters generalizing inner with
  | nil =>
    obtain rfl := Except.ok.inj h
    exact hinner
  | cons first rest ih =>
    rw [List.foldlM_cons] at h
    obtain ⟨next, hnext, hrest⟩ := bind_eq_ok_iff.mp h
    obtain ⟨hfirst, hall⟩ := List.forall_mem_cons.mp hfilters
    exact ih (textual_of_filter hc hinner hfirst hnext) hall hrest

end Catalogue

/-- The expression of an accepted entry of nulls and texts is a call in canonical form. -/
theorem TextualEntry.textual_expression (hc : c.Coherent) (hentry : TextualEntry entry)
    (haccepted : DynamicEntry.ofFields entry = .ok e) {x : Expr} (h : e.expression c = .ok x) :
    (Given.built x).Textual c := by
  rw [DynamicEntry.expression_eq] at h
  obtain ⟨inner, hinner, hfilters⟩ := bind_eq_ok_iff.mp h
  refine Catalogue.textual_of_filters hc ?_ ?_ hfilters
  · have hfields : ∀ f ∈ Catalogue.rawFields e.providerParameters, f.2.Textual c :=
      List.forall_mem_map.mpr (hentry.textual_providerParameters haccepted)
    exact Catalogue.textual_call hc hfields hinner
  · intro filter hfilter t ht
    refine hentry.textual_filter ?_
    exact (DynamicEntry.exists_mem_filters_iff hentry.simple haccepted t.2).mp
      ⟨filter, hfilter, t, ht, rfl⟩

end Entry

namespace Catalogue

/-- What is loaded is in canonical form. -/
theorem Loads.canonical {c : Catalogue} (hc : c.Coherent) {e : Expr} (h : c.Loads e) :
    c.Canonical e := by
  cases h with
  | @value place v _ hv hbuilt => exact canonical_buildGiven hc (g := .raw v) hv hbuilt
  | @entry position entry name candidate hentry hread =>
    obtain ⟨e, haccepted, -, hcandidate⟩ := EntryKind.read_dynamic_eq_ok_iff.mp hread
    have hvalue := DynamicEntry.expression_of_candidate hcandidate
    exact (hentry.textual_expression hc haccepted hvalue).1

/-- A loaded expression can be written, what is written is built to the same expression at every
place, and no other loaded expression is written as the same data. -/
theorem build_resource_of_loads {e : Expr} (h : standard.Loads e) :
    e.firstUnwritable = none ∧
      (∀ place, standard.build place e.resource.toValue = .ok e) ∧
      ∀ other, standard.Loads other → e.resource.Same other.resource → other = e := by
  have he := h.canonical coherent_standard
  refine ⟨he.firstUnwritable, build_resource coherent_standard he, ?_⟩
  intro other hother hsame
  exact (he.eq_of_same coherent_standard (hother.canonical coherent_standard) hsame).symm

/-- The entry calls a provider by its other name, gives a null and a single value in the place of a
list, and gives its filter an input. Nothing of this is written, and the same call is read again. -/
theorem build_resource_of_loads_filtered :
    let record (fields : List (String × Value)) : Record Value :=
      fields.map fun f => (.text f.1, f.2)
    let user := record [("name", .text "${user}"), ("provider", .text "env")]
    let regex := record [("regexp", .text "a"), ("input", .text "b")]
    let entry := record [("name", .text "home"), ("checkonce", .flag true),
      ("provider", .text "executable"), ("args", .record user), ("executable", .text "id"),
      ("dir", .null), ("filters", .list [.record (record [("regex", .record regex)])])]
    let run := Expr.call "executable" [("executable", .single (.ofText "id")),
      ("args", .many [.call "environment" [("name", .single (.ofText "${user}"))]])]
    let e := Expr.call "filter.regex" [("input", .single run), ("regexp", .single (.ofText "a"))]
    TextualEntry entry ∧ standard.Loads e ∧ standard.build "" e.resource.toValue = .ok e := by
  intro record user regex entry run e
  have huser : (Value.record user).Simple := by
    refine .of_texts (by decide) ?_
    simp only [List.forall_mem_cons]
    exact ⟨.text _, .text _, by simp⟩
  have hregex : (Value.record regex).Simple := by
    refine .of_texts (by decide) ?_
    simp only [List.forall_mem_cons]
    exact ⟨.text _, .text _, by simp⟩
  have hfilter : (Value.record (record [("regex", .record regex)])).Simple := by
    refine .of_texts (by decide) ?_
    simp only [List.forall_mem_cons]
    exact ⟨hregex, by simp⟩
  have hsimple : (Value.record entry).Simple := by
    refine .of_texts (by decide) ?_
    simp only [List.forall_mem_cons]
    exact ⟨.text _, .flag _, .text _, huser, .text _, .null,
      .list (List.forall_mem_singleton.mpr hfilter), by simp⟩
  have htexts : ∀ {fields : List (String × Value)}, (∀ f ∈ fields, f.2.Textual) →
      (Value.record (record fields)).Textual := by
    intro fields h
    refine .record fun f hf => ?_
    obtain ⟨field, hfield, rfl⟩ := List.mem_map.mp hf
    exact h field hfield
  have huserTextual : (Value.record user).Textual := by
    refine htexts ?_
    simp only [List.forall_mem_cons]
    exact ⟨.text _, .text _, by simp⟩
  have hfilterTextual : (Value.record (record [("regex", .record regex)])).Textual := by
    refine htexts ?_
    simp only [List.forall_mem_cons]
    refine ⟨htexts ?_, by simp⟩
    simp only [List.forall_mem_cons]
    exact ⟨.text _, .text _, by simp⟩
  have htextual : TextualEntry entry := by
    refine ⟨hsimple, ?_⟩
    simp only [entry, record, List.map_cons, List.map_nil, List.forall_mem_cons]
    exact ⟨fun _ => .text _, fun hflag => absurd rfl (hflag "checkonce" (by decide)),
      fun _ => .text _, fun _ => huserTextual, fun _ => .text _, fun _ => .null,
      fun _ => .list (List.forall_mem_singleton.mpr hfilterTextual), by simp⟩
  have hread : DynamicEntry.read standard 0 entry =
      .ok ("home", { value := e, checkOnce := true }) :=
    rfl
  have hloads : standard.Loads e := .entry htextual hread
  obtain ⟨-, hbuild, -⟩ := build_resource_of_loads hloads
  exact ⟨htextual, hloads, hbuild ""⟩

end Catalogue

end VariableOrder
