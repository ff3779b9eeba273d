import VariableOrder.Proofs.Expression.Written
import VariableOrder.Proofs.Provider.Argument

/-!
# Canonical expressions

Raw data of nulls and texts is built to an expression in a canonical form: its calls name providers
by their own names, and their arguments stand in the order of the parameters and have the shape that
the parameters ask for, with nothing null among them.
-/

set_option autoImplicit false

namespace VariableOrder

open Data (Value Record)

/-- Data of nulls and texts, in lists and in records. -/
inductive Data.Value.Textual : Value → Prop where
  | null : Textual .null
  | text (s : String) : Textual (.text s)
  | list {items : List Value} (h : ∀ v ∈ items, Textual v) : Textual (.list items)
  | record {entries : Record Value} (h : ∀ e ∈ entries, Textual e.2) : Textual (.record entries)

/-- Whether arguments are in the form that a call of the provider gives them: in the order of the
parameters, the required ones among them, lists where the parameters take lists, and with constant
texts only where they are allowed. -/
structure Provider.Accepts (p : Provider) (arguments : List (String × Argument)) : Prop where
  ordered : (arguments.map (·.1)).Sublist p.paramNames
  required : ∀ name ∈ p.required, name ∈ arguments.map (·.1)
  shaped : ∀ a ∈ arguments, a.2.isMany = p.list.contains a.1
  allowed : ∀ choice ∈ p.choices, ∀ s, (choice.1, .single (.ofText s)) ∈ arguments →
    '$' ∈ s.toList ∨ s ∈ choice.2

/-- The expressions in canonical form: expression texts, and calls of providers by their own names
with arguments that the providers accept. -/
inductive Catalogue.Canonical (c : Catalogue) : Expr → Prop where
  | text (s : String) : Canonical c (.ofText s)
  | call {p : Provider} {arguments : List (String × Argument)}
      (hp : c.get? p.typeName = some p) (haccepts : p.Accepts arguments)
      (hitems : ∀ a ∈ arguments, ∀ e ∈ a.2.items, Canonical c e) :
      Canonical c (.call p.typeName arguments)

/-- Whether every provider is found by its own name too, and no name of a parameter is used twice or
is the one that names a provider. -/
structure Catalogue.Coherent (c : Catalogue) : Prop where
  found : ∀ {kind p}, c.get? kind = some p → c.get? p.typeName = some p
  named : ∀ {kind p}, c.get? kind = some p → p.typeName ≠ ""
  params : ∀ {kind p}, c.get? kind = some p → (providerKey :: p.paramNames).Nodup

/-- A catalogue is coherent if every entry is: its provider is found by its own name and has
distinct parameters. -/
theorem Catalogue.coherent_of_entries {c : Catalogue}
    (h : ∀ e ∈ c.entries, c.get? e.2.typeName = some e.2 ∧ e.2.typeName ≠ "" ∧
      (providerKey :: e.2.paramNames).Nodup) : c.Coherent := by
  have hentry : ∀ {kind p}, c.get? kind = some p → ∃ e ∈ c.entries, e.2 = p := by
    intro kind p hget
    obtain ⟨e, hfind, rfl⟩ := Option.map_eq_some_iff.mp hget
    exact ⟨e, List.mem_of_find?_eq_some hfind, rfl⟩
  refine ⟨?_, ?_, ?_⟩
  · intro kind p hget
    obtain ⟨e, he, rfl⟩ := hentry hget
    exact (h e he).1
  · intro kind p hget
    obtain ⟨e, he, rfl⟩ := hentry hget
    exact (h e he).2.1
  · intro kind p hget
    obtain ⟨e, he, rfl⟩ := hentry hget
    exact (h e he).2.2

/-- The built-in providers are a coherent catalogue. -/
theorem Catalogue.coherent_standard : standard.Coherent :=
  coherent_of_entries (by decide)

namespace Given

/-- Whether what is given is data of nulls and texts, or a call in canonical form. -/
def Textual (c : Catalogue) : Given → Prop
  | .raw v => v.Textual
  | .built e => c.Canonical e ∧ ∃ provider arguments, e = .call provider arguments

/-- The items of nulls and texts are nulls and texts. -/
theorem Textual.of_mem_items {c : Catalogue} {g item : Given} (h : g.Textual c)
    (hitem : item ∈ g.items) : item.Textual c := by
  rcases eq_of_mem_items hitem with rfl | ⟨items, v, rfl, hv, rfl⟩ | ⟨rfl, -⟩
  · exact h
  · cases h with
    | list hall => exact hall v hv
  · cases h

end Given

variable {c : Catalogue} {p : Provider} {place : String} {fields : Record Given} {e : Expr}

/-- A text is built to the expression that it is. -/
theorem Catalogue.build_text (s : String) : c.build place (.text s) = .ok (.ofText s) := by
  simp [build, scalarExpr, Value.isWritable, Value.plain]

/-- Different texts are different expressions. -/
theorem Expr.ofText_injective {s t : String} (h : ofText s = ofText t) : s = t :=
  (Expr.template.inj h).1

/-- A record is built to a call, if it is built at all. -/
theorem Catalogue.exists_call_of_build_record {entries : Record Value}
    (h : c.build place (.record entries) = .ok e) :
    ∃ provider arguments, e = .call provider arguments := by
  obtain ⟨kind, -, -, hcall⟩ := build_record_eq_ok_iff.mp h
  obtain ⟨p, -, hcall⟩ := call_eq_ok_iff.mp hcall
  obtain ⟨-, arguments, rfl, -⟩ := Provider.call_eq_ok_iff.mp hcall
  exact ⟨_, _, rfl⟩

/-- Only a text is built to an expression text, as long as nothing null is given. -/
theorem Given.eq_text_of_buildGiven {g : Given} (hg : g.Textual c) (hnull : g.isNull = false)
    {s : String} (h : c.buildGiven place g = .ok (.ofText s)) : g = .raw (.text s) := by
  cases g with
  | built e =>
    obtain ⟨-, provider, arguments, rfl⟩ := hg
    cases h
  | raw v =>
    cases hg with
    | null => cases hnull
    | text t =>
      have hbuilt : Expr.ofText t = Expr.ofText s := by
        simpa [Catalogue.buildGiven, Catalogue.build_text] using h
      rw [Expr.ofText_injective hbuilt]
    | list => simp [Catalogue.buildGiven, Catalogue.build] at h
    | record =>
      obtain ⟨provider, arguments, hcall⟩ := Catalogue.exists_call_of_build_record h
      cases hcall

/-- A call with data of nulls and texts is in canonical form, if its parts are built to expressions
that are. -/
theorem Provider.canonical_call (hp : c.get? p.typeName = some p)
    (hfields : ∀ f ∈ fields, f.2.Textual c)
    (hparts : ∀ part ∈ p.parts place fields, ∀ child,
      c.buildGiven part.1 part.2 = .ok child → c.Canonical child)
    (h : p.call (c.givenParams fields) place = .ok e) : c.Canonical e := by
  obtain ⟨hadmits, arguments, rfl, hall⟩ := call_eq_ok_iff.mp h
  have hnames : arguments.map (·.1) = (p.given fields).map (·.1) := map_fst_arguments hall
  -- each argument stands for something that is given and not null
  have hgiven : ∀ a ∈ arguments, ∃ g, (a.1, g) ∈ p.given fields ∧
      a.2.isMany = p.list.contains a.1 ∧ List.Forall₂
        (fun part child => c.buildGiven part.1 part.2 = .ok child) (p.partsOf place a.1 g)
        a.2.items := by
    intro a ha
    obtain ⟨⟨name, g⟩, hg, hargument⟩ := exists_of_forall₂_right hall ha
    obtain ⟨rfl, hshape, hitems⟩ := argument_eq_ok_iff.mp hargument
    exact ⟨g, hg, hshape, hitems⟩
  refine .call hp ⟨?_, ?_, ?_, ?_⟩ ?_
  · rw [hnames, map_fst_given]
    exact List.filter_sublist
  · intro name hname
    obtain ⟨g, hget, hnull⟩ := hadmits.required name hname
    have hparam : name ∈ p.paramNames := by simp [paramNames, hname]
    rw [hnames]
    exact List.mem_map.mpr ⟨(name, g), mem_given_iff.mpr ⟨hparam, hget, hnull⟩, rfl⟩
  · intro a ha
    obtain ⟨g, -, hshape, -⟩ := hgiven a ha
    exact hshape
  · -- an expression text comes from that text only, and the provider has admitted it
    intro choice hchoice s hs
    obtain ⟨g, hg, hshape, hitems⟩ := hgiven _ hs
    obtain ⟨-, hget, hnull⟩ := mem_given_iff.mp hg
    have hlist : p.list.contains choice.1 = false := hshape.symm
    have hpart : p.partsOf place choice.1 g = [(place ++ ", " ++ choice.1, g)] := by
      rw [partsOf, hlist]
      rfl
    rw [hpart] at hitems
    have htext := Given.eq_text_of_buildGiven (hfields _ (Record.mem_of_get? hget)) hnull
      (List.forall₂_cons.mp hitems).1
    exact hadmits.allowed choice hchoice s (htext ▸ hget)
  · intro a ha child hchild
    obtain ⟨g, hg, -, hitems⟩ := hgiven a ha
    obtain ⟨part, hpart, hbuilt⟩ := exists_of_forall₂_right hitems hchild
    exact hparts part (List.mem_flatMap.mpr ⟨(a.1, g), hg, hpart⟩) child hbuilt

/-- The parts of a call with nulls and texts for fields are nulls and texts. -/
theorem Provider.textual_of_mem_parts (hfields : ∀ f ∈ fields, f.2.Textual c)
    {part : String × Given} (h : part ∈ p.parts place fields) : part.2.Textual c :=
  of_mem_parts hfields (fun _ _ hg hitem => hg.of_mem_items hitem) h

/-- What is built of data of nulls and texts is in canonical form. -/
theorem Catalogue.canonical_buildGiven (hc : c.Coherent) {g : Given} (hg : g.Textual c)
    (h : c.buildGiven place g = .ok e) : c.Canonical e := by
  -- The parts of the call that a record makes are smaller than the record.
  induction hsize : sizeOf g using Nat.strong_induction_on generalizing place g e with
  | _ n ih =>
    cases g with
    | built inner =>
      obtain rfl := Except.ok.inj h
      exact hg.1
    | raw v =>
      cases hg with
      | null =>
        obtain rfl : Expr.ofText "" = e := by simpa [buildGiven, build, scalarExpr] using h
        exact .text ""
      | text s =>
        obtain rfl : Expr.ofText s = e := by simpa [buildGiven, build_text] using h
        exact .text s
      | list => simp [buildGiven, build] at h
      | @record entries hall =>
        obtain ⟨kind, -, -, hcall⟩ := build_record_eq_ok_iff.mp h
        obtain ⟨p, hp, hcall⟩ := call_eq_ok_iff.mp hcall
        have hfields : ∀ f ∈ nestedFields entries, f.2.Textual c :=
          List.forall_mem_map.mpr fun f hf => hall f (List.mem_of_mem_filter hf)
        exact Provider.canonical_call (hc.found hp) hfields
          (fun part hpart child hbuilt => ih _ (hsize ▸ sizeOf_of_mem_parts hpart)
            (Provider.textual_of_mem_parts hfields hpart) hbuilt rfl) hcall

/-- A call with data of nulls and texts, or with calls in canonical form, is one in canonical form
itself. -/
theorem Catalogue.textual_call (hc : c.Coherent) {kind : String}
    (hfields : ∀ f ∈ fields, f.2.Textual c)
    (h : c.call kind (c.givenParams fields) place = .ok e) : (Given.built e).Textual c := by
  obtain ⟨p, hp, hcall⟩ := call_eq_ok_iff.mp h
  refine ⟨Provider.canonical_call (hc.found hp) hfields (fun part hpart child hbuilt =>
    canonical_buildGiven hc (Provider.textual_of_mem_parts hfields hpart) hbuilt) hcall, ?_⟩
  obtain ⟨-, arguments, rfl, -⟩ := Provider.call_eq_ok_iff.mp hcall
  exact ⟨_, _, rfl⟩

end VariableOrder
