import VariableOrder.Proofs.Definition.Load
import VariableOrder.Proofs.Provider.Argument
import VariableOrder.Proofs.Provider.Catalogue
import VariableOrder.Proofs.Schema.Lookup

/-!
# Filters

The filters of an entry are wrapped around the call of its provider one after the other. Each
filter is a call of its own: its input is what the filters in front of it came to, and every other
parameter that is given to it and not null is an argument, built from what was given last under its
name.
-/

set_option autoImplicit false

namespace VariableOrder

open Data (Value Record)

/-- The members of what counts as a list. -/
def Data.Value.members : Value → List Value
  | .list items => items
  | .collection items => items
  | .pair first second => [first, second]
  | _ => []

/-- The filters that an entry is given, in order. -/
def DynamicEntry.givenFilters (entries : Record Value) : List Value :=
  match entries.get? "filters" with
  | some v => v.members
  | none => []

namespace Catalogue

/-- One filter around an expression. Its record names one type, under which its parameters stand;
the expression is the input of the call, and every other parameter that is not null has an argument
that is built from it. -/
inductive Wraps (c : Catalogue) (place : String) : Value → Expr → Expr → Prop where
  | call {fields parameters : Record Value} {type : String} {p : Provider} {inner : Expr}
      {arguments : List (String × Argument)}
      (htype : ∀ name v, Schema.lookup? fields name = some v ↔
        name = type ∧ v = .record parameters)
      (hprovider : c.get? (filterKind type) = some p)
      (hkind : p.typeName = filterKind type ∨
        p ∉ standardProviders ∧ filterKind type ∈ p.aliases)
      (hinput : ∃ a, (filterInput, a) ∈ arguments ∧ a.items = [inner])
      (hgiven : ∀ name v, name ≠ filterInput → Schema.lookup? parameters name = some v →
        v.isNull = false → ∃ a, (name, a) ∈ arguments ∧
          p.argument place (name, c.givenParam (.raw v)) = .ok (name, a))
      (honly : ∀ a ∈ arguments, a.1 = filterInput ∨
        ∃ v, Schema.lookup? parameters a.1 = some v ∧ v.isNull = false) :
      Wraps c place (.record fields) inner (.call p.typeName arguments)

/-- Filters around an expression, each around what the ones in front of it come to. -/
inductive Filtered (c : Catalogue) (place : String) (first : Expr) : List Value → Expr → Prop where
  | none : Filtered c place first [] first
  | more {before : List Value} {filter : Value} {inner outer : Expr}
      (hinner : Filtered c place first before inner) (hfilter : c.Wraps place filter inner outer) :
      Filtered c place first (before ++ [filter]) outer

variable {c : Catalogue} {place : String}

/-- An argument for an expression that is built already holds that expression. -/
theorem items_of_built {p : Provider} {name : String} {e : Expr} {items : List Expr}
    (h : List.Forall₂ (fun part item => c.buildGiven part.1 part.2 = .ok item)
      (p.partsOf place name (.built e)) items) : items = [e] := by
  have hparts : ∃ here, p.partsOf place name (.built e) = [(here, .built e)] := by
    unfold Provider.partsOf
    split_ifs
    · exact ⟨_, rfl⟩
    · exact ⟨_, rfl⟩
  obtain ⟨here, hpart⟩ := hparts
  rw [hpart] at h
  cases h with
  | cons hfirst hrest =>
    cases hrest
    rw [Except.ok.inj hfirst]

/-- A filter that is accepted is wrapped around the expression. -/
theorem wraps_of_filter (hc : c.Named) {v : Value} {filter : List (String × Record Value)}
    (hfilter : Schema.checkRecord Schema.checkFields v = .ok filter) {inner outer : Expr}
    (h : c.filter inner filter place = .ok outer) : c.Wraps place v inner outer := by
  obtain ⟨fields, rfl, htypes⟩ := Schema.lookup?_of_checkRecord hfilter
  match filter, htypes, h with
  | [(type, known)], htypes, h =>
    rw [filter_eq] at h
    obtain ⟨p, hp, hcall⟩ := call_eq_ok_iff.mp h
    obtain ⟨hadmits, arguments, rfl, harguments⟩ := Provider.call_eq_ok_iff.mp hcall
    obtain ⟨content, hcontent, htype⟩ := Schema.exists_lookup?_eq_some_iff htypes
    obtain ⟨parameters, rfl, hlookup⟩ := Schema.get?_of_checkFields hcontent
    -- whatever a parameter finds, and is not null, has an argument
    have hargument : ∀ name g, (filterFields inner known).get? name = some g → g.isNull = false →
        ∃ a, (name, a) ∈ arguments ∧ p.argument place (name, c.givenParam g) = .ok (name, a) := by
      intro name g hget hnull
      obtain ⟨other, hparam, hkey⟩ := hadmits.named _ (Record.mem_of_get? hget)
      obtain rfl := Value.text.inj hkey
      have hgiven : (name, g) ∈ p.given (filterFields inner known) :=
        Provider.mem_given_iff.mpr ⟨hparam, hget, hnull⟩
      obtain ⟨⟨_, a⟩, ha, hbuilt⟩ := exists_of_forall₂_left harguments hgiven
      obtain rfl := (Provider.argument_eq_ok_iff.mp hbuilt).1
      exact ⟨a, ha, hbuilt⟩
    have hget : ∀ name, name ≠ filterInput → (filterFields inner known).get? name =
        (Schema.lookup? parameters name).map .raw := by
      intro name hne
      rw [filterFields, Record.get?_put, if_neg hne, get?_rawFields, hlookup]
    refine .call htype hp ?_ ?_ ?_ ?_
    · rcases List.mem_cons.mp (hc.mem_names hp) with hname | halias
      · exact .inl hname.symm
      · exact .inr ⟨fun hstandard => filterKind_not_mem_aliases hstandard type halias, halias⟩
    · have hinput : (filterFields inner known).get? filterInput = some (.built inner) := by
        rw [filterFields, Record.get?_put, if_pos rfl]
      obtain ⟨a, ha, hbuilt⟩ := hargument _ _ hinput rfl
      obtain ⟨-, -, hitems⟩ := Provider.argument_eq_ok_iff.mp hbuilt
      exact ⟨a, ha, items_of_built hitems⟩
    · intro name v hne hv hnull
      apply hargument name (.raw v) ?_ hnull
      rw [hget name hne, hv]
      rfl
    · intro a ha
      obtain ⟨⟨name, g⟩, hg, hbuilt⟩ := exists_of_forall₂_right harguments ha
      obtain ⟨-, hfound, hnull⟩ := Provider.mem_given_iff.mp hg
      rw [(Provider.argument_eq_ok_iff.mp hbuilt).1]
      by_cases hinput : name = filterInput
      · exact .inl hinput
      · rw [hget name hinput] at hfound
        obtain ⟨v, hv, rfl⟩ := Option.map_eq_some_iff.mp hfound
        exact .inr ⟨v, hv, hnull⟩
  | [], _, h => cases h
  | _ :: _ :: _, _, h => cases h

/-- A chain of filters may begin with one more. -/
theorem Filtered.head {filters : List Value} {filter : Value} {first second outer : Expr}
    (hfilter : c.Wraps place filter first second) (h : c.Filtered place second filters outer) :
    c.Filtered place first (filter :: filters) outer := by
  induction h with
  | none => exact .more .none hfilter
  | more _ hlast ih => exact .more ih hlast

/-- Filters that are accepted are wrapped around an expression one after the other. -/
theorem filtered_of_foldlM (hc : c.Named) {values : List Value}
    {filters : List (List (String × Record Value))}
    (hfilters : List.Forall₂ (fun v filter =>
      Schema.checkRecord Schema.checkFields v = .ok filter) values filters)
    {first outer : Expr}
    (h : filters.foldlM (fun inner filter => c.filter inner filter place) first = .ok outer) :
    c.Filtered place first values outer := by
  induction hfilters generalizing first with
  | nil =>
    obtain rfl := Except.ok.inj h
    exact .none
  | @cons v filter values filters hfirst _ ih =>
    rw [List.foldlM_cons] at h
    obtain ⟨second, hsecond, hrest⟩ := bind_eq_ok_iff.mp h
    exact .head (wraps_of_filter hc hfirst hsecond) (ih hrest)

end Catalogue

namespace DynamicEntry

/-- What an entry gives as its filters is understood item by item. -/
theorem forall₂_givenFilters {entries : Record Value} {e : DynamicEntry}
    (h : ofFields entries = .ok e) :
    List.Forall₂ (fun v filter => Schema.checkRecord Schema.checkFields v = .ok filter)
      (givenFilters entries) e.filters := by
  obtain ⟨-, -, -, -, -, -, -, hfilters, -⟩ := ofFields_eq_ok_iff.mp h
  unfold givenFilters
  rcases Schema.defaulted_eq_ok_iff.mp hfilters with ⟨v, hv, hlist⟩ | ⟨hnone, hfilters⟩
  · rw [hv]
    apply Schema.checkItems_eq_ok_iff.mp
    cases v <;> first | exact hlist | cases hlist
  · rw [hnone, ← hfilters]
    exact .nil

/-- The expression of an accepted entry is the call of its provider with the filters that the entry
gives around it. -/
theorem filtered_of_expression {c : Catalogue} (hc : c.Named) {entries : Record Value}
    {e : DynamicEntry} (haccepted : ofFields entries = .ok e) {value : Expr}
    (h : e.expression c = .ok value) :
    let place := EntryKind.dynamic.context e.name
    ∃ first, c.call e.kind (c.params e.providerParameters) place = .ok first ∧
      c.Filtered place first (givenFilters entries) value := by
  obtain ⟨first, hfirst, hfilters⟩ := bind_eq_ok_iff.mp h
  exact ⟨first, hfirst,
    Catalogue.filtered_of_foldlM hc (forall₂_givenFilters haccepted) hfilters⟩

/-- The value of an accepted entry is the call of its provider with the filters that the entry gives
around it. -/
theorem filtered_of_read (plugins : List Catalogue.Plugin) {position : Nat}
    {entries : Record Value} {name : String} {candidate : Candidate}
    (h : read (Catalogue.discover plugins) position entries = .ok (name, candidate)) :
    let c := Catalogue.discover plugins
    let place := EntryKind.dynamic.context name
    ∃ e first, ofFields entries = .ok e ∧
      c.call e.kind (c.params e.providerParameters) place = .ok first ∧
      c.Filtered place first (givenFilters entries) candidate.value := by
  intro c place
  obtain ⟨e, haccepted, hname, hcandidate⟩ := EntryKind.read_dynamic_eq_ok_iff.mp h
  obtain rfl : e.name = name := hname
  obtain ⟨first, hfirst, hfiltered⟩ := filtered_of_expression (Catalogue.named_discover plugins)
    haccepted (expression_of_candidate hcandidate)
  exact ⟨e, first, haccepted, hfirst, hfiltered⟩

/-- A text is filtered by a pattern, and what comes out of that by a directory. -/
theorem filtered_of_read_two :
    let entries : Record Value := [(.text "name", .text "x"), (.text "value", .text "v"),
      (.text "filters", .list [.record [(.text "regex", .record [(.text "regexp", .text "a"),
        (.text "select", .null)])], .record [(.text "location", .record [(.text "basedir",
        .record [(.text "provider", .text "environment"), (.text "name", .text "HOME")])])]])]
    let c := Catalogue.discover []
    let place := EntryKind.dynamic.context "x"
    ∃ candidate, read c 0 entries = .ok ("x", candidate) ∧
      ∃ e first, ofFields entries = .ok e ∧
        c.call e.kind (c.params e.providerParameters) place = .ok first ∧
        c.Filtered place first (givenFilters entries) candidate.value := by
  intro entries c place
  have hread : ∃ candidate, read c 0 entries = .ok ("x", candidate) := ⟨_, rfl⟩
  obtain ⟨candidate, hread⟩ := hread
  exact ⟨candidate, hread, filtered_of_read [] hread⟩

/-- The input that a filter is given is dropped without a message. -/
theorem read_drops_input :
    let entries : Record Value := [(.text "name", .text "x"), (.text "value", .text "v"),
      (.text "filters", .list [.record [(.text "regex", .record [(.text "regexp", .text "a"),
        (.text "input", .text "mine")])]])]
    let arguments := [("input", Argument.single (.call "value" [("value", .single (.ofText "v"))])),
      ("regexp", .single (.ofText "a"))]
    (read .standard 0 entries).map (fun a => a.2.value) = .ok (.call "filter.regex" arguments) ∧
      Catalogue.standard.build "Dynamic variable 'x', input" (.text "mine") =
        .ok (.ofText "mine") ∧
      ∀ a ∈ arguments, .ofText "mine" ∉ a.2.items := by
  refine ⟨rfl, rfl, ?_⟩
  simp [Argument.items, Expr.ofText]

end DynamicEntry

end VariableOrder
