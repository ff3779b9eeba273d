import VariableOrder.Proofs.Last
import VariableOrder.Proofs.Provider.Catalogue
import VariableOrder.Proofs.Schema.Lookup
import VariableOrder.Proofs.Text.SortedNames

/-!
# The discovery of providers

Providers are added one after the other, first those that are always there and then those that
plugins yield. A name stands for the last provider that has it, as its own name or as another one,
and for none if no provider has it. Plugins that fail do not count, wherever they stand.
-/

set_option autoImplicit false

namespace VariableOrder.Catalogue

/-- The provider that a plugin yields, if it does not fail. -/
def Plugin.provider? (plugin : Plugin) : Option Provider :=
  plugin.outcome.toOption

/-- All providers in the order in which they are added. -/
def providers (plugins : List Plugin) : List Provider :=
  standardProviders ++ plugins.filterMap Plugin.provider?

variable {c : Catalogue} {name : String}

/-- A provider takes over all of its names and no others. -/
theorem get?_register (c : Catalogue) (p : Provider) (name : String) :
    (c.register p).get? name = if name ∈ p.names then some p else c.get? name := by
  have hnames : ∀ (names : List String) (entries : List (String × Provider)),
      Schema.textAt? (names.foldl (fun entries other => put other p entries) entries) name =
        if name ∈ names then some p else Schema.textAt? entries name := by
    intro names
    induction names with
    | nil => exact fun _ => rfl
    | cons other rest ih =>
      intro entries
      rw [List.foldl_cons, ih, put_eq_putText, Schema.textAt?_putText]
      by_cases hother : other = name
      · simp [hother]
      · simp [hother, Ne.symm hother]
  exact hnames p.names c.entries

/-- Of the providers that are added the last one with a name counts, and what the name stood for
before only if there is none. -/
theorem get?_foldl_register (added : List Provider) (c : Catalogue) (name : String) :
    (added.foldl register c).get? name =
      (added.reverse.find? fun p => p.names.contains name).or (c.get? name) := by
  induction added generalizing c with
  | nil => rfl
  | cons p rest ih =>
    rw [List.foldl_cons, ih, get?_register, List.reverse_cons, List.find?_append, Option.or_assoc]
    by_cases hname : name ∈ p.names <;> simp [hname]

/-- Plugins that fail change nothing, and all others add their providers. -/
theorem foldl_install (plugins : List Plugin) (c : Catalogue) :
    plugins.foldl install c = (plugins.filterMap Plugin.provider?).foldl register c := by
  induction plugins generalizing c with
  | nil => rfl
  | cons plugin rest ih =>
    rw [List.foldl_cons, ih, install, List.filterMap_cons, Plugin.provider?]
    cases plugin.outcome <;> rfl

/-- Discovery registers all providers one after the other. -/
theorem discover_eq (plugins : List Plugin) :
    discover plugins = (providers plugins).foldl register ⟨[]⟩ := by
  rw [discover, foldl_install, standard, providers, List.foldl_append]

/-- The provider of a name is the last one registered that has it. -/
theorem get?_discover (plugins : List Plugin) (name : String) :
    (discover plugins).get? name =
      (providers plugins).reverse.find? fun p => p.names.contains name := by
  rw [discover_eq, get?_foldl_register]
  exact Option.or_none

/-- The names of a catalogue are those that stand for a provider. -/
theorem mem_names_iff : name ∈ c.names ↔ ∃ p, c.get? name = some p := by
  rw [← Option.isSome_iff_exists, get?, Option.isSome_map, List.find?_isSome, names,
    Text.mem_sortedNames]
  simp

/-- Whatever plugins there are, a name stands for the last of all providers that has it, and for
none if no provider has it. The names of the catalogue are those that stand for a provider, in
strictly ascending order. Plugins that yield the same providers in the same order make the same
catalogue, however many others fail before, between and behind them. -/
theorem discover_last_wins (plugins : List Plugin) :
    (∀ name p, (discover plugins).get? name = some p ↔
      IsLast (fun q => name ∈ q.names) (providers plugins) p) ∧
    (∀ name, (discover plugins).get? name = none ↔ ∀ p ∈ providers plugins, name ∉ p.names) ∧
    (discover plugins).names.Pairwise (· < ·) ∧
    (∀ name, name ∈ (discover plugins).names ↔ ∃ p, (discover plugins).get? name = some p) ∧
    ∀ others : List Plugin,
      others.filterMap Plugin.provider? = plugins.filterMap Plugin.provider? →
        discover others = discover plugins := by
  have htest : ∀ (name : String) (p : Provider), p.names.contains name = true ↔ name ∈ p.names :=
    fun _ _ => List.contains_iff_mem
  refine ⟨?_, ?_, Text.pairwise_sortedNames _, fun _ => mem_names_iff, ?_⟩
  · intro name p
    rw [get?_discover]
    exact find?_reverse_eq_some_iff (htest name)
  · intro name
    rw [get?_discover]
    exact find?_reverse_eq_none_iff (htest name)
  · intro others hsame
    rw [discover_eq, discover_eq, providers, providers, hsame]

/-- A plugin takes the other name of a standard provider, which keeps its own name, and loses its
own name to a later plugin; a plugin that fails between them does not count. -/
theorem discover_last_wins_clash :
    let ldap : Provider := ⟨"ldap", ["env", "ldap"], ["url"], [], [], []⟩
    let later : Provider := ⟨"tree", ["ldap"], [], ["root"], [], []⟩
    let plugins : List Plugin := [⟨"first", .ok ldap⟩, ⟨"broken", .error "no module"⟩,
      ⟨"second", .ok later⟩]
    (discover plugins).get? "env" = some ldap ∧ (discover plugins).get? "ldap" = some later ∧
      (∃ p, (discover plugins).get? "environment" = some p ∧ p ∈ standardProviders) ∧
      (discover plugins).get? "broken" = none ∧ "tree" ∈ (discover plugins).names ∧
      discover [⟨"first", .ok ldap⟩, ⟨"second", .ok later⟩] = discover plugins := by
  intro ldap later plugins
  obtain ⟨hget, hnone, -, hmem, hsame⟩ := discover_last_wins plugins
  have htree : (discover plugins).get? "tree" = some later :=
    (hget _ _).mpr ⟨by decide, standardProviders ++ [ldap], [], rfl, by decide⟩
  refine ⟨(hget _ _).mpr ⟨by decide, standardProviders, [later], rfl, by decide⟩,
    (hget _ _).mpr ⟨by decide, standardProviders ++ [ldap], [], rfl, by decide⟩, ?_,
    (hnone _).mpr (by decide), (hmem _).mpr ⟨later, htree⟩, hsame _ rfl⟩
  refine ⟨standardProviders[1], (hget _ _).mpr ⟨by decide, standardProviders.take 1,
    standardProviders.drop 2 ++ [ldap, later], rfl, by decide⟩, by decide⟩

end VariableOrder.Catalogue
