import VariableOrder.Proofs.Schema.Collection
import VariableOrder.Provider.Call

/-!
# Names in a catalogue

Whatever plugins are installed, every name in the catalogue stands for a provider that has it, as
its own name or as another one. None of the providers that are always there has the name of a filter
as another name, so a filter is called by its own name unless it comes from a plugin.
-/

set_option autoImplicit false

namespace VariableOrder.Catalogue

/-- Whether every name stands for a provider that has it. -/
def Named (c : Catalogue) : Prop :=
  ∀ e ∈ c.entries, e.1 ∈ e.2.names

/-- A name is put into a catalogue as a text is put into a record. -/
theorem put_eq_putText (name : String) (p : Provider) (entries : List (String × Provider)) :
    put name p entries = Schema.putText name p entries := by
  induction entries with
  | nil => rfl
  | cons first rest ih =>
    rw [put, Schema.putText, ih]

/-- Registering a provider keeps every provider under its own names. -/
theorem Named.register {c : Catalogue} (h : c.Named) (p : Provider) : (c.register p).Named := by
  have hnames : ∀ (names : List String) (entries : List (String × Provider)),
      (∀ name ∈ names, name ∈ p.names) → (∀ e ∈ entries, e.1 ∈ e.2.names) →
        ∀ e ∈ names.foldl (fun entries name => put name p entries) entries, e.1 ∈ e.2.names := by
    intro names
    induction names with
    | nil => exact fun _ _ hentries => hentries
    | cons name rest ih =>
      intro entries hall hentries
      obtain ⟨hname, hrest⟩ := List.forall_mem_cons.mp hall
      apply ih _ hrest
      intro e he
      simp only [put_eq_putText] at he
      rcases Schema.mem_putText he with rfl | he
      · exact hname
      · exact hentries e he
  exact hnames p.names c.entries (fun _ hname => hname) h

/-- Installing a plugin keeps every provider under its own names. -/
theorem Named.install {c : Catalogue} (h : c.Named) (plugin : Plugin) :
    (c.install plugin).Named := by
  unfold Catalogue.install
  cases plugin.outcome with
  | error reason => exact h
  | ok p => exact h.register p

/-- The built-in providers stand under their own names. -/
theorem named_standard : standard.Named := by
  unfold Named
  decide

/-- The names of all providers that a program knows of are names that they have. -/
theorem named_discover (plugins : List Plugin) : (discover plugins).Named := by
  have hall : ∀ c : Catalogue, c.Named → (plugins.foldl install c).Named := by
    induction plugins with
    | nil => exact fun _ h => h
    | cons plugin rest ih => exact fun c h => ih _ (h.install plugin)
  exact hall standard named_standard

/-- A provider is found under its own names only. -/
theorem Named.mem_names {c : Catalogue} (h : c.Named) {name : String} {p : Provider}
    (hp : c.get? name = some p) : name ∈ p.names := by
  obtain ⟨⟨other, q⟩, hfind, rfl⟩ := Option.map_eq_some_iff.mp hp
  have hname : other = name := by simpa using List.find?_some hfind
  exact hname ▸ h _ (List.mem_of_find?_eq_some hfind)

/-- What is found in the standard catalogue is a built-in provider. -/
theorem mem_standardProviders {name : String} {p : Provider} (hp : standard.get? name = some p) :
    p ∈ standardProviders := by
  have hall : ∀ e ∈ standard.entries, e.2 ∈ standardProviders := by decide
  obtain ⟨e, hfind, rfl⟩ := Option.map_eq_some_iff.mp hp
  exact hall e (List.mem_of_find?_eq_some hfind)

/-- The kind of a filter starts with the letter that the word filter does. -/
theorem head?_filterKind (type : String) : (filterKind type).toList.head? = some 'f' := by
  rw [filterKind, String.toList_append]
  rfl

/-- A standard provider has the name of a filter only as its own name. -/
theorem filterKind_not_mem_aliases {p : Provider} (hp : p ∈ standardProviders) (type : String) :
    filterKind type ∉ p.aliases := by
  have hfirst : ∀ p ∈ standardProviders, ∀ name ∈ p.aliases, name.toList.head? ≠ some 'f' := by
    decide
  exact fun hname => hfirst p hp _ hname (head?_filterKind type)

end VariableOrder.Catalogue
