import VariableOrder.Proofs.Definition.Accepted

/-!
# Tidy data

Data is tidy when every record in it has texts for keys and no collection for the name of its
provider. Whatever else is wrong with a file of tidy plain data, loading it does not break off: what
building leads to stays tidy, and nothing that is tidy is broken.
-/

set_option autoImplicit false

namespace VariableOrder

open Data (Value Record)

/-- Whether every record in a value has texts for keys and no collection for the name of its
provider. -/
inductive Data.Value.Tidy : Value → Prop where
  | scalar {v : Value} (h : v.isKey = true) : Tidy v
  | pair (first second : Value) : Tidy (.pair first second)
  | list {items : List Value} (h : ∀ v ∈ items, Tidy v) : Tidy (.list items)
  | record {entries : Record Value} (hkeys : ∀ e ∈ entries, ∃ s, e.1 = .text s)
      (hprovider : ∀ v, entries.get? Catalogue.providerKey = some v → v.isKey = true)
      (h : ∀ e ∈ entries, Tidy e.2) : Tidy (.record entries)

namespace Given

/-- Whether what is given is a tidy value or an expression. -/
def Tidy : Given → Prop
  | .raw v => v.Tidy
  | .built _ => True

/-- The items of something tidy are tidy. -/
theorem Tidy.of_mem_items {g item : Given} (h : g.Tidy) (hitem : item ∈ g.items) : item.Tidy := by
  rcases eq_of_mem_items hitem with rfl | ⟨items, v, rfl, hv, rfl⟩ | ⟨rfl, -⟩
  · exact h
  · cases h with
    | scalar hkey => cases hkey
    | list hall => exact hall v hv
  · cases h with
    | scalar hkey => cases hkey

/-- The parts of a call with tidy fields are tidy. -/
theorem tidy_of_mem_parts {p : Provider} {place : String} {fields : Record Given}
    (h : ∀ f ∈ fields, f.2.Tidy) {part : String × Given} (hpart : part ∈ p.parts place fields) :
    part.2.Tidy :=
  Provider.of_mem_parts h (fun _ _ hg hitem => hg.of_mem_items hitem) hpart

end Given

/-- The fields of a tidy record are tidy. -/
theorem tidy_fields {entries : Record Value} (h : (Value.record entries).Tidy) :
    ∀ e ∈ entries, e.2.Tidy := by
  cases h with
  | scalar hkey => cases hkey
  | record _ _ hall => exact hall

namespace Catalogue

variable {c : Catalogue}

/-- One step: what a tidy value leads to is tidy. -/
theorem Leads.tidy {whole part : String × Given} (h : c.Leads whole part) (htidy : whole.2.Tidy) :
    part.2.Tidy := by
  obtain ⟨entries, kind, hwhole, -, -, p, -, -, hcomes⟩ := h
  rw [hwhole] at htidy
  have hfields : ∀ e ∈ Record.without entries providerKey, e.2.Tidy :=
    fun e he => tidy_fields htidy e (List.mem_of_mem_filter he)
  exact Given.tidy_of_mem_parts (List.forall_mem_map.mpr hfields) hcomes.mem

/-- All that a tidy value leads to is tidy. -/
theorem tidy_of_leads {whole s : String × Given} (h : Relation.ReflTransGen c.Leads whole s)
    (htidy : whole.2.Tidy) : s.2.Tidy := by
  induction h with
  | refl => exact htidy
  | tail _ hleads ih => exact hleads.tidy ih

/-- Building does not break off at something tidy. -/
theorem not_broken_of_tidy {g : Given} (h : g.Tidy) : ¬ c.Broken g := by
  intro hbroken
  cases hbroken with
  | provider hkind _ hkey =>
    cases h with
    | scalar hscalar => cases hscalar
    | record _ hprovider _ =>
      rw [hprovider _ hkind] at hkey
      cases hkey
  | names hkind _ hnames =>
    cases h with
    | scalar hscalar => cases hscalar
    | record hkeys _ _ =>
      obtain ⟨-, f, hf, hname⟩ := hnames
      obtain ⟨e, he, rfl⟩ := List.mem_map.mp hf
      obtain ⟨s, hs⟩ := hkeys e (List.mem_of_mem_filter he)
      exact hname s hs
  | endless =>
    cases h with
    | scalar hscalar => cases hscalar

end Catalogue

/-- All that an accepted entry of tidy plain data leads to is tidy. -/
theorem EntryKind.Reaches.tidy {c : Catalogue} {kind : EntryKind} {entry : Record Value}
    {s : String × Given} (hentry : (Value.record entry).Simple) (htidy : ∀ f ∈ entry, f.2.Tidy)
    (h : kind.Reaches c entry s) : s.2.Tidy := by
  cases h with
  | @static e haccepted hway =>
    refine Catalogue.tidy_of_leads hway ?_
    obtain ⟨-, hvalue, -, -⟩ := StaticEntry.ofFields_eq_ok_iff.mp haccepted
    rcases Schema.defaulted_eq_ok_iff.mp hvalue with ⟨v, hget, hv⟩ | ⟨-, hv⟩
    · obtain rfl := Except.ok.inj hv
      exact htidy _ (Record.mem_of_get? hget)
    · change e.value.Tidy
      rw [← hv]
      exact .scalar rfl
  | @dynamic e haccepted hreaches =>
    obtain ⟨provider, fields, part, hcalls, ⟨p, -, -, hcomes⟩, hway⟩ := hreaches
    refine Catalogue.tidy_of_leads hway (Given.tidy_of_mem_parts ?_ hcomes.mem)
    cases hcalls with
    | provider =>
      refine List.forall_mem_map.mpr fun f hf => ?_
      exact htidy f (DynamicEntry.mem_of_mem_providerParameters haccepted hf).1
    | @filter before after type parameters inner hfilters hinner =>
      have hparameters : FilterParameters entry parameters := by
        rw [← DynamicEntry.exists_mem_filters_iff hentry haccepted]
        exact ⟨[(type, parameters)], by simp [hfilters], _, List.mem_singleton_self _, rfl⟩
      have hall : ∀ f ∈ parameters, f.2.Tidy := by
        obtain ⟨filters, types, key, hget, hitem, hmem⟩ := hparameters
        cases htidy _ (Record.mem_of_get? hget) with
        | scalar hkey => cases hkey
        | list hitems => exact tidy_fields (tidy_fields (hitems _ hitem) _ hmem)
      -- the input of the filter is built already, all else stands in the entry
      exact Catalogue.forall_mem_filterFields (P := Given.Tidy) trivial hall

/-- Loading a file of plain data does not break off if what its entries hold is tidy. -/
theorem Definition.not_breaksOff_of_tidy (c : Catalogue) {raw : Record Value}
    (hraw : (Value.record raw).Simple)
    (htidy : ∀ kind entry, Lists raw kind entry → ∀ f ∈ entry, f.2.Tidy) :
    ¬ BreaksOff c raw := by
  rintro ⟨layout, hlayout, kind, entry, hentry, s, hreaches, hbroken⟩
  have hlists := (Layout.mem_entries_iff hraw hlayout kind entry).mp hentry
  have hs := hreaches.tidy (Lists.simple hraw hlists) (htidy kind entry hlists)
  exact Catalogue.not_broken_of_tidy hs hbroken

end VariableOrder
