import VariableOrder.Proofs.Definition.Arrangement
import VariableOrder.Proofs.Definition.Grouping
import VariableOrder.Proofs.Definition.Mention

/-!
# Accepted definition files

A definition file of plain data whose definitions can be used lists entries that are all accepted.
Each of them has become a candidate of the definition of its name, and no definition has any other
candidate.
-/

set_option autoImplicit false

namespace VariableOrder

open Data (Value Record)

/-- Whether a definition file lists an entry under the part for its kind. -/
def Lists (raw : Record Value) (kind : EntryKind) (entry : Record Value) : Prop :=
  ∃ items, raw.get? kind.part = some (.list items) ∧ .record entry ∈ items

/-- The entries that plain data lists are plain data. -/
theorem Lists.simple {raw entry : Record Value} {kind : EntryKind}
    (hraw : (Value.record raw).Simple) (h : Lists raw kind entry) :
    (Value.record entry).Simple := by
  obtain ⟨items, hget, hitem⟩ := h
  cases simple_of_get? hraw hget with
  | list hitems => exact hitems _ hitem

namespace Layout

/-- The entries of a layout are what is accepted in the part for their kind, where a null part is
missing. -/
theorem entries_of_ofFields {raw : Record Value} {layout : Layout} (h : ofFields raw = .ok layout)
    (kind : EntryKind) :
    Schema.defaulted (raw.filter fun e => !e.2.isNull) kind.part []
      (Schema.checkList Schema.checkFields) = .ok (layout.entries kind) := by
  unfold ofFields at h
  dsimp only at h
  split at h
  · obtain rfl := Except.ok.inj h
    cases kind <;> assumption
  · cases h

/-- The entries of a kind are those that the file lists. -/
theorem mem_entries_iff {raw : Record Value} {layout : Layout} (hraw : (Value.record raw).Simple)
    (h : ofFields raw = .ok layout) (kind : EntryKind) (entry : Record Value) :
    entry ∈ layout.entries kind ↔ Lists raw kind entry := by
  have hdistinct := distinct_of_simple hraw
  have hget : ∀ v, Record.get? (raw.filter fun e => !e.2.isNull) kind.part = some v ↔
      raw.get? kind.part = some v ∧ v.isNull = false := by
    intro v
    rw [(hdistinct.filter _).get?_eq_some_iff, hdistinct.get?_eq_some_iff, List.mem_filter]
    simp
  rcases Schema.defaulted_eq_ok_iff.mp (entries_of_ofFields h kind) with
    ⟨v, hv, hlist⟩ | ⟨hnone, hl⟩
  · obtain ⟨hraw', -⟩ := (hget v).mp hv
    have hsimple := simple_of_get? hraw hraw'
    obtain ⟨items, rfl, hall⟩ := Schema.eq_list_of_checkList hsimple hlist
    cases hsimple with
    | list hitems =>
      constructor
      · intro hmem
        obtain ⟨item, hitem, hfields⟩ := exists_of_forall₂_right hall hmem
        obtain rfl := Schema.eq_record_of_checkFields (hitems item hitem) hfields
        exact ⟨items, hraw', hitem⟩
      · rintro ⟨others, hothers, hitem⟩
        obtain rfl := Value.list.inj (Option.some.inj (hraw'.symm.trans hothers))
        obtain ⟨fields, hmem, hfields⟩ := exists_of_forall₂_left hall hitem
        have heq := Schema.eq_record_of_checkFields (hitems _ hitem) hfields
        rwa [Value.record.inj heq]
  · rw [← hl]
    refine iff_of_false List.not_mem_nil ?_
    rintro ⟨items, hsome, -⟩
    cases hnone.symm.trans ((hget _).mpr ⟨hsome, rfl⟩)

end Layout

namespace Definition

section Definitions

variable {statics dynamics : List (String × Candidate)}

/-- The definitions have exactly the given candidates, each under its name. -/
theorem exists_candidate_iff {name : String} {c : Candidate} :
    (∃ d ∈ ofStatic statics ++ ofDynamic statics.length dynamics, d.name = name ∧
      c ∈ d.candidates) ↔ (name, c) ∈ statics ∨ (name, c) ∈ dynamics := by
  have hstatic := exists_mem_zipIdx_map_iff (l := statics)
    (g := fun a i => (⟨a.1, [a.2], true, i⟩ : Definition))
    (P := fun d => d.name = name ∧ c ∈ d.candidates) (Q := fun a => a = (name, c))
    (by simp [Prod.ext_iff, eq_comm])
  have hdynamic := exists_mem_zipIdx_map_iff (l := grouped dynamics)
    (g := fun a i => (⟨a.1, a.2, false, (statics.length + i : Nat)⟩ : Definition))
    (P := fun d => d.name = name ∧ c ∈ d.candidates) (Q := fun a => a.1 = name ∧ c ∈ a.2)
    (fun _ _ => Iff.rfl)
  rw [← mem_grouped_iff dynamics]
  simp only [List.mem_append, or_and_right, exists_or]
  refine or_congr (hstatic.trans ?_) (hdynamic.trans ?_)
  · simp
  · simp

/-- The names of the listed definitions are those of the accepted entries. -/
theorem mem_names_iff {name : String} :
    name ∈ (ofStatic statics ++ ofDynamic statics.length dynamics).map (·.name) ↔
      name ∈ statics.map (·.1) ∨ name ∈ dynamics.map (·.1) := by
  have hstatic : (ofStatic statics).map (·.name) = statics.map (·.1) :=
    map_ofStatic (fun name _ _ => name) statics
  have hdynamic : (ofDynamic statics.length dynamics).map (·.name) = (grouped dynamics).map (·.1) :=
    map_ofDynamic (fun name _ _ => name) statics.length dynamics
  rw [List.map_append, List.mem_append, hstatic, hdynamic, mem_map_grouped_iff]

end Definitions

/-- Outcomes without a message are all accepted. -/
theorem map_ok_of_filterMap_text? {α : Type} {outcomes : List (Except Refusal α)}
    (h : outcomes.filterMap Refusal.text? = []) :
    outcomes = (outcomes.filterMap Except.toOption).map .ok := by
  induction outcomes with
  | nil => rfl
  | cons first rest ih =>
    cases first with
    | error r => simp [Refusal.text?] at h
    | ok a =>
      have hrest := ih (by simpa [Refusal.text?] using h)
      have hfirst : (Except.ok a : Except Refusal α).toOption = some a := rfl
      rw [List.filterMap_cons_some hfirst, List.map_cons, ← hrest]

/-- Definitions that can be used are those of entries that are all accepted. -/
theorem exists_reads_of_definitions? {c : Catalogue} {earlier : List String} {raw : Record Value}
    {ds : Definitions} (h : (load c earlier raw).definitions? = .ok ds) :
    ∃ layout, Layout.ofFields raw = .ok layout ∧ ∃ entries : EntryKind → List (String × Candidate),
      (∀ kind, reads c layout kind = (entries kind).map .ok) ∧ ds.definitions =
        ofStatic (entries .static) ++ ofDynamic (entries .static).length (entries .dynamic) := by
  have hoff : ¬ BreaksOff c raw := by
    rw [← load_fault_iff earlier]
    rintro ⟨f, hf⟩
    rw [Loading.definitions?, hf] at h
    cases h
  rw [load_eq hoff, Loading.definitions?] at h
  dsimp only at h
  split_ifs at h with hmessages
  have hrefusals : refusals c raw = [] :=
    (List.append_eq_nil_iff.mp (List.isEmpty_iff.mp hmessages)).2
  unfold refusals at hrefusals
  cases hlayout : Layout.ofFields raw with
  | error findings => simp [hlayout] at hrefusals
  | ok layout =>
    rw [hlayout] at h hrefusals
    obtain rfl := Except.ok.inj h
    dsimp only at hrefusals
    rw [List.filterMap_append, List.append_eq_nil_iff] at hrefusals
    refine ⟨layout, rfl, fun kind => (reads c layout kind).filterMap Except.toOption, ?_, rfl⟩
    intro kind
    cases kind with
    | static => exact map_ok_of_filterMap_text? hrefusals.1
    | dynamic => exact map_ok_of_filterMap_text? hrefusals.2

end Definition

namespace EntryKind

/-- An accepted entry of plain data yields its name and a candidate that refers to what it
mentions. -/
theorem yields_of_read {c : Catalogue} {kind : EntryKind} {position : Nat} {entry : Record Value}
    {a : String × Candidate} (hentry : (Value.record entry).Simple)
    (h : kind.read c position entry = .ok a) : kind.Yields entry a.1 a.2 := by
  cases kind with
  | static =>
    obtain ⟨e, haccepted, hname, hcandidate⟩ := read_static_eq_ok_iff.mp h
    exact hname ▸ StaticEntry.yields_of_candidate hentry haccepted hcandidate
  | dynamic =>
    obtain ⟨e, haccepted, hname, hcandidate⟩ := read_dynamic_eq_ok_iff.mp h
    exact hname ▸ DynamicEntry.yields_of_candidate hentry haccepted hcandidate

end EntryKind

/-- The entries that a file lists and what was read of them correspond to each other. -/
theorem forall₂_yields {c : Catalogue} {raw : Record Value} {layout : Layout} {kind : EntryKind}
    {entries : List (String × Candidate)} (hraw : (Value.record raw).Simple)
    (hlayout : Layout.ofFields raw = .ok layout)
    (h : Definition.reads c layout kind = entries.map .ok) :
    List.Forall₂ (fun entry a => kind.Yields entry a.1 a.2) (layout.entries kind) entries := by
  rw [Definition.reads, ← List.forall₂_eq_eq_eq, List.forall₂_map_left_iff,
    List.forall₂_map_right_iff] at h
  rw [← List.zipIdx_map_fst 0 (layout.entries kind), List.forall₂_map_left_iff]
  refine forall₂_imp_of_mem h ?_
  rintro ⟨entry, i⟩ hmem a hread
  have hlists := (Layout.mem_entries_iff hraw hlayout kind entry).mp
    (List.fst_mem_of_mem_zipIdx hmem)
  exact EntryKind.yields_of_read (Lists.simple hraw hlists) hread

/-- Definitions have the names that the listed entries give, and refer to what these mention. -/
structure Reflects (raw : Record Value) (definitions : List Definition) : Prop where
  mem_names_iff : ∀ name, name ∈ definitions.map (·.name) ↔
    ∃ kind entry, Lists raw kind entry ∧ Names entry name
  refersTo_iff : ∀ name other, (∃ d ∈ definitions, d.name = name ∧ d.RefersTo other) ↔
    ∃ kind entry, Lists raw kind entry ∧ Names entry name ∧ kind.Mentions other entry
  wellFormed : ∀ d ∈ definitions, d.WellFormed

/-- Definitions that can be used reflect the entries that a file of plain data lists. -/
theorem reflects_of_definitions? {c : Catalogue} {earlier : List String} {raw : Record Value}
    {ds : Definitions} (hraw : (Value.record raw).Simple)
    (h : (Definition.load c earlier raw).definitions? = .ok ds) :
    Reflects raw ds.definitions := by
  obtain ⟨layout, hlayout, entries, hreads, hds⟩ := Definition.exists_reads_of_definitions? h
  have hyields := fun kind => forall₂_yields hraw hlayout (hreads kind)
  have hlists := Layout.mem_entries_iff hraw hlayout
  have hcandidate : ∀ name candidate, (∃ d ∈ ds.definitions, d.name = name ∧
      candidate ∈ d.candidates) ↔ ∃ kind, (name, candidate) ∈ entries kind := by
    intro name candidate
    rw [hds, Definition.exists_candidate_iff]
    exact ⟨fun h => h.elim (⟨.static, ·⟩) (⟨.dynamic, ·⟩),
      fun ⟨kind, h⟩ => by cases kind <;> simp [h]⟩
  refine ⟨?_, ?_, ?_⟩
  · intro name
    have hnames : name ∈ ds.definitions.map (·.name) ↔
        ∃ kind, name ∈ (entries kind).map (·.1) := by
      rw [hds, Definition.mem_names_iff]
      exact ⟨fun h => h.elim (⟨.static, ·⟩) (⟨.dynamic, ·⟩),
        fun ⟨kind, h⟩ => by cases kind <;> simp only [h, true_or, or_true]⟩
    rw [hnames]
    refine exists_congr fun kind => ?_
    constructor
    · intro hname
      obtain ⟨a, ha, rfl⟩ := List.mem_map.mp hname
      obtain ⟨entry, hentry, hyield⟩ := exists_of_forall₂_right (hyields kind) ha
      exact ⟨entry, (hlists kind entry).mp hentry, (hyield.names_iff a.1).mpr rfl⟩
    · rintro ⟨entry, hlisted, hname⟩
      obtain ⟨a, ha, hyield⟩ :=
        exists_of_forall₂_left (hyields kind) ((hlists kind entry).mpr hlisted)
      rw [(hyield.names_iff name).mp hname]
      exact List.mem_map_of_mem ha
  · intro name other
    constructor
    · rintro ⟨d, hd, rfl, candidate, hmem, hrefers⟩
      obtain ⟨kind, ha⟩ := (hcandidate d.name candidate).mp ⟨d, hd, rfl, hmem⟩
      obtain ⟨entry, hentry, hyield⟩ := exists_of_forall₂_right (hyields kind) ha
      exact ⟨kind, entry, (hlists kind entry).mp hentry, (hyield.names_iff d.name).mpr rfl,
        (hyield.refersTo_iff other).mp hrefers⟩
    · rintro ⟨kind, entry, hlisted, hname, hmentions⟩
      obtain ⟨a, ha, hyield⟩ :=
        exists_of_forall₂_left (hyields kind) ((hlists kind entry).mpr hlisted)
      obtain rfl := (hyield.names_iff name).mp hname
      obtain ⟨d, hd, hdname, hmem⟩ := (hcandidate a.1 a.2).mpr ⟨kind, ha⟩
      exact ⟨d, hd, hdname, a.2, hmem, (hyield.refersTo_iff other).mpr hmentions⟩
  · intro d hd candidate hmem
    obtain ⟨kind, ha⟩ := (hcandidate d.name candidate).mp ⟨d, hd, rfl, hmem⟩
    obtain ⟨entry, -, hyield⟩ := exists_of_forall₂_right (hyields kind) ha
    exact hyield.wellFormed

end VariableOrder
