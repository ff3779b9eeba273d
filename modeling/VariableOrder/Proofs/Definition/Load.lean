import VariableOrder.Definition.Load
import VariableOrder.Proofs.Definition.Entry

/-!
# Loaded definitions

Loading a definition file breaks off exactly when building its accepted entries leads to something
broken. Otherwise every entry that is refused leaves its message, and all others are kept.
-/

set_option autoImplicit false

namespace VariableOrder

open Data (Value Record)

/-- The message that an entry leaves, if it is refused. -/
def Refusal.text? {α : Type} : Except Refusal α → Option String
  | .ok _ => none
  | .error r => some r.message

/-- The entries of a kind. -/
def Layout.entries (layout : Layout) : EntryKind → List (Record Value)
  | .static => layout.static
  | .dynamic => layout.dynamic

namespace EntryKind

/-- The name and the candidate of an entry of a kind. -/
def read (c : Catalogue) (position : Nat) (fields : Record Value) :
    EntryKind → Except Refusal (String × Candidate)
  | .static => StaticEntry.read c position fields
  | .dynamic => DynamicEntry.read c position fields

/-- What building an entry of a kind leads to, if it is accepted. -/
inductive Reaches (c : Catalogue) (fields : Record Value) (s : String × Given) :
    EntryKind → Prop where
  | static {e : StaticEntry} (haccepted : StaticEntry.ofFields fields = .ok e)
      (hway : Relation.ReflTransGen c.Leads (static.context e.name, .raw e.value) s) :
      Reaches c fields s .static
  | dynamic {e : DynamicEntry} (haccepted : DynamicEntry.ofFields fields = .ok e)
      (hway : e.Reaches c s) : Reaches c fields s .dynamic

variable {c : Catalogue} {position : Nat} {fields : Record Value}

/-- Naming a candidate breaks off exactly as the candidate does. -/
theorem named_fault_iff {x : Except CallFailure Candidate} {name : String} {f : CallFault} :
    ((x.mapError Refusal.call).map fun candidate => (name, candidate)) =
      .error (.call (.fault f)) ↔ x = .error (.fault f) := by
  cases x <;> simp [Except.map, Except.mapError]

/-- Naming a candidate keeps it and gives it its name. -/
theorem named_eq_ok_iff {x : Except CallFailure Candidate} {name : String}
    {a : String × Candidate} :
    ((x.mapError Refusal.call).map fun candidate => (name, candidate)) = .ok a ↔
      name = a.1 ∧ x = .ok a.2 := by
  cases x <;> simp [Except.map, Except.mapError, Prod.ext_iff]

/-- An entry is read as the candidate under its name, if it is accepted. -/
theorem read_static_eq_ok_iff {a : String × Candidate} : static.read c position fields = .ok a ↔
    ∃ e, StaticEntry.ofFields fields = .ok e ∧ e.name = a.1 ∧ e.candidate c = .ok a.2 := by
  cases haccepted : StaticEntry.ofFields fields with
  | error findings => simp [read, StaticEntry.read, haccepted]
  | ok e => simp only [read, StaticEntry.read, haccepted, named_eq_ok_iff, Except.ok.injEq,
      exists_eq_left']

/-- A dynamic entry is read as the candidate under its name, if it is accepted. -/
theorem read_dynamic_eq_ok_iff {a : String × Candidate} : dynamic.read c position fields = .ok a ↔
    ∃ e, DynamicEntry.ofFields fields = .ok e ∧ e.name = a.1 ∧ e.candidate c = .ok a.2 := by
  cases haccepted : DynamicEntry.ofFields fields with
  | error findings => simp [read, DynamicEntry.read, haccepted]
  | ok e => simp only [read, DynamicEntry.read, haccepted, named_eq_ok_iff, Except.ok.injEq,
      exists_eq_left']

/-- Reading a static entry breaks off exactly when it is accepted and its value reaches a value at
which building breaks off. -/
theorem read_static_fault_iff : (∃ f, static.read c position fields = .error (.call (.fault f))) ↔
    ∃ s, static.Reaches c fields s ∧ c.Broken s.2 := by
  cases haccepted : StaticEntry.ofFields fields with
  | error findings =>
    refine iff_of_false (by simp [read, StaticEntry.read, haccepted]) ?_
    rintro ⟨s, hreaches, -⟩
    cases hreaches with
    | static hok => cases haccepted.symm.trans hok
  | ok e =>
    have hbuild : (∃ f, static.read c position fields = .error (.call (.fault f))) ↔
        ∃ f, c.buildGiven (static.context e.name) (.raw e.value) = .error (.fault f) := by
      simp only [read, StaticEntry.read, haccepted, named_fault_iff, StaticEntry.candidate,
        bind_pure_eq_error_iff, Catalogue.buildGiven]
    rw [hbuild, Catalogue.buildGiven_fault_iff]
    constructor
    · rintro ⟨s, hway, hbroken⟩
      exact ⟨s, .static haccepted hway, hbroken⟩
    · rintro ⟨s, hreaches, hbroken⟩
      cases hreaches with
      | static hok hway =>
        obtain rfl := Except.ok.inj (haccepted.symm.trans hok)
        exact ⟨s, hway, hbroken⟩

/-- Reading a dynamic entry breaks off exactly when it is accepted and its provider or a filter
reaches a value at which building breaks off. -/
theorem read_dynamic_fault_iff : (∃ f, dynamic.read c position fields = .error (.call (.fault f))) ↔
    ∃ s, dynamic.Reaches c fields s ∧ c.Broken s.2 := by
  cases haccepted : DynamicEntry.ofFields fields with
  | error findings =>
    refine iff_of_false (by simp [read, DynamicEntry.read, haccepted]) ?_
    rintro ⟨s, hreaches, -⟩
    cases hreaches with
    | dynamic hok => cases haccepted.symm.trans hok
  | ok e =>
    have hexpression : (∃ f, dynamic.read c position fields = .error (.call (.fault f))) ↔
        ∃ f, e.expression c = .error (.fault f) := by
      simp only [read, DynamicEntry.read, haccepted, named_fault_iff, DynamicEntry.candidate,
        bind_pure_eq_error_iff]
    rw [hexpression, DynamicEntry.expression_breaksOff_iff haccepted]
    constructor
    · rintro ⟨s, hway, hbroken⟩
      exact ⟨s, .dynamic haccepted hway, hbroken⟩
    · rintro ⟨s, hreaches, hbroken⟩
      cases hreaches with
      | dynamic hok hway =>
        obtain rfl := Except.ok.inj (haccepted.symm.trans hok)
        exact ⟨s, hway, hbroken⟩

/-- Reading an entry of either kind breaks off exactly when it reaches such a value. -/
theorem read_fault_iff (kind : EntryKind) :
    (∃ f, kind.read c position fields = .error (.call (.fault f))) ↔
      ∃ s, kind.Reaches c fields s ∧ c.Broken s.2 := by
  cases kind with
  | static => exact read_static_fault_iff
  | dynamic => exact read_dynamic_fault_iff

end EntryKind

namespace Definition

variable {α : Type} {outcomes : List (Except Refusal α)}

/-- A fault of any entry breaks off. -/
theorem sift_fault_iff :
    (∃ f, (sift outcomes).2 = .error f) ↔ ∃ f, .error (.call (.fault f)) ∈ outcomes := by
  fun_induction sift outcomes with
  | case1 => simp
  | case2 a rest messages accepted hrest ih =>
    rw [hrest] at ih
    cases accepted with
    | error f => simpa [Except.map] using ih
    | ok l => simpa [Except.map] using ih
  | case3 f rest =>
    -- a fault ends the run, whatever comes behind it
    exact iff_of_true ⟨f, rfl⟩ ⟨f, List.mem_cons_self⟩
  | case4 r rest hr messages accepted hrest ih =>
    rw [hrest] at ih
    have hfirst : ∀ f, (.error (.call (.fault f)) : Except Refusal α) ≠ .error r := by
      intro f heq
      exact hr f (Except.error.inj heq).symm
    simpa [hfirst] using ih

/-- Without a fault every refused entry leaves its message, and every other one is kept. -/
theorem sift_eq (h : ∀ f, .error (.call (.fault f)) ∉ outcomes) :
    sift outcomes =
      (outcomes.filterMap Refusal.text?, .ok (outcomes.filterMap Except.toOption)) := by
  fun_induction sift outcomes with
  | case1 => rfl
  | case2 a rest messages accepted hrest ih =>
    have heq := hrest.symm.trans (ih fun f hf => h f (List.mem_cons_of_mem _ hf))
    obtain ⟨rfl, rfl⟩ := Prod.mk.inj heq
    rfl
  | case3 f rest => exact absurd List.mem_cons_self (h f)
  | case4 r rest hr messages accepted hrest ih =>
    have heq := hrest.symm.trans (ih fun f hf => h f (List.mem_cons_of_mem _ hf))
    obtain ⟨rfl, rfl⟩ := Prod.mk.inj heq
    rfl

/-- The members of a list are those that are numbered. -/
theorem exists_mem_zipIdx_iff {β : Type} {l : List β} {b : β} :
    (∃ i, (b, i) ∈ l.zipIdx) ↔ b ∈ l := by
  rw [List.mem_iff_getElem?]
  simp only [List.mem_zipIdx_iff_getElem?]

/-- What holds of the results for the members of a list wherever they stand holds of the members. -/
theorem exists_mem_zipIdx_map_iff {β γ : Type} {l : List β} {g : β → Nat → γ} {P : γ → Prop}
    {Q : β → Prop} (h : ∀ b i, P (g b i) ↔ Q b) :
    (∃ r ∈ l.zipIdx.map fun (b, i) => g b i, P r) ↔ ∃ b ∈ l, Q b := by
  simp only [List.mem_map, Prod.exists]
  constructor
  · rintro ⟨r, ⟨b, i, hb, rfl⟩, hP⟩
    exact ⟨b, exists_mem_zipIdx_iff.mp ⟨i, hb⟩, (h b i).mp hP⟩
  · rintro ⟨b, hb, hQ⟩
    obtain ⟨i, hi⟩ := exists_mem_zipIdx_iff.mpr hb
    exact ⟨g b i, ⟨b, i, hi, rfl⟩, (h b i).mpr hQ⟩

/-- The outcomes of the entries of a kind. -/
def reads (c : Catalogue) (layout : Layout) (kind : EntryKind) :
    List (Except Refusal (String × Candidate)) :=
  (layout.entries kind).zipIdx.map fun (fields, i) => kind.read c i fields

/-- Whether building some accepted entry of a definition file leads to something broken. -/
def BreaksOff (c : Catalogue) (raw : Record Value) : Prop :=
  ∃ layout, Layout.ofFields raw = .ok layout ∧ ∃ kind, ∃ fields ∈ layout.entries kind,
    ∃ s, kind.Reaches c fields s ∧ c.Broken s.2

/-- The messages about static entries come first, and dynamic entries are looked at only if no
static one breaks off. -/
theorem ofLayout_eq (c : Catalogue) (layout : Layout) : ofLayout c layout =
    match (sift (reads c layout .static)).2 with
    | .error f => ((sift (reads c layout .static)).1, .error f)
    | .ok statics => ((sift (reads c layout .static)).1 ++ (sift (reads c layout .dynamic)).1,
        (sift (reads c layout .dynamic)).2.map fun dynamics =>
          ofStatic statics ++ ofDynamic statics.length dynamics) :=
  rfl

/-- Loading a layout breaks off exactly when reading one of its entries does. -/
theorem ofLayout_fault_iff {c : Catalogue} {layout : Layout} :
    (∃ f, (ofLayout c layout).2 = .error f) ↔
      ∃ kind f, .error (.call (.fault f)) ∈ reads c layout kind := by
  have hkinds : (∃ kind f, .error (.call (.fault f)) ∈ reads c layout kind) ↔
      (∃ f, .error (.call (.fault f)) ∈ reads c layout .static) ∨
        ∃ f, .error (.call (.fault f)) ∈ reads c layout .dynamic := by
    constructor
    · rintro ⟨kind, f, hf⟩
      cases kind with
      | static => exact .inl ⟨f, hf⟩
      | dynamic => exact .inr ⟨f, hf⟩
    · rintro (⟨f, hf⟩ | ⟨f, hf⟩)
      · exact ⟨_, f, hf⟩
      · exact ⟨_, f, hf⟩
  rw [hkinds, ← sift_fault_iff, ← sift_fault_iff, ofLayout_eq]
  cases (sift (reads c layout .static)).2 with
  | error f => simp
  | ok statics => cases (sift (reads c layout .dynamic)).2 <;> simp [Except.map]

/-- Some entry of a kind breaks off exactly when some entry reaches a value at which building breaks
off. -/
theorem exists_fault_reads_iff {c : Catalogue} {layout : Layout} (kind : EntryKind) :
    (∃ f, .error (.call (.fault f)) ∈ reads c layout kind) ↔
      ∃ fields ∈ layout.entries kind, ∃ s, kind.Reaches c fields s ∧ c.Broken s.2 := by
  have hmem : (∃ f, .error (.call (.fault f)) ∈ reads c layout kind) ↔
      ∃ r ∈ reads c layout kind, ∃ f, r = .error (.call (.fault f)) :=
    ⟨fun ⟨f, hf⟩ => ⟨_, hf, f, rfl⟩, fun ⟨r, hr, f, hf⟩ => ⟨f, hf ▸ hr⟩⟩
  exact hmem.trans (exists_mem_zipIdx_map_iff (g := fun fields i => kind.read c i fields)
    (P := fun r => ∃ f, r = .error (.call (.fault f))) fun _ _ => EntryKind.read_fault_iff kind)

/-- A file with valid parts is loaded as its layout is, behind the earlier messages and with the
settings of the file. -/
theorem load_of_ofFields {c : Catalogue} {raw : Record Value} {layout : Layout}
    (h : Layout.ofFields raw = .ok layout) (earlier : List String) :
    load c earlier raw = ⟨earlier ++ (ofLayout c layout).1,
      (ofLayout c layout).2.map fun ds => ⟨ds, layout.settings⟩⟩ := by
  simp only [load, h]

/-- Loading breaks off exactly when building the accepted entries leads to something broken. -/
theorem load_fault_iff {c : Catalogue} {raw : Record Value} (earlier : List String) :
    (∃ f, (load c earlier raw).outcome = .error f) ↔ BreaksOff c raw := by
  unfold BreaksOff
  cases hlayout : Layout.ofFields raw with
  | error findings => simp [load, hlayout]
  | ok layout =>
    have houtcome : (∃ f, (load c earlier raw).outcome = .error f) ↔
        ∃ f, (ofLayout c layout).2 = .error f := by
      rw [load_of_ofFields hlayout]
      cases (ofLayout c layout).2 <;> simp [Except.map]
    rw [houtcome, ofLayout_fault_iff]
    simp only [exists_fault_reads_iff, Except.ok.injEq, exists_eq_left']

/-- The messages about a definition file: that its parts are not as expected, or one for each entry
that is refused. -/
def refusals (c : Catalogue) (raw : Record Value) : List String :=
  match Layout.ofFields raw with
  | .error findings => [layoutMessage findings]
  | .ok layout =>
    (reads c layout .static ++ reads c layout .dynamic).filterMap Refusal.text?

/-- The definitions of the entries of a definition file that are accepted. -/
def accepted (c : Catalogue) (layout : Layout) : List Definition :=
  let statics := (reads c layout .static).filterMap Except.toOption
  ofStatic statics ++ ofDynamic statics.length ((reads c layout .dynamic).filterMap Except.toOption)

/-- Loading that does not break off leaves a message for whatever is refused and keeps the rest. -/
theorem load_eq {c : Catalogue} {raw : Record Value} (h : ¬ BreaksOff c raw)
    (earlier : List String) :
    load c earlier raw = ⟨earlier ++ refusals c raw, .ok (match Layout.ofFields raw with
      | .error _ => ⟨[], {}⟩
      | .ok layout => ⟨accepted c layout, layout.settings⟩)⟩ := by
  unfold refusals
  cases hlayout : Layout.ofFields raw with
  | error findings => simp only [load, hlayout]
  | ok layout =>
    have hnone : ∀ kind f, .error (.call (.fault f)) ∉ reads c layout kind := by
      intro kind f hf
      exact h ⟨layout, hlayout, kind, (exists_fault_reads_iff kind).mp ⟨f, hf⟩⟩
    have hentries : ofLayout c layout =
        ((reads c layout .static ++ reads c layout .dynamic).filterMap Refusal.text?,
          .ok (accepted c layout)) := by
      rw [ofLayout_eq, sift_eq (hnone .static), sift_eq (hnone .dynamic), List.filterMap_append]
      rfl
    rw [load_of_ofFields hlayout, hentries]
    rfl

end Definition

end VariableOrder
