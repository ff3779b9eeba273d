import VariableOrder.Proofs.Definition.Accepted
import VariableOrder.Proofs.Schema.Scalar

/-!
# Sifting the entries of a definition file

Loading takes the items of a part one after the other. An item is accepted, and yields the name of
its variable and a candidate, or it is refused and leaves one message. A definition file whose items
are sifted like this is loaded as the definitions of what was accepted, with the messages of what
was refused behind the earlier ones; and a file whose loading does not break off is sifted.
-/

set_option autoImplicit false

namespace VariableOrder

open Data (Value Record)

/-- The items that a definition file lists in the part for a kind. A part that is null counts as
absent. -/
def EntryKind.items (kind : EntryKind) (raw : Record Value) : List Value :=
  match Record.get? (raw.filter fun e => !e.2.isNull) kind.part with
  | some (.list items) => items
  | some (.collection items) => items
  | some (.pair first second) => [first, second]
  | _ => []

/-- Whether a name is what an entry has in the field for it, without the blanks around it. -/
def IsNameOf (name : String) (fields : Record Value) : Prop :=
  ∃ v s, fields.get? "name" = some v ∧ Schema.ReadsText v s ∧
    name = String.ofList (Text.strip s.toList)

/-- Whether a condition is what an entry has in the field for it: a text, or none if the field is
null or missing. -/
def IsConditionOf (condition : Option String) (fields : Record Value) : Prop :=
  Schema.ReadsField Schema.ReadsOptionalText fields "condition" none condition

/-- Whether a flag is what an entry has in the field of a name, or the standard if the field is
missing. -/
def IsFlagOf (flag : Bool) (name : String) (standard : Bool) (fields : Record Value) : Prop :=
  Schema.ReadsField Schema.ReadsFlag fields name standard flag

namespace EntryKind

/-- An accepted item yields its name and a candidate with its expression, its condition and its
flags. The name, the condition and the flags are what the fields of the item say. -/
inductive Accepts (c : Catalogue) (item : Value) : EntryKind → String × Candidate → Prop where
  | static {fields : Record Value} {e : StaticEntry} {x : Expr}
      (hfields : Schema.checkFields item = .ok fields)
      (hentry : StaticEntry.ofFields fields = .ok e)
      (hname : IsNameOf e.name fields) (hcondition : IsConditionOf e.condition fields)
      (hvalue : c.build (static.context e.name) e.value = .ok x) :
      Accepts c item .static (e.name, { value := x, condition := e.condition })
  | dynamic {fields : Record Value} {e : DynamicEntry} {x : Expr}
      (hfields : Schema.checkFields item = .ok fields)
      (hentry : DynamicEntry.ofFields fields = .ok e)
      (hname : IsNameOf e.name fields) (hcondition : IsConditionOf e.condition fields)
      (hcheckOnce : IsFlagOf e.checkOnce "checkonce" false fields)
      (hignoreFailure : IsFlagOf e.ignoreFailure "ignorefailure" true fields)
      (hautoUnset : IsFlagOf e.autoUnset "unset" true fields)
      (hvalue : e.expression c = .ok x) :
      Accepts c item .dynamic (e.name,
        { value := x, condition := e.condition, checkOnce := e.checkOnce,
          ignoreFailure := e.ignoreFailure, autoUnset := e.autoUnset })

/-- A refused item leaves a message: about its fields, told by its position, or about a problem of
its expression. -/
inductive Refuses (c : Catalogue) (position : Nat) (item : Value) : EntryKind → String → Prop where
  | staticFields {fields : Record Value} {findings : List Schema.Finding}
      (hfields : Schema.checkFields item = .ok fields)
      (h : StaticEntry.ofFields fields = .error findings) :
      Refuses c position item .static (Refusal.invalid .static position findings).message
  | staticValue {fields : Record Value} {e : StaticEntry} {place : String} {p : CallProblem}
      (hfields : Schema.checkFields item = .ok fields)
      (hentry : StaticEntry.ofFields fields = .ok e)
      (h : c.build (static.context e.name) e.value = .error (.problem place p)) :
      Refuses c position item .static (CallFailure.problem place p).message
  | dynamicFields {fields : Record Value} {findings : List Schema.Finding}
      (hfields : Schema.checkFields item = .ok fields)
      (h : DynamicEntry.ofFields fields = .error findings) :
      Refuses c position item .dynamic (Refusal.invalid .dynamic position findings).message
  | dynamicValue {fields : Record Value} {e : DynamicEntry} {place : String} {p : CallProblem}
      (hfields : Schema.checkFields item = .ok fields)
      (hentry : DynamicEntry.ofFields fields = .ok e)
      (h : e.expression c = .error (.problem place p)) :
      Refuses c position item .dynamic (CallFailure.problem place p).message

end EntryKind

/-- Items from a position on are sifted: what the accepted ones yield and the messages that the
refused ones leave, both in the order of the items. -/
inductive Sifted (c : Catalogue) (kind : EntryKind) :
    Nat → List Value → List (String × Candidate) → List String → Prop where
  | nil (position : Nat) : Sifted c kind position [] [] []
  | accepted {position : Nat} {item : Value} {items : List Value} {a : String × Candidate}
      {as : List (String × Candidate)} {messages : List String} (h : kind.Accepts c item a)
      (hrest : Sifted c kind (position + 1) items as messages) :
      Sifted c kind position (item :: items) (a :: as) messages
  | refused {position : Nat} {item : Value} {items : List Value} {message : String}
      {as : List (String × Candidate)} {messages : List String}
      (h : kind.Refuses c position item message)
      (hrest : Sifted c kind (position + 1) items as messages) :
      Sifted c kind position (item :: items) as (message :: messages)

/-- Every item is accepted or leaves one message. -/
theorem Sifted.length_eq {c : Catalogue} {kind : EntryKind} {position : Nat} {items : List Value}
    {as : List (String × Candidate)} {messages : List String}
    (h : Sifted c kind position items as messages) :
    items.length = as.length + messages.length := by
  induction h with
  | nil => rfl
  | accepted _ _ ih =>
    simp only [List.length_cons, ih]
    omega
  | refused _ _ ih =>
    simp only [List.length_cons, ih]
    omega

section Read

variable {c : Catalogue} {kind : EntryKind} {position : Nat} {item : Value} {fields : Record Value}

/-- The name of an accepted entry is what its field says. -/
theorem isNameOf_of_required {name : String}
    (h : Schema.required fields "name" Schema.checkName = .ok name) : IsNameOf name fields := by
  obtain ⟨v, hget, hname⟩ := Schema.required_eq_ok_iff.mp h
  obtain ⟨s, hs, hstrip⟩ := bind_eq_ok_iff.mp hname
  refine ⟨v, s, hget, Schema.checkText_eq_ok_iff.mp hs, ?_⟩
  split_ifs at hstrip
  · cases hstrip
  · cases hstrip
  · exact (Except.ok.inj hstrip).symm

/-- The condition of an accepted entry is what its field says. -/
theorem isConditionOf_of_defaulted {condition : Option String}
    (h : Schema.defaulted fields "condition" none Schema.checkOptionalText = .ok condition) :
    IsConditionOf condition fields :=
  (Schema.defaulted_eq_ok_iff_reads Schema.checkOptionalText_eq_ok_iff).mp h

/-- A flag of an accepted entry is what its field says. -/
theorem isFlagOf_of_defaulted {flag standard : Bool} {name : String}
    (h : Schema.defaulted fields name standard Schema.checkFlag = .ok flag) :
    IsFlagOf flag name standard fields :=
  (Schema.defaulted_eq_ok_iff_reads Schema.checkFlag_eq_ok_iff).mp h

/-- An item is accepted when what it is understood as is read as a candidate. -/
theorem EntryKind.accepts_iff (hfields : Schema.checkFields item = .ok fields)
    {a : String × Candidate} : kind.Accepts c item a ↔ kind.read c position fields = .ok a := by
  constructor
  · rintro h
    cases h with
    | static hother hentry _ _ hvalue =>
      obtain rfl := Except.ok.inj (hfields.symm.trans hother)
      refine read_static_eq_ok_iff.mpr ⟨_, hentry, rfl, ?_⟩
      rw [StaticEntry.candidate, hvalue]
      rfl
    | dynamic hother hentry _ _ _ _ _ hvalue =>
      obtain rfl := Except.ok.inj (hfields.symm.trans hother)
      refine read_dynamic_eq_ok_iff.mpr ⟨_, hentry, rfl, ?_⟩
      rw [DynamicEntry.candidate, hvalue]
      rfl
  · intro h
    obtain ⟨name, candidate⟩ := a
    cases kind with
    | static =>
      obtain ⟨e, hentry, rfl, hcandidate⟩ := read_static_eq_ok_iff.mp h
      obtain ⟨x, hx, hcandidate⟩ := bind_eq_ok_iff.mp hcandidate
      obtain rfl := Except.ok.inj hcandidate
      obtain ⟨hname, -, hcondition, -⟩ := StaticEntry.ofFields_eq_ok_iff.mp hentry
      exact .static hfields hentry (isNameOf_of_required hname)
        (isConditionOf_of_defaulted hcondition) hx
    | dynamic =>
      obtain ⟨e, hentry, rfl, hcandidate⟩ := read_dynamic_eq_ok_iff.mp h
      obtain ⟨x, hx, hcandidate⟩ := bind_eq_ok_iff.mp hcandidate
      obtain rfl := Except.ok.inj hcandidate
      obtain ⟨hname, -, -, hcondition, hcheckOnce, hignoreFailure, hautoUnset, -⟩ :=
        DynamicEntry.ofFields_eq_ok_iff.mp hentry
      exact .dynamic hfields hentry (isNameOf_of_required hname)
        (isConditionOf_of_defaulted hcondition) (isFlagOf_of_defaulted hcheckOnce)
        (isFlagOf_of_defaulted hignoreFailure) (isFlagOf_of_defaulted hautoUnset) hx

/-- Naming a candidate fails exactly as the candidate does. -/
theorem named_eq_error_iff {x : Except CallFailure Candidate} {name : String} {r : Refusal} :
    ((x.mapError Refusal.call).map fun candidate => (name, candidate)) = .error r ↔
      ∃ f, x = .error f ∧ r = .call f := by
  cases x <;> simp [Except.map, Except.mapError, eq_comm]

/-- A static entry is refused for its fields, or because its value is not built. -/
theorem EntryKind.read_static_eq_error_iff {r : Refusal} :
    static.read c position fields = .error r ↔
      (∃ findings, StaticEntry.ofFields fields = .error findings ∧
        r = .invalid .static position findings) ∨
      ∃ e f, StaticEntry.ofFields fields = .ok e ∧
        c.build (static.context e.name) e.value = .error f ∧ r = .call f := by
  cases hentry : StaticEntry.ofFields fields with
  | error findings => simp [read, StaticEntry.read, hentry, eq_comm]
  | ok e => simp only [read, StaticEntry.read, hentry, named_eq_error_iff, StaticEntry.candidate,
      bind_pure_eq_error_iff, reduceCtorEq, false_and, exists_false, false_or, Except.ok.injEq,
      exists_and_left, exists_eq_left']

/-- A dynamic entry is refused for its fields, or because its expression is not built. -/
theorem EntryKind.read_dynamic_eq_error_iff {r : Refusal} :
    dynamic.read c position fields = .error r ↔
      (∃ findings, DynamicEntry.ofFields fields = .error findings ∧
        r = .invalid .dynamic position findings) ∨
      ∃ e f, DynamicEntry.ofFields fields = .ok e ∧ e.expression c = .error f ∧ r = .call f := by
  cases hentry : DynamicEntry.ofFields fields with
  | error findings => simp [read, DynamicEntry.read, hentry, eq_comm]
  | ok e => simp only [read, DynamicEntry.read, hentry, named_eq_error_iff, DynamicEntry.candidate,
      bind_pure_eq_error_iff, reduceCtorEq, false_and, exists_false, false_or, Except.ok.injEq,
      exists_and_left, exists_eq_left']

/-- An item is refused when what it is understood as is, unless a fault breaks off. -/
theorem EntryKind.refuses_iff (hfields : Schema.checkFields item = .ok fields)
    {message : String} : kind.Refuses c position item message ↔
      ∃ r, kind.read c position fields = .error r ∧ (∀ f, r ≠ .call (.fault f)) ∧
        r.message = message := by
  constructor
  · intro h
    cases h with
    | staticFields hother h =>
      obtain rfl := Except.ok.inj (hfields.symm.trans hother)
      exact ⟨_, read_static_eq_error_iff.mpr (.inl ⟨_, h, rfl⟩), by simp, rfl⟩
    | @staticValue _ e place p hother hentry h =>
      obtain rfl := Except.ok.inj (hfields.symm.trans hother)
      exact ⟨.call (.problem place p), read_static_eq_error_iff.mpr (.inr ⟨e, _, hentry, h, rfl⟩),
        by simp, rfl⟩
    | dynamicFields hother h =>
      obtain rfl := Except.ok.inj (hfields.symm.trans hother)
      exact ⟨_, read_dynamic_eq_error_iff.mpr (.inl ⟨_, h, rfl⟩), by simp, rfl⟩
    | @dynamicValue _ e place p hother hentry h =>
      obtain rfl := Except.ok.inj (hfields.symm.trans hother)
      exact ⟨.call (.problem place p), read_dynamic_eq_error_iff.mpr (.inr ⟨e, _, hentry, h, rfl⟩),
        by simp, rfl⟩
  · rintro ⟨r, hread, hfault, rfl⟩
    cases kind with
    | static =>
      rcases read_static_eq_error_iff.mp hread with ⟨findings, h, rfl⟩ | ⟨e, f, hentry, h, rfl⟩
      · exact .staticFields hfields h
      · cases f with
        | problem place p => exact .staticValue hfields hentry h
        | fault f => exact absurd rfl (hfault f)
    | dynamic =>
      rcases read_dynamic_eq_error_iff.mp hread with ⟨findings, h, rfl⟩ | ⟨e, f, hentry, h, rfl⟩
      · exact .dynamicFields hfields h
      · cases f with
        | problem place p => exact .dynamicValue hfields hentry h
        | fault f => exact absurd rfl (hfault f)

/-- An accepted item is a record. -/
theorem EntryKind.Accepts.exists_fields {a : String × Candidate} (h : kind.Accepts c item a) :
    ∃ fields, Schema.checkFields item = .ok fields := by
  cases h with
  | static hfields _ _ _ _ => exact ⟨_, hfields⟩
  | dynamic hfields _ _ _ _ _ _ _ => exact ⟨_, hfields⟩

/-- A refused item is a record. -/
theorem EntryKind.Refuses.exists_fields {message : String}
    (h : kind.Refuses c position item message) :
    ∃ fields, Schema.checkFields item = .ok fields := by
  cases h with
  | staticFields hfields _ => exact ⟨_, hfields⟩
  | staticValue hfields _ _ => exact ⟨_, hfields⟩
  | dynamicFields hfields _ => exact ⟨_, hfields⟩
  | dynamicValue hfields _ _ => exact ⟨_, hfields⟩

/-- An item is accepted as one thing only. -/
theorem EntryKind.Accepts.unique {a b : String × Candidate} (ha : kind.Accepts c item a)
    (hb : kind.Accepts c item b) : a = b := by
  obtain ⟨fields, hfields⟩ := ha.exists_fields
  have hread : kind.read c 0 fields = .ok a := (accepts_iff hfields).mp ha
  exact Except.ok.inj (hread.symm.trans ((accepts_iff hfields).mp hb))

/-- A refused item leaves one message only. -/
theorem EntryKind.Refuses.unique {message other : String}
    (h : kind.Refuses c position item message) (hother : kind.Refuses c position item other) :
    message = other := by
  obtain ⟨fields, hfields⟩ := h.exists_fields
  obtain ⟨r, hread, -, rfl⟩ := (refuses_iff hfields).mp h
  obtain ⟨s, hagain, -, rfl⟩ := (refuses_iff hfields).mp hother
  rw [Except.error.inj (hread.symm.trans hagain)]

/-- No item is accepted and refused. -/
theorem EntryKind.Accepts.not_refuses {a : String × Candidate} (h : kind.Accepts c item a)
    {message : String} : ¬ kind.Refuses c position item message := by
  intro hrefuses
  obtain ⟨fields, hfields⟩ := h.exists_fields
  obtain ⟨r, hread, -, -⟩ := (refuses_iff hfields).mp hrefuses
  cases hread.symm.trans ((accepts_iff hfields).mp h)

section Sifted

variable {items : List Value} {as : List (String × Candidate)} {messages : List String}

/-- Behind an accepted item the rest is sifted as it is alone. -/
theorem Sifted.accepted_cons_iff {a : String × Candidate} (h : kind.Accepts c item a) :
    Sifted c kind position (item :: items) as messages ↔
      ∃ bs, a :: bs = as ∧ Sifted c kind (position + 1) items bs messages := by
  constructor
  · intro hsifted
    cases hsifted with
    | accepted hitem hrest => exact ⟨_, by rw [h.unique hitem], hrest⟩
    | refused hitem _ => exact absurd hitem h.not_refuses
  · rintro ⟨bs, rfl, hrest⟩
    exact .accepted h hrest

/-- Behind a refused item the rest is sifted as it is alone. -/
theorem Sifted.refused_cons_iff {message : String} (h : kind.Refuses c position item message) :
    Sifted c kind position (item :: items) as messages ↔
      ∃ others, message :: others = messages ∧ Sifted c kind (position + 1) items as others := by
  constructor
  · intro hsifted
    cases hsifted with
    | accepted hitem _ => exact absurd h hitem.not_refuses
    | refused hitem hrest => exact ⟨_, by rw [h.unique hitem], hrest⟩
  · rintro ⟨others, rfl, hrest⟩
    exact .refused h hrest

/-- Items are sifted in one way only. -/
theorem Sifted.unique {others : List (String × Candidate)} {rest : List String}
    (h : Sifted c kind position items as messages)
    (hother : Sifted c kind position items others rest) : as = others ∧ messages = rest := by
  induction h generalizing others rest with
  | nil =>
    cases hother
    exact ⟨rfl, rfl⟩
  | accepted hitem _ ih =>
    obtain ⟨bs, rfl, hrest⟩ := (accepted_cons_iff hitem).mp hother
    obtain ⟨rfl, rfl⟩ := ih hrest
    exact ⟨rfl, rfl⟩
  | refused hitem _ ih =>
    obtain ⟨tail, rfl, hrest⟩ := (refused_cons_iff hitem).mp hother
    obtain ⟨rfl, rfl⟩ := ih hrest
    exact ⟨rfl, rfl⟩

end Sifted

end Read

namespace Definition

variable {c : Catalogue} {kind : EntryKind}

/-- A successful outcome is kept in front of the rest. -/
theorem sift_ok_cons {α : Type} (a : α) (rest : List (Except Refusal α)) :
    sift (.ok a :: rest) = ((sift rest).1, (sift rest).2.map (a :: ·)) :=
  rfl

/-- A refused outcome leaves its message in front of the rest. -/
theorem sift_refused_cons {α : Type} {r : Refusal} (h : ∀ f, r ≠ .call (.fault f))
    (rest : List (Except Refusal α)) :
    sift (.error r :: rest) = (r.message :: (sift rest).1, (sift rest).2) := by
  cases r with
  | invalid => rfl
  | call failure =>
    cases failure with
    | problem => rfl
    | fault f => exact absurd rfl (h f)

/-- Going through the outcomes of the items comes to an end exactly when they are sifted. -/
theorem sift_eq_iff {items : List Value} {entries : List (Record Value)}
    (hall : List.Forall₂ (fun item fields => Schema.checkFields item = .ok fields) items entries)
    {position : Nat} {as : List (String × Candidate)} {messages : List String} :
    sift ((entries.zipIdx position).map fun (fields, i) => kind.read c i fields) =
      (messages, .ok as) ↔ Sifted c kind position items as messages := by
  induction hall generalizing position as messages with
  | nil =>
    constructor
    · intro h
      obtain ⟨rfl, has⟩ := Prod.mk.inj h
      obtain rfl := Except.ok.inj has
      exact .nil position
    · intro h
      cases h
      rfl
  | @cons item fields items entries hfields _ ih =>
    rw [List.zipIdx_cons, List.map_cons]
    dsimp only
    cases hread : kind.read c position fields with
    | ok a =>
      rw [sift_ok_cons, Sifted.accepted_cons_iff ((EntryKind.accepts_iff hfields).mpr hread),
        Prod.mk.injEq, map_eq_ok_iff]
      constructor
      · rintro ⟨rfl, bs, hbs, rfl⟩
        exact ⟨bs, rfl, ih.mp (Prod.ext rfl hbs)⟩
      · rintro ⟨bs, rfl, hrest⟩
        rw [ih.mpr hrest]
        exact ⟨rfl, bs, rfl, rfl⟩
    | error r =>
      by_cases hfault : ∃ f, r = .call (.fault f)
      · -- a fault ends the run, and no rule is about an item with one
        obtain ⟨f, rfl⟩ := hfault
        refine iff_of_false (fun h => by cases (Prod.mk.inj h).2) fun hsifted => ?_
        cases hsifted with
        | accepted hitem _ => cases hread.symm.trans ((EntryKind.accepts_iff hfields).mp hitem)
        | refused hitem _ =>
          obtain ⟨_, hother, hno, -⟩ := (EntryKind.refuses_iff hfields).mp hitem
          exact hno f (Except.error.inj (hother.symm.trans hread))
      · rw [not_exists] at hfault
        rw [sift_refused_cons hfault, Sifted.refused_cons_iff
          ((EntryKind.refuses_iff hfields).mpr ⟨r, hread, hfault, rfl⟩), Prod.mk.injEq]
        constructor
        · rintro ⟨rfl, has⟩
          exact ⟨_, rfl, ih.mp (Prod.ext rfl has)⟩
        · rintro ⟨others, rfl, hrest⟩
          rw [ih.mpr hrest]
          exact ⟨rfl, rfl⟩

/-- The entries of a kind are what the items of its part are understood as. -/
theorem forall₂_items {raw : Record Value} {layout : Layout} (h : Layout.ofFields raw = .ok layout)
    (kind : EntryKind) :
    List.Forall₂ (fun item fields => Schema.checkFields item = .ok fields) (kind.items raw)
      (layout.entries kind) := by
  unfold EntryKind.items
  rcases Schema.defaulted_eq_ok_iff.mp (Layout.entries_of_ofFields h kind) with
    ⟨v, hget, hv⟩ | ⟨hget, hnone⟩
  · rw [hget]
    cases v with
    | list items => exact Schema.checkItems_eq_ok_iff.mp hv
    | collection items => exact Schema.checkItems_eq_ok_iff.mp hv
    | pair first second => exact Schema.checkItems_eq_ok_iff.mp hv
    | _ => cases hv
  · rw [hget, ← hnone]
    exact .nil

/-- The definitions of accepted entries. -/
def listed (accepted : EntryKind → List (String × Candidate)) : List Definition :=
  ofStatic (accepted .static) ++ ofDynamic (accepted .static).length (accepted .dynamic)

/-- A file whose items are sifted is loaded as the definitions of what is accepted, with the
messages of what is refused behind the earlier ones. -/
theorem load_of_sifted {raw : Record Value} {layout : Layout}
    (hlayout : Layout.ofFields raw = .ok layout)
    {accepted : EntryKind → List (String × Candidate)} {messages : EntryKind → List String}
    (h : ∀ kind, Sifted c kind 0 (kind.items raw) (accepted kind) (messages kind))
    (earlier : List String) :
    load c earlier raw = ⟨earlier ++ (messages .static ++ messages .dynamic),
      .ok ⟨listed accepted, layout.settings⟩⟩ := by
  have hsift : ∀ kind, sift (reads c layout kind) = (messages kind, .ok (accepted kind)) :=
    fun kind => (sift_eq_iff (forall₂_items hlayout kind)).mpr (h kind)
  rw [load_of_ofFields hlayout, ofLayout_eq, hsift, hsift]
  rfl

/-- The items of a file are sifted if loading it does not break off. -/
theorem exists_sifted_of_load {raw : Record Value} {layout : Layout}
    (hlayout : Layout.ofFields raw = .ok layout) {earlier : List String} {ds : Definitions}
    (h : (load c earlier raw).outcome = .ok ds) :
    ∃ (accepted : EntryKind → List (String × Candidate)) (messages : EntryKind → List String),
      ∀ kind, Sifted c kind 0 (kind.items raw) (accepted kind) (messages kind) := by
  have hoff : ¬ BreaksOff c raw := by
    rw [← load_fault_iff earlier, h]
    simp
  have hnone : ∀ kind f, .error (.call (.fault f)) ∉ reads c layout kind := by
    intro kind f hf
    exact hoff ⟨layout, hlayout, kind, (exists_fault_reads_iff kind).mp ⟨f, hf⟩⟩
  exact ⟨_, _, fun kind => (sift_eq_iff (forall₂_items hlayout kind)).mp (sift_eq (hnone kind))⟩

end Definition

end VariableOrder
