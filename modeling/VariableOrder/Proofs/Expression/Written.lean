import VariableOrder.Expression.Resource
import VariableOrder.Proofs.Expression.Occurrence
import VariableOrder.Proofs.Schema.Collection

/-!
# Written expressions

A resource is raw data again when it is read. A call is written as its provider followed by its
arguments, as long as each stands under a name of its own; an expression can be written when no raw
value stands below one of its calls. Two resources are the same data when they differ in nothing but
the order of the fields of a record.
-/

set_option autoImplicit false

namespace VariableOrder

open Data (Value Record)

namespace Resource

mutual

/-- The raw data that a resource is read as. -/
def toValue : Resource → Value
  | .text s => .text s
  | .flag b => .flag b
  | .number n => .integer n
  | .list items => .list (toValues items)
  | .record fields => .record (toEntries fields)

/-- The raw data of a list of resources. -/
def toValues : List Resource → List Value
  | [] => []
  | r :: rest => r.toValue :: toValues rest

/-- The raw data of the fields of a record. -/
def toEntries : List (String × Resource) → Record Value
  | [] => []
  | (name, r) :: rest => (.text name, r.toValue) :: toEntries rest

end

/-- Whether two resources are the same data. The order of the fields of a record does not count. -/
inductive Same : Resource → Resource → Prop where
  | text (s : String) : Same (.text s) (.text s)
  | flag (b : Bool) : Same (.flag b) (.flag b)
  | number (n : Int) : Same (.number n) (.number n)
  | list {items others : List Resource} (h : List.Forall₂ Same items others) :
      Same (.list items) (.list others)
  | record {fields others : List (String × Resource)}
      (hnames : ∀ name, name ∈ fields.map (·.1) ↔ name ∈ others.map (·.1))
      (h : ∀ name r r', (name, r) ∈ fields → (name, r') ∈ others → Same r r') :
      Same (.record fields) (.record others)

/-- Only the same text is the same as a text. -/
theorem Same.eq_text {s : String} {r : Resource} (h : Same (.text s) r) : r = .text s := by
  cases h
  rfl

/-- Calls are the same data when their providers are, and their parameters name by name. -/
theorem Same.of_call {provider provider' : String} {params others : List (String × Resource)}
    (hparams : "provider" ∉ params.map (·.1)) (hothers : "provider" ∉ others.map (·.1))
    (h : Same (.record (("provider", .text provider) :: params))
      (.record (("provider", .text provider') :: others))) :
    provider' = provider ∧ (∀ name, name ∈ params.map (·.1) ↔ name ∈ others.map (·.1)) ∧
      ∀ name r r', (name, r) ∈ params → (name, r') ∈ others → Same r r' := by
  cases h with
  | record hnames hsame =>
    refine ⟨?_, ?_, ?_⟩
    · exact text.inj (hsame _ _ _ List.mem_cons_self List.mem_cons_self).eq_text
    · intro name
      by_cases hname : name = "provider"
      · rw [hname]
        exact iff_of_false hparams hothers
      · simpa [hname] using hnames name
    · intro name r r' hr hr'
      exact hsame name r r' (List.mem_cons_of_mem _ hr) (List.mem_cons_of_mem _ hr')

/-- Several resources are data one by one. -/
theorem toValues_eq (items : List Resource) : toValues items = items.map toValue := by
  induction items with
  | nil => rfl
  | cons r rest ih => rw [toValues, ih, List.map_cons]

/-- The fields of a resource are data one by one, under texts as keys. -/
theorem toEntries_eq (fields : List (String × Resource)) :
    toEntries fields = fields.map fun f => (.text f.1, f.2.toValue) := by
  induction fields with
  | nil => rfl
  | cons f rest ih =>
    obtain ⟨name, r⟩ := f
    rw [toEntries, ih, List.map_cons]

/-- No resource is null. -/
theorem isNull_toValue (r : Resource) : r.toValue.isNull = false := by
  cases r <;> rfl

/-- A field is put as a value is put under a text. -/
theorem putField_eq (name : String) (value : Resource) (fields : List (String × Resource)) :
    putField name value fields = Schema.putText name value fields := by
  induction fields with
  | nil => rfl
  | cons f rest ih =>
    obtain ⟨other, r⟩ := f
    rw [putField, Schema.putText, ih]

/-- Parameters with names of their own stand behind the provider in order. -/
theorem callFields_of_nodup {provider : String} {params : List (String × Resource)}
    (h : (("provider" : String) :: params.map (·.1)).Nodup) :
    callFields provider params = ("provider", .text provider) :: params := by
  unfold callFields
  simp only [putField_eq]
  exact Schema.foldl_putText_of_nodup h

end Resource

namespace Expr

/-- Several expressions are written one by one. -/
theorem resourceOfAll_eq (es : List Expr) : resourceOfAll es = es.map resource := by
  induction es with
  | nil => rfl
  | cons e rest ih => rw [resourceOfAll, ih, List.map_cons]

/-- Parameters are written one by one, each under its name. -/
theorem resourceOfParams_eq (params : List (String × Argument)) :
    resourceOfParams params = params.map fun p => (p.1, resourceOfArgument p.2) := by
  induction params with
  | nil => rfl
  | cons p rest ih =>
    obtain ⟨name, a⟩ := p
    rw [resourceOfParams, ih, List.map_cons]

/-- A call whose parameters have names of their own is written as its provider and its arguments. -/
theorem resource_call {provider : String} {params : List (String × Argument)}
    (h : (("provider" : String) :: params.map (·.1)).Nodup) :
    (call provider params).resource =
      .record (("provider", .text provider) ::
        params.map fun p => (p.1, resourceOfArgument p.2)) := by
  rw [resource, resourceOfParams_eq, Resource.callFields_of_nodup]
  rwa [List.map_map]

/-- Several expressions can be written exactly when each of them can. -/
theorem firstUnwritableOfAll_eq_none_iff (es : List Expr) :
    firstUnwritableOfAll es = none ↔ ∀ e ∈ es, e.firstUnwritable = none := by
  induction es with
  | nil => simp [firstUnwritableOfAll]
  | cons e rest ih => simp [firstUnwritableOfAll, ih]

/-- Parameters can be written exactly when each item of each of them can. -/
theorem firstUnwritableOfParams_eq_none_iff (params : List (String × Argument)) :
    firstUnwritableOfParams params = none ↔
      ∀ p ∈ params, ∀ e ∈ p.2.items, e.firstUnwritable = none := by
  induction params with
  | nil => simp [firstUnwritableOfParams]
  | cons p rest ih =>
    obtain ⟨name, a⟩ := p
    rw [firstUnwritableOfParams, Option.or_eq_none_iff, ih, List.forall_mem_cons]
    cases a with
    | single e => simp [firstUnwritableOfArgument, Argument.items]
    | many items => simp [firstUnwritableOfArgument, Argument.items,
        firstUnwritableOfAll_eq_none_iff]

/-- A call can be written when all its arguments can. -/
theorem firstUnwritable_call {provider : String} {params : List (String × Argument)}
    (h : ∀ p ∈ params, ∀ e ∈ p.2.items, e.firstUnwritable = none) :
    (call provider params).firstUnwritable = none := by
  rw [firstUnwritable]
  exact (firstUnwritableOfParams_eq_none_iff params).mpr h

/-- Whatever stands under a name of its own is the argument of that name. -/
theorem argument?_eq_some_iff {params : List (String × Argument)} (h : (params.map (·.1)).Nodup)
    {name : String} {a : Argument} : argument? params name = some a ↔ (name, a) ∈ params := by
  induction params with
  | nil => simp [argument?]
  | cons first rest ih =>
    obtain ⟨other, b⟩ := first
    obtain ⟨hfirst, hrest⟩ := List.nodup_cons.mp h
    by_cases hname : other = name
    · subst hname
      have hnot : ∀ c, (other, c) ∉ rest :=
        fun c hc => hfirst (List.mem_map.mpr ⟨(other, c), hc, rfl⟩)
      simp [argument?, hnot, eq_comm]
    · have hne : name ≠ other := fun heq => hname heq.symm
      rw [List.mem_cons, ← ih hrest]
      simp [argument?, hname, hne]

/-- A name that is given no argument has none. -/
theorem argument?_eq_none {params : List (String × Argument)} {name : String}
    (h : name ∉ params.map (·.1)) : argument? params name = none := by
  unfold argument?
  rw [Option.map_eq_none_iff, List.find?_eq_none]
  intro p hp hname
  exact h (beq_iff_eq.mp hname ▸ List.mem_map_of_mem hp)

/-- A name that is given an argument has one. -/
theorem exists_argument? {params : List (String × Argument)} {p : String × Argument}
    (h : p ∈ params) : ∃ a, argument? params p.1 = some a := by
  have hfound : (params.find? fun q => q.1 == p.1).isSome = true := by
    rw [List.find?_isSome]
    exact ⟨p, h, beq_self_eq_true _⟩
  obtain ⟨found, hfound⟩ := Option.isSome_iff_exists.mp hfound
  exact ⟨found.2, by rw [argument?, hfound, Option.map_some]⟩

/-- Arguments in the order of some distinct names are found again under these names. -/
theorem filterMap_argument? {names : List String} {params : List (String × Argument)}
    (h : (params.map (·.1)).Sublist names) (hnames : names.Nodup) :
    (names.filterMap fun name => (argument? params name).map fun a => (name, a)) = params := by
  induction names generalizing params with
  | nil => simpa using h
  | cons first rest ih =>
    obtain ⟨hfirst, hrest⟩ := List.nodup_cons.mp hnames
    rcases List.sublist_cons_iff.mp h with hskip | ⟨others, hparams, hothers⟩
    · have hnone : argument? params first = none :=
        argument?_eq_none fun hmem => hfirst (hskip.subset hmem)
      rw [List.filterMap_cons, hnone]
      exact ih hskip hrest
    · obtain ⟨⟨name, a⟩, tail, rfl, rfl, rfl⟩ := List.map_eq_cons_iff.mp hparams
      -- the other names are not the first one, so they find the same without its argument
      have htail : (rest.filterMap fun other =>
          (argument? ((name, a) :: tail) other).map fun b => (other, b)) =
            rest.filterMap fun other => (argument? tail other).map fun b => (other, b) := by
        refine List.filterMap_congr fun other hother => ?_
        have hne : name ≠ other := fun heq => hfirst (heq ▸ hother)
        simp [argument?, hne]
      rw [List.filterMap_cons, htail, ih hothers hrest]
      simp [argument?]

end Expr

end VariableOrder
