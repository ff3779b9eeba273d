import VariableOrder.Proofs.Provider.Canonical

/-!
# Reading written expressions

An expression in canonical form is written so that building it again yields the same expression,
wherever it stands: the arguments of its calls are given in the order in which they stand, and the
provider admits them. So two expressions in canonical form that are written as the same data are
equal, even though the order of the fields of a record does not count in data.
-/

set_option autoImplicit false

namespace VariableOrder

open Data (Value Record)

variable {c : Catalogue} {p : Provider} {place : String}
  {arguments others : List (String × Argument)} {e : Expr}

/-- What is given for a call when its arguments are written and read again. -/
def writtenFields (arguments : List (String × Argument)) : Record Given :=
  arguments.map fun a => (.text a.1, .raw (Expr.resourceOfArgument a.2).toValue)

/-- A written argument is found under its name. -/
theorem get?_writtenFields (name : String) : (writtenFields arguments).get? name =
    (Expr.argument? arguments name).map fun a => .raw (Expr.resourceOfArgument a).toValue := by
  unfold Record.get? writtenFields Expr.argument?
  rw [List.find?_map, Option.map_map, Option.map_map]
  rfl

/-- A written call gives its arguments again when it is read. -/
theorem nestedFields_written {provider : Value}
    (h : Catalogue.providerKey ∉ arguments.map (·.1)) :
    nestedFields ((.text Catalogue.providerKey, provider) ::
      arguments.map fun a => (.text a.1, (Expr.resourceOfArgument a.2).toValue)) =
        writtenFields arguments := by
  have hother : ∀ f ∈ arguments.map fun a =>
      (Value.text a.1, (Expr.resourceOfArgument a.2).toValue),
      f.1 ≠ .text Catalogue.providerKey := by
    intro f hf hkey
    obtain ⟨a, ha, rfl⟩ := List.mem_map.mp hf
    exact h (List.mem_map.mpr ⟨a, ha, Value.text.inj hkey⟩)
  rw [nestedFields, Record.without_cons_self provider hother, Catalogue.rawFields, List.map_map]
  rfl

namespace Catalogue.Canonical

/-- Only an expression text is written as a text. -/
theorem eq_ofText (h : c.Canonical e) {s : String} (hs : e.resource.toValue = .text s) :
    e = .ofText s := by
  cases h with
  | text t =>
    obtain rfl := Value.text.inj hs
    rfl
  | call => simp [Expr.resource, Resource.toValue] at hs

/-- No expression is written as a list. -/
theorem isList_toValue (h : c.Canonical e) : (Given.raw e.resource.toValue).isList = false := by
  cases h <;> rfl

/-- A canonical expression can be written. -/
theorem firstUnwritable (h : c.Canonical e) : e.firstUnwritable = none := by
  induction h with
  | text s => rfl
  | call _ _ _ ih => exact Expr.firstUnwritable_call ih

end Catalogue.Canonical

namespace Provider.Accepts

variable (h : p.Accepts arguments)

include h

/-- Each argument of a canonical call is given once. -/
theorem nodup_names (hparams : p.paramNames.Nodup) : (arguments.map (·.1)).Nodup :=
  h.ordered.nodup hparams

/-- The provider and the arguments of a canonical call are written under distinct names. -/
theorem nodup_written (hparams : (Catalogue.providerKey :: p.paramNames).Nodup) :
    (Catalogue.providerKey :: arguments.map (·.1)).Nodup :=
  (h.ordered.cons_cons Catalogue.providerKey).nodup hparams

/-- The written arguments are given in the order in which they stand. -/
theorem given_writtenFields (hparams : p.paramNames.Nodup) : p.given (writtenFields arguments) =
    arguments.map fun a => (a.1, .raw (Expr.resourceOfArgument a.2).toValue) := by
  conv_rhs => rw [← Expr.filterMap_argument? h.ordered hparams]
  rw [List.map_filterMap]
  refine List.filterMap_congr fun name _ => ?_
  rw [get?_writtenFields]
  cases Expr.argument? arguments name with
  | none => rfl
  | some a => simp [Option.filter, Given.isNull, Resource.isNull_toValue]

/-- The provider admits the written arguments. -/
theorem admits_writtenFields (hparams : p.paramNames.Nodup)
    (hitems : ∀ a ∈ arguments, ∀ e ∈ a.2.items, c.Canonical e) :
    p.Admits (writtenFields arguments) := by
  have hget : ∀ {name g}, (writtenFields arguments).get? name = some g →
      ∃ a, (name, a) ∈ arguments ∧ g = .raw (Expr.resourceOfArgument a).toValue := by
    intro name g hg
    rw [get?_writtenFields] at hg
    obtain ⟨a, ha, rfl⟩ := Option.map_eq_some_iff.mp hg
    exact ⟨a, (Expr.argument?_eq_some_iff (h.nodup_names hparams)).mp ha, rfl⟩
  refine ⟨?_, ?_, ?_, ?_⟩
  · intro f hf
    obtain ⟨a, ha, rfl⟩ := List.mem_map.mp hf
    exact ⟨a.1, h.ordered.subset (List.mem_map_of_mem ha), rfl⟩
  · intro name hname
    obtain ⟨⟨other, a⟩, ha, rfl⟩ := List.mem_map.mp (h.required name hname)
    refine ⟨.raw (Expr.resourceOfArgument a).toValue, ?_, Resource.isNull_toValue _⟩
    rw [get?_writtenFields, (Expr.argument?_eq_some_iff (h.nodup_names hparams)).mpr ha]
    rfl
  · intro choice hchoice s hs
    obtain ⟨a, ha, htext⟩ := hget hs
    cases a with
    | many items => cases htext
    | single e =>
      have he := hitems _ ha e (List.mem_singleton_self e)
      obtain rfl := he.eq_ofText (Given.raw.inj htext).symm
      exact h.allowed choice hchoice s ha
  · intro name _ hlist g hg
    obtain ⟨a, ha, rfl⟩ := hget hg
    cases a with
    | many items =>
      have hmany : true = p.list.contains name := h.shaped _ ha
      rw [hlist] at hmany
      cases hmany
    | single e => exact (hitems _ ha e (List.mem_singleton_self e)).isList_toValue

end Provider.Accepts

/-- An argument is built again from what it is written as, if its expressions are. -/
theorem Provider.argument_written {a : String × Argument}
    (hshape : a.2.isMany = p.list.contains a.1)
    (hitems : ∀ e ∈ a.2.items, ∀ here, c.build here e.resource.toValue = .ok e) :
    p.argument place (a.1, c.givenParam (.raw (Expr.resourceOfArgument a.2).toValue)) = .ok a := by
  obtain ⟨name, argument⟩ := a
  refine argument_eq_ok_iff.mpr ⟨rfl, hshape, ?_⟩
  unfold partsOf
  cases argument with
  | single e =>
    have hlist : p.list.contains name = false := hshape.symm
    rw [hlist]
    exact .cons (hitems e (List.mem_singleton_self e) _) .nil
  | many items =>
    have hlist : p.list.contains name = true := hshape.symm
    have hvalues : (Given.raw (Expr.resourceOfArgument (.many items)).toValue).items =
        items.map fun e => .raw e.resource.toValue := by
      simp [Expr.resourceOfArgument, Expr.resourceOfAll_eq, Resource.toValue,
        Resource.toValues_eq, Given.items]
    -- every item is numbered, but it is built to the same expression at every place
    have hnumbered : List.Forall₂ (fun x e => x.1 = e) items.zipIdx items := by
      rw [← List.forall₂_map_left_iff, List.zipIdx_map_fst]
      exact List.forall₂_refl items
    rw [if_pos hlist, hvalues, List.zipIdx_map, List.map_map, List.forall₂_map_left_iff]
    refine (forall₂_imp_of_mem hnumbered.flip fun e he x hx => ?_).flip
    subst hx
    exact hitems _ he _

/-- An expression in canonical form is built again from what it is written as, at every place. -/
theorem Catalogue.build_resource (hc : c.Coherent) (h : c.Canonical e) (place : String) :
    c.build place e.resource.toValue = .ok e := by
  induction h generalizing place with
  | text s => exact build_text s
  | @call p arguments hp haccepts hitems ih =>
    have hparams := (List.nodup_cons.mp (hc.params hp)).2
    have hnames := haccepts.nodup_written (hc.params hp)
    have hresource : (Expr.call p.typeName arguments).resource.toValue =
        .record ((.text providerKey, .text p.typeName) ::
          arguments.map fun a => (.text a.1, (Expr.resourceOfArgument a.2).toValue)) := by
      rw [Expr.resource_call hnames, Resource.toValue, Resource.toEntries_eq, List.map_cons,
        List.map_map]
      rfl
    rw [hresource, build_record_eq_ok_iff]
    refine ⟨p.typeName, Record.get?_cons_self _ _ _, hc.named hp, ?_⟩
    rw [nestedFields_written (List.nodup_cons.mp hnames).1, call_eq_ok_iff]
    refine ⟨p, hp, Provider.call_eq_ok_iff.mpr
      ⟨haccepts.admits_writtenFields hparams hitems, arguments, rfl, ?_⟩⟩
    rw [haccepts.given_writtenFields hparams, List.forall₂_map_left_iff, List.forall₂_same]
    intro a ha
    exact Provider.argument_written (haccepts.shaped a ha) (ih a ha)

/-- A provider accepts the same arguments in one order only. -/
theorem Provider.Accepts.eq_of_mem_iff (h : p.Accepts arguments) (hothers : p.Accepts others)
    (hparams : p.paramNames.Nodup) (hmem : ∀ a, a ∈ arguments ↔ a ∈ others) :
    arguments = others := by
  have hfound : Expr.argument? arguments = Expr.argument? others := by
    funext name
    refine Option.ext fun a => ?_
    rw [Expr.argument?_eq_some_iff (h.nodup_names hparams),
      Expr.argument?_eq_some_iff (hothers.nodup_names hparams)]
    exact hmem (name, a)
  rw [← Expr.filterMap_argument? h.ordered hparams, hfound,
    Expr.filterMap_argument? hothers.ordered hparams]

/-- Arguments of the same shape that are written as the same data are equal, if this holds of their
expressions. -/
theorem Argument.eq_of_same {a b : Argument} (hshape : a.isMany = b.isMany)
    (hitems : ∀ e ∈ a.items, ∀ other ∈ b.items, e.resource.Same other.resource → e = other)
    (h : (Expr.resourceOfArgument a).Same (Expr.resourceOfArgument b)) : a = b := by
  cases a with
  | single e =>
    cases b with
    | single other =>
      rw [hitems e (List.mem_singleton_self e) other (List.mem_singleton_self other) h]
    | many items => cases hshape
  | many items =>
    cases b with
    | single other => cases hshape
    | many others =>
      rw [Expr.resourceOfArgument, Expr.resourceOfArgument, Expr.resourceOfAll_eq,
        Expr.resourceOfAll_eq] at h
      cases h with
      | list hall =>
        rw [List.forall₂_map_left_iff, List.forall₂_map_right_iff] at hall
        have hothers : List.Forall₂ (fun e other => other ∈ others ∧
            e.resource.Same other.resource) items others :=
          (forall₂_imp_of_mem hall.flip fun other hother e hsame => ⟨hother, hsame⟩).flip
        have heq : items = others := by
          rw [← List.forall₂_eq_eq_eq]
          exact forall₂_imp_of_mem hothers fun e he other hsame =>
            hitems e he other hsame.1 hsame.2
        rw [heq]

/-- Expressions in canonical form that are written as the same data are equal. -/
theorem Catalogue.Canonical.eq_of_same (hc : c.Coherent) (he : c.Canonical e) {other : Expr}
    (hother : c.Canonical other) (h : e.resource.Same other.resource) : e = other := by
  induction he generalizing other with
  | text s =>
    have htext := h.eq_text
    exact (hother.eq_ofText (congrArg Resource.toValue htext)).symm
  | @call p arguments hp haccepts hitems ih =>
    cases hother with
    | text s => cases h
    | @call q others hq hothers hcanonical =>
      have hnames := haccepts.nodup_written (hc.params hp)
      have hnames' := hothers.nodup_written (hc.params hq)
      rw [Expr.resource_call hnames, Expr.resource_call hnames'] at h
      obtain ⟨htype, hdomain, hsame⟩ := h.of_call
        (by rw [List.map_map]; exact (List.nodup_cons.mp hnames).1)
        (by rw [List.map_map]; exact (List.nodup_cons.mp hnames').1)
      obtain rfl : q = p := Option.some.inj (hq.symm.trans (htype ▸ hp))
      -- under one name the shapes agree, since both are what the parameter asks for
      have hvalue : ∀ {name a b}, (name, a) ∈ arguments → (name, b) ∈ others → a = b := by
        intro name a b ha hb
        refine Argument.eq_of_same ?_ ?_ ?_
        · exact (haccepts.shaped _ ha).trans (hothers.shaped _ hb).symm
        · exact fun e he other hother => ih _ ha e he (hcanonical _ hb other hother)
        · exact hsame name _ _ (List.mem_map.mpr ⟨_, ha, rfl⟩) (List.mem_map.mpr ⟨_, hb, rfl⟩)
      have hmem : ∀ a, a ∈ arguments ↔ a ∈ others := by
        rintro ⟨name, a⟩
        simp only [List.map_map] at hdomain
        constructor
        · intro ha
          obtain ⟨⟨_, b⟩, hb, rfl⟩ := List.mem_map.mp
            ((hdomain name).mp (List.mem_map.mpr ⟨_, ha, rfl⟩))
          exact hvalue ha hb ▸ hb
        · intro hb
          obtain ⟨⟨_, a⟩, ha, rfl⟩ := List.mem_map.mp
            ((hdomain name).mpr (List.mem_map.mpr ⟨_, hb, rfl⟩))
          exact hvalue ha hb ▸ ha
      rw [haccepts.eq_of_mem_iff hothers (List.nodup_cons.mp (hc.params hp)).2 hmem]

end VariableOrder
