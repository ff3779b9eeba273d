import VariableOrder.Proofs.Data.Plain
import VariableOrder.Proofs.Expression.Text
import VariableOrder.Proofs.Provider.Argument

/-!
# Names mentioned in raw data

A raw value mentions a name when one of its texts refers to it, at any depth: in the value itself,
in an item of a list, or in what a nested record gives to its provider. The expression that a value
is built to refers to exactly the names that the value mentions, and it holds no raw value.
-/

set_option autoImplicit false

namespace VariableOrder

open Data (Value Record)
open Placeholder (Part Reference)

/-- Whether a reference to a name that is not external occurs in an expression. -/
def Expr.RefersTo (e : Expr) (name : String) : Prop :=
  ∃ r : Reference, Occurs (.reference r) e ∧ r.external = false ∧ r.name = name

/-- Whether some text in a raw value refers to a name, at any depth. The name of the provider of a
nested record does not count. -/
inductive Data.Value.Mentions (name : String) : Value → Prop where
  | text {s : String} {r : Reference} (h : Part.reference r ∈ Placeholder.parts s)
      (hexternal : r.external = false) (hname : r.name = name) : Mentions name (.text s)
  | item {items : List Value} {v : Value} (hitem : v ∈ items) (h : Mentions name v) :
      Mentions name (.list items)
  | field {entries : Record Value} {key v : Value} (hfield : (key, v) ∈ entries)
      (hkey : key ≠ .text Catalogue.providerKey) (h : Mentions name v) :
      Mentions name (.record entries)

namespace Given

/-- Whether what is given mentions a name: as raw data, or as a reference of an expression. -/
def Mentions (name : String) : Given → Prop
  | .raw v => v.Mentions name
  | .built e => e.RefersTo name

/-- Whether what is given is plain data or an expression without a raw value. -/
def Sound : Given → Prop
  | .raw v => v.Simple
  | .built e => e.WellFormed

/-- What is given is mirrored by an expression that refers to exactly what it mentions and holds no
raw value. -/
structure Mirrors (g : Given) (e : Expr) : Prop where
  refersTo_iff : ∀ name, e.RefersTo name ↔ g.Mentions name
  wellFormed : e.WellFormed

/-- The items of something sound are sound. -/
theorem Sound.of_mem_items {g item : Given} (h : g.Sound) (hitem : item ∈ g.items) :
    item.Sound := by
  rcases eq_of_mem_items hitem with rfl | ⟨items, v, rfl, hv, rfl⟩ | ⟨rfl, -⟩
  · exact h
  · cases h with
    | list hall => exact hall v hv
  · cases h

/-- A list mentions what its items mention. -/
theorem exists_mentions_items_iff {g : Given} (h : g.Sound) (name : String) :
    (∃ item ∈ g.items, item.Mentions name) ↔ g.Mentions name := by
  have hself : g.items = [g] →
      ((∃ item ∈ g.items, item.Mentions name) ↔ g.Mentions name) := by
    intro hitems
    simp [hitems]
  cases g with
  | built e => exact hself rfl
  | raw v =>
    cases v with
    | list items =>
      constructor
      · rintro ⟨item, hitem, hmentions⟩
        obtain ⟨v, hv, rfl⟩ := List.mem_map.mp hitem
        exact .item hv hmentions
      · intro hmentions
        cases hmentions with
        | item hv hmentions => exact ⟨_, List.mem_map_of_mem hv, hmentions⟩
    | again kind => cases h
    | _ => exact hself rfl

/-- Nothing is mentioned by null. -/
theorem not_mentions_of_isNull {g : Given} (h : g.isNull = true) (name : String) :
    ¬ g.Mentions name := by
  cases g with
  | built e => cases h
  | raw v =>
    cases v with
    | null =>
      intro hmentions
      cases hmentions
    | _ => cases h

end Given

namespace Expr

/-- An expression other than a reference refers to what one of its children refers to. -/
theorem refersTo_step {e : Expr} (h : ∀ r, e ≠ .reference r) (name : String) :
    e.RefersTo name ↔ ∃ child ∈ e.children, child.RefersTo name := by
  unfold RefersTo
  constructor
  · rintro ⟨r, hoccurs, hr⟩
    cases hoccurs with
    | itself => exact absurd rfl (h r)
    | inside hchild hoccurs => exact ⟨_, hchild, r, hoccurs, hr⟩
  · rintro ⟨child, hchild, r, hoccurs, hr⟩
    exact ⟨r, .inside hchild hoccurs, hr⟩

/-- An expression other than a raw value is well-formed exactly when all its children are. -/
theorem wellFormed_step {e : Expr} (h : ∀ raw, e ≠ .unsupported raw) :
    e.WellFormed ↔ ∀ child ∈ e.children, child.WellFormed := by
  unfold WellFormed
  constructor
  · intro hwellFormed child hchild raw hoccurs
    exact hwellFormed raw (.inside hchild hoccurs)
  · intro hall raw hoccurs
    cases hoccurs with
    | itself => exact h raw rfl
    | inside hchild hoccurs => exact hall _ hchild raw hoccurs

/-- A text refers to the names of those of its placeholders that are not external. -/
theorem refersTo_ofText_iff (text name : String) :
    (ofText text).RefersTo name ↔
      ∃ r, Part.reference r ∈ Placeholder.parts text ∧ r.external = false ∧ r.name = name := by
  simp only [RefersTo, ← mem_references_iff, mem_references_ofText]

end Expr

/-- The expression of a text refers to what the text mentions. -/
theorem Given.mirrors_text (s : String) : (Given.raw (.text s)).Mirrors (.ofText s) := by
  refine ⟨?_, Expr.wellFormed_ofText s⟩
  intro name
  rw [Expr.refersTo_ofText_iff]
  constructor
  · rintro ⟨r, hr, hexternal, hname⟩
    exact .text hr hexternal hname
  · intro hmentions
    cases hmentions with
    | text hr hexternal hname => exact ⟨_, hr, hexternal, hname⟩

/-- The expression of a text without a dollar sign mirrors what mentions nothing. -/
theorem Given.mirrors_of_not_mentions {g : Given} {text : String} (h : '$' ∉ text.toList)
    (hg : ∀ name, ¬ g.Mentions name) : g.Mirrors (.ofText text) := by
  refine ⟨?_, Expr.wellFormed_ofText text⟩
  intro name
  rw [Expr.refersTo_ofText_iff]
  refine iff_of_false ?_ (hg name)
  rintro ⟨r, hr, -⟩
  exact Placeholder.reference_not_mem_parts h r hr

/-- Plain data that is a scalar is mirrored by its expression. -/
theorem Catalogue.mirrors_scalarExpr {v : Value} {place : String} {e : Expr} (hv : v.Simple)
    (hlist : ∀ items, v ≠ .list items) (hrecord : ∀ entries, v ≠ .record entries)
    (h : scalarExpr v place = .ok e) : (Given.raw v).Mirrors e := by
  have hwritten : ∀ w : Value, v = w → (∀ name, ¬ w.Mentions name) → '$' ∉ w.plain.toList →
      (if w.isWritable then .ok (.ofText w.plain) else .error (.problem place .numberTooLong)) =
        (.ok e : Except CallFailure Expr) → (Given.raw v).Mirrors e := by
    rintro w rfl hmentions hdollar hw
    split_ifs at hw
    obtain rfl := Except.ok.inj hw
    exact Given.mirrors_of_not_mentions hdollar hmentions
  cases hv with
  | null =>
    obtain rfl := Except.ok.inj h
    refine Given.mirrors_of_not_mentions (by decide) ?_
    intro name hmentions
    cases hmentions
  | flag b =>
    obtain rfl := Except.ok.inj h
    refine Given.mirrors_of_not_mentions (by cases b <;> decide) ?_
    intro name hmentions
    cases hmentions
  | integer n =>
    refine hwritten _ rfl ?_ (Number.dollar_not_mem_toString n) h
    intro name hmentions
    cases hmentions
  | fraction x =>
    refine hwritten _ rfl ?_ (Number.dollar_not_mem_floatText x) h
    intro name hmentions
    cases hmentions
  | text s =>
    obtain rfl : Expr.ofText s = e := by
      simpa [scalarExpr, Value.isWritable, Value.plain] using h
    exact Given.mirrors_text s
  | list => exact absurd rfl (hlist _)
  | record => exact absurd rfl (hrecord _)

/-- What is given for a call with distinct names, all of it sound. -/
structure Given.AllSound (fields : Record Given) : Prop where
  distinct : fields.Distinct
  sound : ∀ f ∈ fields, f.2.Sound

section Call

variable {c : Catalogue} {place : String} {fields : Record Given} {e : Expr}

/-- The expression of a call refers to what is mentioned in anything that is given for it, if the
expressions of its parts mirror them. -/
theorem Provider.refersTo_call_iff {p : Provider} (hfields : Given.AllSound fields)
    (hparts : ∀ part ∈ p.parts place fields, ∀ child,
      c.buildGiven part.1 part.2 = .ok child → part.2.Mirrors child)
    (h : p.call (c.givenParams fields) place = .ok e) :
    (∀ name, e.RefersTo name ↔ ∃ f ∈ fields, f.2.Mentions name) ∧ e.WellFormed := by
  obtain ⟨hadmits, arguments, rfl, -⟩ := call_eq_ok_iff.mp h
  have hchildren : List.Forall₂ (fun part child => c.buildGiven part.1 part.2 = .ok child)
      (p.parts place fields) (Expr.call p.typeName arguments).children := by
    rw [← mapM_eq_ok_iff, ← children_call c p place (problems_eq_nil_iff_admits.mpr hadmits), h]
    rfl
  constructor
  · intro name
    rw [Expr.refersTo_step (by simp)]
    constructor
    · rintro ⟨child, hchild, hrefers⟩
      obtain ⟨part, hpart, hbuilt⟩ := exists_of_forall₂_right hchildren hchild
      have hmentions := ((hparts part hpart child hbuilt).refersTo_iff name).mp hrefers
      obtain ⟨param, -, g, hget, -, hpartOf⟩ := exists_given_of_mem_parts hpart
      have hmem := Record.mem_of_get? hget
      refine ⟨_, hmem, ?_⟩
      have hof := mem_partsOf_iff.mp ⟨part.1, hpartOf⟩
      split_ifs at hof
      · exact (Given.exists_mentions_items_iff (hfields.sound _ hmem) name).mp
          ⟨part.2, hof, hmentions⟩
      · exact hof ▸ hmentions
    · rintro ⟨⟨key, g⟩, hmem, hmentions⟩
      obtain ⟨param, hparam, rfl⟩ := hadmits.named _ hmem
      have hget := hfields.distinct.get?_of_mem hmem
      have hnull : g.isNull = false := by
        by_contra hnull
        exact Given.not_mentions_of_isNull (by simpa using hnull) name hmentions
      -- some part of what is given under the name mentions it too
      have hpart : ∃ g', (∃ here, (here, g') ∈ p.partsOf place param g) ∧ g'.Mentions name := by
        simp only [mem_partsOf_iff]
        split_ifs
        · exact (Given.exists_mentions_items_iff (hfields.sound _ hmem) name).mpr hmentions
        · exact ⟨g, rfl, hmentions⟩
      obtain ⟨g', ⟨here, hpartOf⟩, hmentions⟩ := hpart
      have hpart := mem_parts hparam hget hnull hpartOf
      obtain ⟨child, hchild, hbuilt⟩ := exists_of_forall₂_left hchildren hpart
      exact ⟨child, hchild, ((hparts _ hpart child hbuilt).refersTo_iff name).mpr hmentions⟩
  · rw [Expr.wellFormed_step (by simp)]
    intro child hchild
    obtain ⟨part, hpart, hbuilt⟩ := exists_of_forall₂_right hchildren hchild
    exact (hparts part hpart child hbuilt).wellFormed

/-- The parts of a call with sound fields are sound. -/
theorem Provider.sound_of_mem_parts {p : Provider} (hfields : Given.AllSound fields)
    {part : String × Given} (h : part ∈ p.parts place fields) : part.2.Sound :=
  of_mem_parts hfields.sound (fun _ _ hg hitem => hg.of_mem_items hitem) h

/-- The fields of a nested call in plain data are sound. -/
theorem allSound_nestedFields {entries : Record Value} (h : (Value.record entries).Simple) :
    Given.AllSound (nestedFields entries) := by
  cases h with
  | record hdistinct _ _ hall =>
    refine ⟨(hdistinct.filter _).map _, ?_⟩
    intro f hf
    obtain ⟨entry, hentry, rfl⟩ := List.mem_map.mp hf
    exact hall entry (List.mem_of_mem_filter hentry)

/-- A record mentions what one of the fields of its call does. -/
theorem exists_mentions_nestedFields_iff {entries : Record Value} (name : String) :
    (∃ f ∈ nestedFields entries, f.2.Mentions name) ↔ (Value.record entries).Mentions name := by
  constructor
  · rintro ⟨f, hf, hmentions⟩
    obtain ⟨⟨key, v⟩, hentry, rfl⟩ := List.mem_map.mp hf
    obtain ⟨hmem, hkey⟩ := Record.mem_without.mp hentry
    exact .field hmem hkey hmentions
  · intro hmentions
    cases hmentions with
    | @field _ key v hmem hkey hmentions =>
      exact ⟨(key, .raw v), List.mem_map.mpr
        ⟨(key, v), Record.mem_without.mpr ⟨hmem, hkey⟩, rfl⟩, hmentions⟩

/-- The expression of what is sound mirrors it. -/
theorem Catalogue.mirrors_buildGiven {g : Given} (hg : g.Sound)
    (h : c.buildGiven place g = .ok e) : g.Mirrors e := by
  -- The parts of the call that a record makes are smaller than the record.
  induction hsize : sizeOf g using Nat.strong_induction_on generalizing place g e with
  | _ n ih =>
    cases g with
    | built inner =>
      obtain rfl := Except.ok.inj h
      exact ⟨fun name => Iff.rfl, hg⟩
    | raw v =>
      by_cases hlist : ∃ items, v = .list items
      · obtain ⟨items, rfl⟩ := hlist
        simp [buildGiven, build] at h
      by_cases hrecord : ∃ entries, v = .record entries
      · obtain ⟨entries, rfl⟩ := hrecord
        obtain ⟨kind, -, -, hcall⟩ := build_record_eq_ok_iff.mp h
        obtain ⟨p, -, hcall⟩ := call_eq_ok_iff.mp hcall
        have hfields := allSound_nestedFields hg
        obtain ⟨hrefers, hwellFormed⟩ := Provider.refersTo_call_iff hfields
          (fun part hpart child hbuilt => ih _ (hsize ▸ sizeOf_of_mem_parts hpart)
            (Provider.sound_of_mem_parts hfields hpart) hbuilt rfl) hcall
        refine ⟨fun name => ?_, hwellFormed⟩
        exact (hrefers name).trans (exists_mentions_nestedFields_iff name)
      · have hscalar : scalarExpr v place = .ok e := by
          cases hg with
          | list => exact absurd ⟨_, rfl⟩ hlist
          | record => exact absurd ⟨_, rfl⟩ hrecord
          | _ => simpa [buildGiven, build] using h
        exact mirrors_scalarExpr hg (fun items hv => hlist ⟨items, hv⟩)
          (fun entries hv => hrecord ⟨entries, hv⟩) hscalar

/-- The expression of a call with sound data refers to exactly what is mentioned there. -/
theorem Catalogue.refersTo_call_iff {kind : String} (hfields : Given.AllSound fields)
    (h : c.call kind (c.givenParams fields) place = .ok e) :
    (∀ name, e.RefersTo name ↔ ∃ f ∈ fields, f.2.Mentions name) ∧ e.WellFormed := by
  obtain ⟨p, -, hcall⟩ := call_eq_ok_iff.mp h
  exact Provider.refersTo_call_iff hfields (fun part hpart child hbuilt =>
    mirrors_buildGiven (Provider.sound_of_mem_parts hfields hpart) hbuilt) hcall

end Call

end VariableOrder
