import VariableOrder.Proofs.Provider.Choice

/-!
# What an accepted call depends on

The place at which something is built is told in messages only, so what is built somewhere is built
to the same expression anywhere. An accepted call depends on what is given and not null under the
names of its parameters, and on nothing else about what it is given.
-/

set_option autoImplicit false

namespace VariableOrder

open Data (Value Record)

variable {c : Catalogue} {p : Provider} {fields others : Record Given}

/-- What is built at one place is built to the same argument at another one, if that holds of all
that it is built from. -/
theorem Provider.argument_of_argument {place other name : String} {g : Given}
    {a : String × Argument}
    (hparts : ∀ part ∈ p.partsOf place name g, ∀ e, c.buildGiven part.1 part.2 = .ok e →
      ∀ here, c.buildGiven here part.2 = .ok e)
    (h : p.argument place (name, c.givenParam g) = .ok a) :
    p.argument other (name, c.givenParam g) = .ok a := by
  obtain ⟨hname, hshape, hitems⟩ := argument_eq_ok_iff.mp h
  refine argument_eq_ok_iff.mpr ⟨hname, hshape, ?_⟩
  have hsame := forall₂_imp_of_mem hitems hparts
  unfold partsOf at hsame ⊢
  split_ifs at hsame ⊢
  · rw [List.forall₂_map_left_iff] at hsame ⊢
    exact hsame.imp fun part e he => he _
  · generalize a.2.items = items at hsame ⊢
    cases hsame with
    | cons hfirst hrest =>
      cases hrest
      exact .cons (hfirst _) .nil

/-- What is given is built to the same expression at any place. -/
theorem Catalogue.buildGiven_of_buildGiven {place : String} {g : Given} {e : Expr}
    (h : c.buildGiven place g = .ok e) (other : String) : c.buildGiven other g = .ok e := by
  -- The parts of the call that a record makes are smaller than the record.
  induction hsize : sizeOf g using Nat.strong_induction_on generalizing place other g e with
  | _ n ih =>
    cases g with
    | built inner => exact h
    | raw v =>
      by_cases hrecord : ∃ entries, v = .record entries
      · obtain ⟨entries, rfl⟩ := hrecord
        obtain ⟨kind, hkind, hne, hcall⟩ := build_record_eq_ok_iff.mp h
        obtain ⟨p, hp, hcall⟩ := call_eq_ok_iff.mp hcall
        obtain ⟨hadmits, arguments, rfl, hall⟩ := Provider.call_eq_ok_iff.mp hcall
        refine build_record_eq_ok_iff.mpr ⟨kind, hkind, hne, call_eq_ok_iff.mpr ⟨p, hp, ?_⟩⟩
        refine Provider.call_eq_ok_iff.mpr ⟨hadmits, arguments, rfl, ?_⟩
        refine forall₂_imp_of_mem hall ?_
        intro f hf a ha
        refine Provider.argument_of_argument ?_ ha
        intro part hpart e he here
        have hmem : part ∈ p.parts place (nestedFields entries) :=
          List.mem_flatMap.mpr ⟨f, hf, hpart⟩
        exact ih _ (hsize ▸ sizeOf_of_mem_parts hmem) he here rfl
      · have hother := not_exists.mp hrecord
        exact (build_eq_ok_iff_of_ne hother).mpr ((build_eq_ok_iff_of_ne hother).mp h)

/-- A provider admits whatever has the same values, if it is given under the names of parameters.
Null counts as no value. -/
theorem Provider.Admits.of_get?_iff (h : p.Admits fields)
    (hnamed : ∀ f ∈ others, ∃ name ∈ p.paramNames, f.1 = .text name)
    (hget : ∀ name g, g.isNull = false →
      (others.get? name = some g ↔ fields.get? name = some g)) : p.Admits others := by
  refine ⟨hnamed, ?_, ?_, ?_⟩
  · intro name hname
    obtain ⟨g, hg, hnull⟩ := h.required name hname
    exact ⟨g, (hget name g hnull).mpr hg, hnull⟩
  · intro choice hchoice s hs
    exact h.allowed choice hchoice s ((hget _ _ rfl).mp hs)
  · intro name hname hlist g hg
    cases hnull : g.isNull with
    | false => exact h.single name hname hlist g ((hget name g hnull).mp hg)
    | true =>
      cases g with
      | built e => cases hnull
      | raw v => cases v <;> first | rfl | cases hnull

/-- A call that is accepted is accepted anywhere for whatever has the same values. -/
theorem Provider.call_of_get?_iff {place : String} {e : Expr}
    (h : p.call (c.givenParams fields) place = .ok e)
    (hnamed : ∀ f ∈ others, ∃ name ∈ p.paramNames, f.1 = .text name)
    (hget : ∀ name g, g.isNull = false →
      (others.get? name = some g ↔ fields.get? name = some g)) (other : String) :
    p.call (c.givenParams others) other = .ok e := by
  obtain ⟨hadmits, arguments, rfl, hall⟩ := call_eq_ok_iff.mp h
  have hgiven : p.given others = p.given fields := by
    unfold given
    refine List.filterMap_congr fun name _ => congrArg _ (Option.ext fun g => ?_)
    simp only [Option.filter_eq_some_iff, Bool.not_eq_true']
    exact and_congr_left (hget name g)
  refine call_eq_ok_iff.mpr ⟨hadmits.of_get?_iff hnamed hget, arguments, rfl, ?_⟩
  rw [hgiven]
  exact hall.imp fun f a ha => argument_of_argument
    (fun part _ e he here => Catalogue.buildGiven_of_buildGiven he here) ha

end VariableOrder
