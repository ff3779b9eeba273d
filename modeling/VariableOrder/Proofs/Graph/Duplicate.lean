import VariableOrder.Proofs.Graph.References

/-!
# Repeated names

A graph is refused for a repeated name before anything else is looked at. In the order of
declaration the first definition whose name stands in front of it already is reported, together with
the first definition of that name. So only the names and the places of the definitions count, and
of the two places the first is never behind the second.
-/

set_option autoImplicit false

namespace VariableOrder

namespace Definition

variable {definitions others ordered : List Definition}

/-- Whether a list holds the definitions in the order of declaration: ascending by the places where
they are declared, and at each place in the order in which they were given. -/
structure InDeclarationOrder (definitions ordered : List Definition) : Prop where
  ascending : ordered.Pairwise fun a b => a.sourceOrder ≤ b.sourceOrder
  stable : ∀ place : Int, (ordered.filter fun d => d.sourceOrder = place) =
    definitions.filter fun d => d.sourceOrder = place

/-- Whether the name of the definition at a position stands in front of it already. -/
def RepeatsAt (ordered : List Definition) (j : Nat) : Prop :=
  ∃ i < j, ∃ a d, ordered[i]? = some a ∧ ordered[j]? = some d ∧ a.name = d.name

/-- Whether a definition is the first one that repeats a name, and another one the first of that
name. -/
def FirstClash (ordered : List Definition) (earlier repeated : Definition) : Prop :=
  ∃ i j, i < j ∧ ordered[i]? = some earlier ∧ ordered[j]? = some repeated ∧
    earlier.name = repeated.name ∧
    (∀ k < i, ∀ d, ordered[k]? = some d → d.name ≠ repeated.name) ∧
    ∀ k < j, ¬ RepeatsAt ordered k

/-- The sort by places is stable. -/
theorem inDeclarationOrder_declared (definitions : List Definition) :
    InDeclarationOrder definitions (declared definitions) := by
  refine ⟨pairwise_sourceOrder_declared definitions, ?_⟩
  intro place
  let here : Definition → Bool := fun d => d.sourceOrder = place
  have hequal : (definitions.filter here).Pairwise
      fun a b => decide (a.sourceOrder ≤ b.sourceOrder) = true := by
    rw [List.pairwise_iff_forall_sublist]
    intro a b hab
    have ha : a ∈ definitions.filter here := hab.subset (by simp)
    have hb : b ∈ definitions.filter here := hab.subset (by simp)
    simp only [here, List.mem_filter, decide_eq_true_eq] at ha hb
    rw [decide_eq_true_eq, ha.2, hb.2]
  have hsub : (definitions.filter here).Sublist (declared definitions) := by
    apply List.sublist_mergeSort _ _ hequal List.filter_sublist
    · intro a b c hab hbc
      rw [decide_eq_true_eq] at hab hbc ⊢
      exact le_trans hab hbc
    · intro a b
      rw [Bool.or_eq_true, decide_eq_true_eq, decide_eq_true_eq]
      exact le_total _ _
  -- no more of them are in the sorted list than in the given one
  have hsub' : (definitions.filter here).Sublist ((declared definitions).filter here) := by
    have hfilter := hsub.filter here
    simpa only [List.filter_filter, Bool.and_self] using hfilter
  exact (hsub'.eq_of_length ((declared_perm definitions).filter here).length_eq.symm).symm

/-- Nothing is repeated exactly when the names are distinct. -/
theorem nodup_names_iff :
    (ordered.map (·.name)).Nodup ↔ ∀ j, ¬ RepeatsAt ordered j := by
  rw [List.nodup_iff_getElem?_ne_getElem?]
  constructor
  · rintro h j ⟨i, hij, a, d, ha, hd, hname⟩
    have hj := (List.getElem?_eq_some_iff.mp hd).1
    apply h i j hij (by rwa [List.length_map])
    rw [List.getElem?_map, List.getElem?_map, ha, hd, Option.map_some, Option.map_some, hname]
  · intro h i j hij hj hsame
    rw [List.length_map] at hj
    have hi : i < ordered.length := lt_trans hij hj
    rw [List.getElem?_map, List.getElem?_map, List.getElem?_eq_getElem hi,
      List.getElem?_eq_getElem hj, Option.map_some, Option.map_some] at hsame
    exact h j ⟨i, hij, ordered[i], ordered[j], List.getElem?_eq_getElem hi,
      List.getElem?_eq_getElem hj, Option.some.inj hsame⟩

/-- What stands behind a definition does not count for whether it repeats a name. -/
theorem repeatsAt_append_iff {front after : List Definition} {k : Nat} (hk : k < front.length) :
    RepeatsAt (front ++ after) k ↔ RepeatsAt front k := by
  unfold RepeatsAt
  refine exists_congr fun i => and_congr_right fun hik => ?_
  rw [List.getElem?_append_left hk, List.getElem?_append_left (lt_trans hik hk)]

/-- What is found as a repetition is the first clash. -/
theorem firstClash_of_firstDuplicate {seen rest : List Definition} {name : String}
    {first second : Int} (hseen : (seen.map (·.name)).Nodup)
    (h : firstDuplicate seen rest = some (name, first, second)) :
    ∃ earlier repeated, FirstClash (seen ++ rest) earlier repeated ∧ name = repeated.name ∧
      first = earlier.sourceOrder ∧ second = repeated.sourceOrder := by
  induction rest generalizing seen with
  | nil => cases h
  | cons d rest ih =>
    unfold firstDuplicate at h
    cases hfind : seen.find? fun e => e.name == d.name with
    | some e =>
      rw [hfind] at h
      obtain ⟨rfl, rfl, rfl⟩ : d.name = name ∧ e.sourceOrder = first ∧ d.sourceOrder = second := by
        simpa using h
      obtain ⟨hname, i, hi, he, hbefore⟩ := List.find?_eq_some_iff_getElem.mp hfind
      refine ⟨e, d, ⟨i, seen.length, hi, ?_, ?_, by simpa using hname, ?_, ?_⟩, rfl, rfl, rfl⟩
      · rw [List.getElem?_append_left hi, List.getElem?_eq_getElem hi, he]
      · rw [List.getElem?_append_right le_rfl, Nat.sub_self]
        rfl
      · intro k hk a ha
        rw [List.getElem?_append_left (lt_trans hk hi),
          List.getElem?_eq_getElem (lt_trans hk hi)] at ha
        have hne := hbefore k hk
        rw [Option.some.inj ha] at hne
        simpa using hne
      · intro k hk
        rw [repeatsAt_append_iff hk]
        exact nodup_names_iff.mp hseen k
    | none =>
      rw [hfind] at h
      have hclash := ih (nodup_names_concat hseen hfind) h
      rwa [List.append_assoc, List.singleton_append] at hclash

/-- The first definition of the name is not declared behind the one that repeats it. -/
theorem FirstClash.le {earlier repeated : Definition} (h : FirstClash ordered earlier repeated)
    (hordered : InDeclarationOrder definitions ordered) :
    earlier.sourceOrder ≤ repeated.sourceOrder := by
  obtain ⟨i, j, hij, hi, hj, -⟩ := h
  obtain ⟨hi', rfl⟩ := List.getElem?_eq_some_iff.mp hi
  obtain ⟨hj', rfl⟩ := List.getElem?_eq_some_iff.mp hj
  exact List.pairwise_iff_getElem.mp hordered.ascending i j hi' hj' hij

/-- What repetitions are told by: the name of a definition and the place where it is declared. -/
def heading (d : Definition) : String × Int :=
  (d.name, d.sourceOrder)

/-- The order of declaration is one of headings. -/
theorem map_heading_declared (definitions : List Definition) :
    (declared definitions).map heading =
      (definitions.map heading).mergeSort fun a b => a.2 ≤ b.2 := by
  apply List.map_mergeSort
  intro a _ b _
  rfl

/-- What stands first under a name is told from the headings alone. -/
theorem map_heading_find? (definitions : List Definition) (name : String) :
    (definitions.find? fun d => d.name == name).map heading =
      (definitions.map heading).find? fun h => h.1 == name := by
  rw [List.find?_map]
  rfl

/-- Definitions with the same headings repeat a name at the same places. -/
theorem firstDuplicate_eq_of_headings {seen seenOthers : List Definition}
    (hseen : seenOthers.map heading = seen.map heading)
    (h : others.map heading = definitions.map heading) :
    firstDuplicate seenOthers others = firstDuplicate seen definitions := by
  induction definitions generalizing seen seenOthers others with
  | nil =>
    rw [List.map_nil, List.map_eq_nil_iff] at h
    rw [h]
    rfl
  | cons d rest ih =>
    obtain ⟨e, others, rfl, hhead, hrest⟩ := List.map_eq_cons_iff.mp h
    obtain ⟨hname, hplace⟩ := Prod.mk.inj hhead
    have hfind : (seenOthers.find? fun a => a.name == d.name).map heading =
        (seen.find? fun a => a.name == d.name).map heading := by
      rw [map_heading_find?, map_heading_find?, hseen]
    unfold firstDuplicate
    rw [hname, hplace]
    cases hfound : seen.find? fun a => a.name == d.name with
    | none =>
      rw [hfound, Option.map_none, Option.map_eq_none_iff] at hfind
      rw [hfind]
      apply ih _ hrest
      rw [List.map_append, List.map_append, hseen, List.map_singleton, List.map_singleton, hhead]
    | some a =>
      rw [hfound, Option.map_some, Option.map_eq_some_iff] at hfind
      obtain ⟨b, hb, hab⟩ := hfind
      rw [hb]
      show some (d.name, b.heading.2, d.sourceOrder) = some (d.name, a.heading.2, d.sourceOrder)
      rw [hab]

end Definition

namespace Graph

open Definition (declared heading)

variable {definitions others : List Definition} {name : String} {first second : Int}

/-- Building fails for a repeated name exactly as the search for one does, in the order of
declaration. -/
theorem build_eq_duplicate_iff : build definitions = .error (.duplicate name first second) ↔
    Definition.firstDuplicate [] (declared definitions) = some (name, first, second) := by
  rw [build_eq]
  cases Definition.firstDuplicate [] (declared definitions) with
  | some found => simp [Prod.ext_iff]
  | none =>
    cases (declared definitions).findSome? Definition.firstUnsupported with
    | some raw => simp
    | none => simp

/-- Building fails for a repeated name exactly when some definition repeats one. -/
theorem exists_duplicate_iff :
    (∃ name first second, build definitions = .error (.duplicate name first second)) ↔
      ∃ j, Definition.RepeatsAt definitions j := by
  constructor
  · rintro ⟨name, first, second, h⟩
    rw [build_eq_duplicate_iff] at h
    by_contra hnone
    have hnodup := Definition.nodup_names_iff.mpr (not_exists.mp hnone)
    have hfound : Definition.firstDuplicate [] (declared definitions) = none :=
      (Definition.firstDuplicate_eq_none_iff [] _ (by simp)).mpr (Definition.nodup_declared hnodup)
    rw [h] at hfound
    cases hfound
  · rintro ⟨j, hj⟩
    exact build_of_not_nodup fun hnodup => Definition.nodup_names_iff.mp hnodup j hj

/-- Whether and how building fails for a repeated name is told from the headings alone. -/
theorem build_eq_duplicate_of_headings (h : others.map heading = definitions.map heading) :
    build others = .error (.duplicate name first second) ↔
      build definitions = .error (.duplicate name first second) := by
  have hdeclared : (declared others).map heading = (declared definitions).map heading := by
    rw [Definition.map_heading_declared, Definition.map_heading_declared, h]
  rw [build_eq_duplicate_iff, build_eq_duplicate_iff,
    Definition.firstDuplicate_eq_of_headings rfl hdeclared]

end Graph

/-- A builder reports a repeated name exactly when two definitions have the same name. The report is
about the first clash in the order of declaration: it has the name, the place of the first
definition of that name and then the place of the one that repeats it. It is the same for all
definitions with the same names and places, and the builder is left as it was. -/
theorem GraphBuilder.build_duplicate (b : GraphBuilder) :
    ((∃ name first second, b.build.1 = .error (.duplicate name first second)) ↔
      ∃ j, Definition.RepeatsAt b.definitions j) ∧
    ∀ name first second, b.build.1 = .error (.duplicate name first second) →
      (∃ ordered earlier repeated, Definition.InDeclarationOrder b.definitions ordered ∧
        Definition.FirstClash ordered earlier repeated ∧ name = repeated.name ∧
        first = earlier.sourceOrder ∧ second = repeated.sourceOrder) ∧
      first ≤ second ∧
      (∀ other : GraphBuilder,
        other.definitions.map Definition.heading = b.definitions.map Definition.heading →
          other.build.1 = .error (.duplicate name first second)) ∧
      b.build.2 = b := by
  have hbuild : ∀ (other : GraphBuilder) name first second,
      other.build.1 = .error (.duplicate name first second) ↔
        Graph.build other.definitions = .error (.duplicate name first second) := by
    intro other name first second
    cases h : Graph.build other.definitions with
    | ok g => simp [build_of_ok h]
    | error f => simp [build_of_error h]
  simp only [hbuild]
  refine ⟨Graph.exists_duplicate_iff, ?_⟩
  intro name first second h
  have hordered := Definition.inDeclarationOrder_declared b.definitions
  obtain ⟨earlier, repeated, hclash, hname, hfirst, hsecond⟩ :=
    Definition.firstClash_of_firstDuplicate (by simp) (Graph.build_eq_duplicate_iff.mp h)
  refine ⟨⟨_, earlier, repeated, hordered, hclash, hname, hfirst, hsecond⟩, ?_, ?_, ?_⟩
  · rw [hfirst, hsecond]
    exact hclash.le hordered
  · intro other hheadings
    exact (Graph.build_eq_duplicate_of_headings hheadings).mpr h
  · rw [build_of_error h]

/-- Of the names that are declared more than once the one is reported that is repeated first, with
the first two of its three places. A raw value in the place of an expression does not matter. -/
theorem GraphBuilder.build_duplicate_tied :
    let definitions (value : Expr) : List Definition :=
      [.ofValues "late" [value] 7 false none, .ofValues "twice" [value] 2 true none,
        .ofValues "other" [value] 2 false none, .ofValues "other" [value] 4 false none,
        .ofValues "twice" [value] 2 false none, .ofValues "late" [value] 1 true none,
        .ofValues "twice" [value] 1 false none]
    let failure := BuildFailure.duplicate "twice" 1 2
    let old : Warning := ⟨"old", "gone"⟩
    let b : GraphBuilder := ⟨definitions (.ofText "$other"), [], [old], none⟩
    let raw : GraphBuilder := ⟨definitions (.unsupported .null), ["other"], [], some 3⟩
    b.build.1 = .error failure ∧ b.build.2.warnings = [old] ∧ raw.build.1 = .error failure := by
  intro definitions failure old b raw
  have hfound : Definition.firstDuplicate [] (Definition.declared (definitions (.ofText "$other"))) =
      some ("twice", 1, 2) := by
    simp [definitions, Definition.declared, List.mergeSort, Definition.ofValues,
      List.MergeSort.Internal.splitInTwo, Definition.firstDuplicate]
  have hbuild : b.build.1 = .error failure := by
    rw [build_of_error (Graph.build_eq_duplicate_iff.mpr hfound)]
  obtain ⟨-, hreport⟩ := build_duplicate b
  obtain ⟨-, -, hsame, hback⟩ := hreport "twice" 1 2 hbuild
  refine ⟨hbuild, ?_, hsame raw rfl⟩
  rw [hback]

end VariableOrder
