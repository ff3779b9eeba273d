import VariableOrder.Proofs.Definition.Sifting

/-!
# The list of loaded definitions

Loading lists the accepted static entries, each as a definition of its own, and behind them one
definition for each name among the accepted dynamic entries, in the order in which the names first
appear. The candidates of such a definition are the accepted entries of its name, in their order.
Definitions are numbered as they stand in the list, so nothing tells where an entry was refused.
-/

set_option autoImplicit false

namespace VariableOrder.Definition

open Data (Value Record)

section Listed

variable {accepted : EntryKind → List (String × Candidate)}

/-- What the definitions are, apart from their places. -/
theorem map_listed : ((listed accepted).map fun d => (d.name, d.candidates, d.isStatic)) =
    ((accepted .static).map fun a => (a.1, [a.2], true)) ++
      ((accepted .dynamic).map (·.1)).eraseDups.map fun name =>
        (name, candidatesOf name (accepted .dynamic), false) := by
  rw [listed, List.map_append,
    map_ofStatic fun name candidates isStatic => (name, candidates, isStatic),
    map_ofDynamic fun name candidates isStatic => (name, candidates, isStatic), grouped_eq,
    List.map_map]
  rfl

/-- What stands at a place of a numbered and converted list was converted from that number. -/
theorem exists_of_getElem?_zipIdx_map {α β : Type} {l : List α} {g : α × Nat → β} {i : Nat} {b : β}
    (h : (l.zipIdx.map g)[i]? = some b) : ∃ a, g (a, i) = b := by
  rw [List.getElem?_map, List.getElem?_zipIdx, Option.map_map] at h
  obtain ⟨a, -, hb⟩ := Option.map_eq_some_iff.mp h
  exact ⟨a, by simpa using hb⟩

/-- A definition is declared at the place where it is listed. -/
theorem sourceOrder_listed {i : Nat} {d : Definition} (h : (listed accepted)[i]? = some d) :
    d.sourceOrder = i := by
  have hlength : (ofStatic (accepted .static)).length = (accepted .static).length := by
    simp [ofStatic]
  unfold listed at h
  rw [List.getElem?_append, hlength] at h
  split_ifs at h with hi
  · obtain ⟨a, rfl⟩ := exists_of_getElem?_zipIdx_map h
    rfl
  · obtain ⟨group, rfl⟩ := exists_of_getElem?_zipIdx_map h
    exact congrArg Nat.cast (Nat.add_sub_of_le (Nat.le_of_not_lt hi))

/-- Of two definitions with one name the first is static. -/
theorem pairwise_listed :
    (listed accepted).Pairwise fun d other => d.name = other.name → d.isStatic = true := by
  have hshape : ((listed accepted).map fun d => (d.name, d.candidates, d.isStatic)).Pairwise
      fun d other => d.1 = other.1 → d.2.2 = true := by
    rw [map_listed, List.pairwise_append]
    refine ⟨?_, ?_, ?_⟩
    · exact List.pairwise_map.mpr (List.pairwise_of_forall fun _ _ _ => rfl)
    · refine List.pairwise_map.mpr ?_
      exact (nodup_eraseDups _).imp fun hne heq => absurd heq hne
    · intro d hd other _ _
      obtain ⟨a, -, rfl⟩ := List.mem_map.mp hd
      rfl
  exact List.pairwise_map.mp hshape

end Listed

/-- A definition file with valid parts is loaded as the list of its accepted static entries and of
the names of its accepted dynamic entries, numbered from the front. Any other file in which the same
entries are accepted is loaded as the same definitions, whatever is refused between them; and a name
that is repeated in the list is the one of a static variable. -/
theorem load_listed {c : Catalogue} {earlier : List String} {raw : Record Value} {layout : Layout}
    {ds : Definitions} (hlayout : Layout.ofFields raw = .ok layout)
    (hload : (load c earlier raw).outcome = .ok ds) :
    ∃ accepted : EntryKind → List (String × Candidate),
      (∀ kind, ∃ messages, Sifted c kind 0 (kind.items raw) (accepted kind) messages) ∧
      ((ds.definitions.map fun d => (d.name, d.candidates, d.isStatic)) =
        ((accepted .static).map fun a => (a.1, [a.2], true)) ++
          ((accepted .dynamic).map (·.1)).eraseDups.map fun name =>
            (name, candidatesOf name (accepted .dynamic), false)) ∧
      (∀ (i : Nat) (d : Definition), ds.definitions[i]? = some d → d.sourceOrder = i) ∧
      (∀ other otherLayout, Layout.ofFields other = .ok otherLayout →
        (∀ kind, ∃ messages, Sifted c kind 0 (kind.items other) (accepted kind) messages) →
          (load c earlier other).outcome = .ok ⟨ds.definitions, otherLayout.settings⟩) ∧
      ds.definitions.Pairwise fun d other => d.name = other.name → d.isStatic = true := by
  obtain ⟨accepted, messages, hsifted⟩ := exists_sifted_of_load hlayout hload
  rw [load_of_sifted hlayout hsifted] at hload
  obtain rfl := Except.ok.inj hload
  refine ⟨accepted, fun kind => ⟨_, hsifted kind⟩, map_listed, fun _ _ => sourceOrder_listed, ?_,
    pairwise_listed⟩
  intro other otherLayout hother hsame
  choose others hothers using hsame
  rw [load_of_sifted hother hothers]

/-- Refused entries between the others leave no gap, an entry with blanks around its name joins the
candidates of that name, and a dynamic entry does not join a static one. -/
theorem load_listed_interleaved :
    let entry (fields : List (String × String)) : Value :=
      .record (fields.map fun f => (.text f.1, .text f.2))
    let raw : Record Value :=
      [(.text "variables", .list [entry [], entry [("name", "b")]]),
        (.text "dynamicvariables", .list [entry [("name", "a"), ("value", "1"), ("condition", "x")],
          entry [("name", "c"), ("provider", "none")], entry [("name", "b"), ("value", "2")],
          entry [("name", " a "), ("value", "3"), ("condition", "y")]])]
    ∃ ds, (load .standard [] raw).outcome = .ok ds ∧
      (ds.definitions.map fun d =>
        (d.name, d.candidates.map (·.condition), d.isStatic, d.sourceOrder)) =
          [("b", [none], true, 0), ("a", [some "x", some "y"], false, 1), ("b", [none], false, 2)] ∧
      ds.definitions.Pairwise fun d other => d.name = other.name → d.isStatic = true := by
  intro entry raw
  obtain ⟨layout, hlayout⟩ : ∃ layout, Layout.ofFields raw = .ok layout := ⟨_, rfl⟩
  obtain ⟨ds, hload, hlisted⟩ : ∃ ds, (load .standard [] raw).outcome = .ok ds ∧
      (ds.definitions.map fun d =>
        (d.name, d.candidates.map (·.condition), d.isStatic, d.sourceOrder)) =
          [("b", [none], true, 0), ("a", [some "x", some "y"], false, 1),
            ("b", [none], false, 2)] := ⟨_, rfl, rfl⟩
  obtain ⟨_, -, -, -, -, hrepeated⟩ := load_listed hlayout hload
  exact ⟨ds, hload, hlisted, hrepeated⟩

end VariableOrder.Definition
