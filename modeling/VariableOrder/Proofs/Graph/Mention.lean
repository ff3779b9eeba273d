import VariableOrder.Proofs.Definition.Accepted
import VariableOrder.Proofs.Graph.Build

/-!
# From entries to edges

The graph of a definition file has an edge wherever an entry mentions a declared name, and no other
edge: nothing that is written in the file is lost on the way, and nothing is made up.
-/

set_option autoImplicit false

namespace VariableOrder

open Data (Value Record)

/-- Two names have an edge when both are declared and a definition of the second refers to the
first. -/
theorem Graph.hasEdge_of_build {definitions : List Definition} {g : Graph}
    (h : build definitions = .ok g) (referenced dependent : String) :
    g.hasEdge referenced dependent = true ↔ referenced ∈ definitions.map (·.name) ∧
      ∃ d ∈ definitions, d.name = dependent ∧ d.RefersTo referenced := by
  have hmem : ∀ d, d ∈ definitions ↔
      ∃ i : Nat, (Definition.declared definitions)[i]? = some d := by
    intro d
    rw [← (Definition.declared_perm definitions).mem_iff, List.mem_iff_getElem?]
  rw [(wellFormed_of_build h).hasEdge_iff]
  simp only [edge_of_build h]
  constructor
  · rintro ⟨i, j, rfl, rfl, a, b, ha, hb, hrefers⟩
    rw [name_of_build h ha, name_of_build h hb]
    exact ⟨List.mem_map_of_mem ((hmem a).mpr ⟨i, ha⟩), b, (hmem b).mpr ⟨j, hb⟩, rfl, hrefers⟩
  · rintro ⟨hdeclared, b, hb, rfl, hrefers⟩
    obtain ⟨a, ha, rfl⟩ := List.mem_map.mp hdeclared
    obtain ⟨i, hi⟩ := (hmem a).mp ha
    obtain ⟨j, hj⟩ := (hmem b).mp hb
    exact ⟨i, j, name_of_build h hi, name_of_build h hj, a, b, hi, hj, hrefers⟩

/-- Whether some entry of a definition file declares a name. -/
def Declares (raw : Record Value) (name : String) : Prop :=
  ∃ kind entry, Lists raw kind entry ∧ Names entry name

/-- If the definitions of a file of plain data can be used and have distinct names, then they have a
graph. It has an edge between two names exactly when both are declared and some entry for the second
mentions the first. -/
theorem hasEdge_of_load {c : Catalogue} {earlier : List String} {raw : Record Value}
    {ds : Definitions} (hraw : (Value.record raw).Simple)
    (hload : (Definition.load c earlier raw).definitions? = .ok ds)
    (hnodup : (ds.definitions.map (·.name)).Nodup) :
    ∃ g, Graph.build ds.definitions = .ok g ∧ ∀ referenced dependent,
      g.hasEdge referenced dependent = true ↔ Declares raw referenced ∧ Declares raw dependent ∧
        ∃ kind entry, Lists raw kind entry ∧ Names entry dependent ∧
          kind.Mentions referenced entry := by
  have hreflects := reflects_of_definitions? hraw hload
  have hbuild := Graph.build_eq_ok_iff.mpr ⟨hnodup, hreflects.wellFormed, rfl⟩
  refine ⟨_, hbuild, fun referenced dependent => ?_⟩
  rw [Graph.hasEdge_of_build hbuild, hreflects.mem_names_iff, hreflects.refersTo_iff]
  refine and_congr_right fun _ => ⟨fun h => ⟨?_, h⟩, fun h => h.2⟩
  obtain ⟨kind, entry, hlists, hnames, -⟩ := h
  exact ⟨kind, entry, hlists, hnames⟩

/-- A name in a nested record in a list is not lost, and blanks around a declared name do not
count. -/
theorem hasEdge_of_load_nested :
    let record (fields : List (String × Value)) : Record Value :=
      fields.map fun f => (.text f.1, f.2)
    let nested := record [("provider", .text "env"), ("name", .text "$base")]
    let tool := record [("name", .text "tool"), ("provider", .text "executable"),
      ("executable", .text "run"), ("args", .list [.text "-v", .record nested])]
    let base := record [("name", .text " base ")]
    let raw := record [("variables", .list [.record base]),
      ("dynamicvariables", .list [.record tool])]
    ∃ ds g, (Definition.load .standard [] raw).definitions? = .ok ds ∧
      Graph.build ds.definitions = .ok g ∧ g.hasEdge "base" "tool" = true := by
  intro record nested tool base raw
  have hnested : (Value.record nested).Simple := by
    refine .of_texts (by decide) ?_
    simp only [List.forall_mem_cons]
    exact ⟨.text _, .text _, by simp⟩
  have htool : (Value.record tool).Simple := by
    refine .of_texts (by decide) ?_
    simp only [List.forall_mem_cons]
    refine ⟨.text _, .text _, .text _, .list ?_, by simp⟩
    simp only [List.forall_mem_cons]
    exact ⟨.text _, hnested, by simp⟩
  have hbase : (Value.record base).Simple := by
    refine .of_texts (by decide) ?_
    simp only [List.forall_mem_cons]
    exact ⟨.text _, by simp⟩
  have hraw : (Value.record raw).Simple := by
    refine .of_texts (by decide) ?_
    simp only [List.forall_mem_cons]
    exact ⟨.list (by simpa using hbase), .list (by simpa using htool), by simp⟩
  have hnames : (Definition.load .standard [] raw).definitions?.toOption.map
      (fun ds => ds.definitions.map (·.name)) = some ["base", "tool"] := by
    decide +kernel
  cases hload : (Definition.load .standard [] raw).definitions? with
  | error f =>
    rw [hload] at hnames
    cases hnames
  | ok ds =>
    rw [hload] at hnames
    have hds : ds.definitions.map (·.name) = ["base", "tool"] := Option.some.inj hnames
    obtain ⟨g, hg, hedge⟩ := hasEdge_of_load hraw hload (by rw [hds]; decide)
    refine ⟨ds, g, rfl, hg, (hedge "base" "tool").mpr ⟨?_, ?_, ?_⟩⟩
    · exact ⟨.static, base, ⟨_, rfl, by simp⟩, " base ", rfl, rfl⟩
    · exact ⟨.dynamic, tool, ⟨_, rfl, by simp⟩, "tool", rfl, rfl⟩
    · refine ⟨.dynamic, tool, ⟨_, rfl, by simp⟩, ⟨"tool", rfl, rfl⟩, ?_⟩
      have hmentions : (Value.text "$base").Mentions "base" :=
        .text (r := ⟨"base", false, "$base"⟩) (by decide) rfl rfl
      have hname : (Value.text "name", Value.text "$base") ∈ nested := by
        simp [nested, record]
      have hnestedMentions : (Value.record nested).Mentions "base" :=
        .field hname (by simp [Catalogue.providerKey]) hmentions
      have hargs : (Value.text "args", Value.list [.text "-v", .record nested]) ∈ tool := by
        simp [tool, record]
      exact .parameter hargs (.inr (by decide)) (.item (by simp) hnestedMentions)

end VariableOrder
