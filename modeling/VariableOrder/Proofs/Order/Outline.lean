import VariableOrder.Proofs.Graph.Duplicate
import VariableOrder.Proofs.Order.Numbering

/-!
# Outlines of definitions

Ordering looks at a definition for its name, for the place where it is declared, and for what
collecting its references comes to. How its candidates are written, how many there are, and their
conditions and flags do not matter. So definitions with the same outlines have the same graph and
are answered alike, except that each answer holds the definitions that were asked about.
-/

set_option autoImplicit false

namespace VariableOrder

/-- What ordering sees of a definition. -/
structure Outline where
  name : String
  sourceOrder : Int
  collected : Except Data.Value (List String)

namespace Definition

/-- What ordering sees of a definition: its name, its place, and what it comes to. -/
def outline (d : Definition) : Outline :=
  ⟨d.name, d.sourceOrder, d.collected⟩

/-- Definitions with the same outline stumble over the same raw value. -/
theorem firstUnsupported_eq_of_outline {d e : Definition} (h : e.outline = d.outline) :
    e.firstUnsupported = d.firstUnsupported := by
  have hcollected : e.collected = d.collected := congrArg Outline.collected h
  unfold collected at hcollected
  cases he : e.firstUnsupported with
  | none =>
    cases hd : d.firstUnsupported with
    | none => rfl
    | some raw => simp only [he, hd, reduceCtorEq] at hcollected
  | some raw =>
    cases hd : d.firstUnsupported with
    | none => simp only [he, hd, reduceCtorEq] at hcollected
    | some other =>
      simp only [he, hd, Except.error.injEq] at hcollected
      rw [hcollected]

/-- Definitions with the same outline need the same names. -/
theorem needs_eq_of_outline {d e : Definition} (h : e.outline = d.outline)
    (hd : d.firstUnsupported = none) : e.needs = d.needs := by
  have he := (firstUnsupported_eq_of_outline h).trans hd
  have hcollected : e.collected = d.collected := congrArg Outline.collected h
  simpa only [collected, he, hd, Except.ok.injEq] using hcollected

/-- The order of declaration is one of outlines. -/
theorem map_outline_declared (definitions : List Definition) :
    (declared definitions).map outline =
      (definitions.map outline).mergeSort fun a b => a.sourceOrder ≤ b.sourceOrder := by
  refine List.map_mergeSort ?_
  intro a _ b _
  rfl

section SameOutlines

/-- Whether the definitions of two lists have the same outlines, place by place. -/
abbrev SameOutlines (others definitions : List Definition) : Prop :=
  List.Forall₂ (fun e d => e.outline = d.outline) others definitions

variable {definitions others : List Definition}

/-- Two lists have the same outlines exactly when their lists of outlines are the same. -/
theorem sameOutlines_iff :
    SameOutlines others definitions ↔ others.map outline = definitions.map outline := by
  rw [← List.forall₂_eq_eq_eq, List.forall₂_map_left_iff, List.forall₂_map_right_iff]

/-- Well-formed definitions have the same outlines when they have the same names and places and need
the same names. -/
theorem sameOutlines_of_needs (hothers : ∀ e ∈ others, e.WellFormed)
    (hdefinitions : ∀ d ∈ definitions, d.WellFormed)
    (h : others.map (fun e => (e.name, e.sourceOrder, e.needs)) =
      definitions.map fun d => (d.name, d.sourceOrder, d.needs)) :
    SameOutlines others definitions := by
  have houtline : ∀ list : List Definition, (∀ d ∈ list, d.WellFormed) → list.map outline =
      (list.map fun d => (d.name, d.sourceOrder, d.needs)).map fun t => ⟨t.1, t.2.1, .ok t.2.2⟩ := by
    intro list hlist
    rw [List.map_map]
    refine List.map_congr_left fun d hd => ?_
    have hnone := (firstUnsupported_eq_none_iff d).mpr (hlist d hd)
    simp only [outline, collected, hnone, Function.comp_apply]
  rw [sameOutlines_iff, houtline others hothers, houtline definitions hdefinitions, h]

/-- The order of declaration keeps outlines the same. -/
theorem SameOutlines.declared (h : SameOutlines others definitions) :
    SameOutlines (declared others) (declared definitions) := by
  rw [sameOutlines_iff] at h ⊢
  rw [map_outline_declared, map_outline_declared, h]

/-- Definitions with the same outlines have the same headings. -/
theorem SameOutlines.headings (h : SameOutlines others definitions) :
    others.map heading = definitions.map heading := by
  have hmap : ∀ list : List Definition,
      list.map heading = (list.map outline).map fun o => (o.name, o.sourceOrder) := fun list => by
    rw [List.map_map]
    rfl
  rw [hmap, hmap, sameOutlines_iff.mp h]

/-- Names are found at the same positions among definitions with the same outlines. -/
theorem SameOutlines.position? (h : SameOutlines others definitions) :
    position? others = position? definitions := by
  funext name
  have hposition : ∀ list : List Definition, Definition.position? list name =
      (list.map outline).findIdx? fun o => o.name == name := fun list => by
    rw [List.findIdx?_map]
    rfl
  rw [hposition, hposition, sameOutlines_iff.mp h]

/-- Lists with the same outlines stumble over the same raw value first. -/
theorem SameOutlines.findSome?_firstUnsupported (h : SameOutlines others definitions) :
    others.findSome? firstUnsupported = definitions.findSome? firstUnsupported := by
  induction h with
  | nil => rfl
  | cons hhead _ ih =>
    rw [List.findSome?_cons, List.findSome?_cons, firstUnsupported_eq_of_outline hhead, ih]

/-- Definitions with the same outlines have the same nodes. -/
theorem SameOutlines.map_node (h : SameOutlines others definitions)
    (hcollects : definitions.findSome? firstUnsupported = none) (list : List Definition) :
    others.map (node list) = definitions.map (node list) := by
  rw [List.findSome?_eq_none_iff] at hcollects
  induction h with
  | nil => rfl
  | @cons e d others definitions hhead htail ih =>
    have hneeds := needs_eq_of_outline hhead (hcollects d List.mem_cons_self)
    have hname : e.name = d.name := congrArg Outline.name hhead
    have hplace : e.sourceOrder = d.sourceOrder := congrArg Outline.sourceOrder hhead
    have hnode : node list e = node list d := by
      simp only [node, nodeOf, hname, hplace, hneeds]
    rw [List.map_cons, List.map_cons, hnode,
      ih fun a ha => hcollects a (List.mem_cons_of_mem d ha)]

end SameOutlines

end Definition

open Definition (SameOutlines)

variable {definitions others : List Definition}

/-- Definitions with the same outlines have the same graph, or none for the same reason. -/
theorem Graph.build_eq_of_sameOutlines (h : SameOutlines others definitions) :
    build others = build definitions := by
  have hdeclared := h.declared
  have hduplicate : Definition.firstDuplicate [] (Definition.declared others) =
      Definition.firstDuplicate [] (Definition.declared definitions) :=
    Definition.firstDuplicate_eq_of_headings rfl hdeclared.headings
  have hunsupported := hdeclared.findSome?_firstUnsupported
  have hnodes : ∀ list, Definition.node (Definition.declared others) list =
      Definition.node (Definition.declared definitions) list := fun d => by
    simp only [Definition.node, Definition.nodeOf, hdeclared.position?]
  rw [build_eq, build_eq, hduplicate, hunsupported]
  cases Definition.firstDuplicate [] (Definition.declared definitions) with
  | some found => rfl
  | none =>
    cases hcollects : (Definition.declared definitions).findSome?
        Definition.firstUnsupported with
    | some raw => rfl
    | none =>
      rw [funext hnodes, hdeclared.map_node hcollects]

/-- Definitions with the same outlines are resolved to the same names with the same warnings, or
fail alike. -/
theorem resolve_names_eq_of_sameOutlines (h : SameOutlines others definitions)
    (external : List String) :
    (resolve others external).map (fun o => (o.names, o.warnings)) =
      (resolve definitions external).map fun o => (o.names, o.warnings) := by
  have hbuild := Graph.build_eq_of_sameOutlines h
  cases hgraph : Graph.build definitions with
  | error failure => simp only [resolve, hbuild, hgraph, Except.map]
  | ok g =>
    rw [resolve_of_build hgraph, resolve_of_build (hbuild.trans hgraph)]
    cases horder : g.order with
    | error deadlock => rfl
    | ok names =>
      -- both lists of names are the names of the emitted nodes
      have hnames := (Graph.isArrangement_of_order hgraph horder).2
      have hnames' := (Graph.isArrangement_of_order (hbuild.trans hgraph) horder).2
      simp only [Except.map, Ordered.names, ← hnames, ← hnames']

/-- Definitions with the same outlines are answered alike: with the same order of names and the same
warnings, or with the same failure. Each answer holds its own definitions as they were given. -/
theorem requestOrder_of_sameOutlines (h : SameOutlines others definitions)
    (external workers : Data.Value) :
    (requestOrder others external workers).map (fun o => (o.names, o.warnings)) =
        (requestOrder definitions external workers).map (fun o => (o.names, o.warnings)) ∧
      (∀ o, requestOrder others external workers = .ok o → o.definitions.Perm others) ∧
      ∀ o, requestOrder definitions external workers = .ok o →
        o.definitions.Perm definitions := by
  rw [requestOrder_eq, requestOrder_eq]
  cases Settings.requested external workers with
  | error findings => simp [Except.map]
  | ok settings =>
    simp only [mapError_eq_ok_iff]
    have hresolve := resolve_names_eq_of_sameOutlines h settings.external
    refine ⟨?_, fun _ => perm_of_resolve, fun _ => perm_of_resolve⟩
    cases hothers : resolve others settings.external <;>
      cases hdefinitions : resolve definitions settings.external <;>
      simp_all [Except.map, Except.mapError]

/-- A file that is read under a condition, and a text behind it, refer to what one plain text does,
and so they are ordered as it is. -/
theorem requestOrder_of_sameOutlines_nested :
    let plain := [Definition.ofValues "target" [.ofText "$\x7bdir\x7d/$lost"] 3 true none,
      Definition.ofValues "dir" [.ofText "/opt"] 5 true none]
    let nested := [
      { name := "target"
        candidates := [
          { value := .call "file" [("file", .single (.call "value" [("value",
              .single (.ofText "$lost"))]))]
            condition := some "present", checkOnce := true },
          { value := .ofText "$dir" }]
        isStatic := false, sourceOrder := 3 },
      Definition.ofValues "dir" [] 5 false none]
    SameOutlines nested plain ∧
      ∃ o, requestOrder nested (.list []) .null = .ok o ∧ o.definitions.Perm nested ∧
        o.names = ["dir", "target"] ∧ o.warnings = [⟨"target", "lost"⟩] := by
  intro plain nested
  have hwellFormed : ∀ list ∈ [nested, plain], ∀ d ∈ list, d.WellFormed := by
    simp only [← Definition.firstUnsupported_eq_none_iff]
    decide +kernel
  have houtlines : SameOutlines nested plain :=
    Definition.sameOutlines_of_needs (hwellFormed nested (by simp)) (hwellFormed plain (by simp))
      (by decide +kernel)
  have hplain : (requestOrder plain (.list []) .null).map (fun o => (o.names, o.warnings)) =
      .ok (["dir", "target"], [⟨"target", "lost"⟩]) := by
    let g : Graph := ⟨[⟨"target", 3, [1], ["lost"]⟩, ⟨"dir", 5, [], []⟩]⟩
    have hordered := Definition.declared_eq_self plain (by decide)
    have hbuild : Graph.build plain = .ok g := by
      exact Graph.build_eq_ok_of_found hordered (by decide) (hwellFormed plain (by simp))
        (by decide +kernel) (by decide)
    have hemitted : g.emittedNodes = [1, 0] := by
      rw [Graph.emittedNodes, (Graph.wellFormed_of_build hbuild).start_eq]
      decide +kernel
    have hresolve := resolve_eq_ok_of_emitted hbuild (by rw [hemitted]; rfl) []
    rw [hordered, hemitted] at hresolve
    simp only [requestOrder_plain, hresolve, Except.mapError, Except.map]
    exact congrArg Except.ok (by decide +kernel)
  obtain ⟨hsame, hperm, -⟩ := requestOrder_of_sameOutlines houtlines (.list []) .null
  rw [hplain] at hsame
  refine ⟨houtlines, ?_⟩
  cases hnested : requestOrder nested (.list []) .null with
  | error failure => simp [hnested, Except.map] at hsame
  | ok o =>
    simp only [hnested, Except.map, Except.ok.injEq, Prod.mk.injEq] at hsame
    exact ⟨o, rfl, hperm o hnested, hsame⟩

end VariableOrder
