import VariableOrder.Proofs.Definition.Sifting

/-!
# Accounting for the entries of a definition file

No entry disappears silently. A file whose parts are not as expected leaves one message and nothing
else. Of any other file every entry is a candidate of some definition or leaves one message, so the
candidates and the messages together are as many as the entries. Earlier messages stay in front, and
the definitions can be used exactly when there is no message at all.
-/

set_option autoImplicit false

namespace VariableOrder

open Data (Value Record)

/-- Loaded definitions are handed on if there is no message, and otherwise all messages are. -/
theorem Loading.definitions?_of_outcome {l : Loading} {ds : Definitions} (h : l.outcome = .ok ds) :
    l.definitions? = if l.messages = [] then .ok ds else .error (.invalid l.messages) := by
  simp only [definitions?, h, List.isEmpty_iff]

namespace Definition

/-- Every accepted entry is one candidate. -/
theorem length_candidates_listed (accepted : EntryKind → List (String × Candidate)) :
    ((listed accepted).flatMap fun d => d.candidates).length =
      (accepted .static).length + (accepted .dynamic).length := by
  have hstatic : ((ofStatic (accepted .static)).flatMap fun d => d.candidates).length =
      (accepted .static).length := by
    rw [List.flatMap_def, map_ofStatic fun _ candidates _ => candidates, ← List.flatMap_def,
      ← List.map_eq_flatMap, List.length_map]
  have hdynamic : ∀ declared, ((ofDynamic declared (accepted .dynamic)).flatMap fun d =>
      d.candidates).length = (accepted .dynamic).length := by
    intro declared
    rw [List.flatMap_def, map_ofDynamic fun _ candidates _ => candidates, ← List.flatMap_def]
    exact length_grouped _
  rw [listed, List.flatMap_append, List.length_append, hstatic, hdynamic]

/-- Whenever loading does not break off, the earlier messages are kept, and a file with invalid
parts leaves one message and no definition. Of a file with valid parts every entry that is refused
leaves one message, static ones first, and the entries are as many as the candidates and the new
messages. The definitions can be used exactly when there is no message at all; otherwise every
message is told. -/
theorem load_accounts {c : Catalogue} {earlier : List String} {raw : Record Value}
    {ds : Definitions} (hload : (load c earlier raw).outcome = .ok ds) :
    ∃ new, (load c earlier raw).messages = earlier ++ new ∧
      ((∃ findings, Layout.ofFields raw = .error findings ∧ new = [layoutMessage findings] ∧
          ds.definitions = [] ∧ ds.settings = {}) ∨
        ∃ layout, Layout.ofFields raw = .ok layout ∧ ds.settings = layout.settings ∧
          ∃ (accepted : EntryKind → List (String × Candidate)) (messages : EntryKind → List String),
            (∀ kind, Sifted c kind 0 (kind.items raw) (accepted kind) (messages kind)) ∧
            new = messages .static ++ messages .dynamic ∧
            (EntryKind.static.items raw).length + (EntryKind.dynamic.items raw).length =
              (ds.definitions.flatMap fun d => d.candidates).length + new.length) ∧
      (load c earlier raw).definitions? =
        if earlier ++ new = [] then .ok ds else .error (.invalid (earlier ++ new)) := by
  cases hlayout : Layout.ofFields raw with
  | error findings =>
    have heq : load c earlier raw = ⟨earlier ++ [layoutMessage findings], .ok ⟨[], {}⟩⟩ := by
      simp only [load, hlayout]
    rw [heq] at hload ⊢
    obtain rfl := Except.ok.inj hload
    exact ⟨_, rfl, .inl ⟨findings, rfl, rfl, rfl, rfl⟩, Loading.definitions?_of_outcome rfl⟩
  | ok layout =>
    obtain ⟨accepted, messages, hsifted⟩ := exists_sifted_of_load hlayout hload
    rw [load_of_sifted hlayout hsifted] at hload ⊢
    obtain rfl := Except.ok.inj hload
    refine ⟨_, rfl, .inr ⟨layout, rfl, rfl, accepted, messages, hsifted, rfl, ?_⟩,
      Loading.definitions?_of_outcome rfl⟩
    have hstatic := (hsifted .static).length_eq
    have hdynamic := (hsifted .dynamic).length_eq
    rw [length_candidates_listed, List.length_append]
    omega

/-- Behind an earlier message two static entries and three dynamic ones come to three candidates of
two definitions and to two more messages. -/
theorem load_accounts_refused :
    let entry (fields : List (String × String)) : Value :=
      .record (fields.map fun f => (.text f.1, .text f.2))
    let raw : Record Value :=
      [(.text "variables", .list [entry [], entry [("name", "b")]]),
        (.text "dynamicvariables", .list [entry [("name", "a"), ("value", "1")],
          entry [("name", "c"), ("provider", "none")], entry [("name", " a "), ("value", "3")]])]
    ∃ ds new, (load .standard ["before"] raw).outcome = .ok ds ∧ new.length = 2 ∧
      (ds.definitions.flatMap fun d => d.candidates).length = 3 ∧
      (load .standard ["before"] raw).definitions? = .error (.invalid ("before" :: new)) := by
  intro entry raw
  obtain ⟨ds, hload, hcandidates⟩ : ∃ ds, (load .standard ["before"] raw).outcome = .ok ds ∧
      (ds.definitions.flatMap fun d => d.candidates).length = 3 := ⟨_, rfl, rfl⟩
  obtain ⟨new, -, hcases, hraised⟩ := load_accounts hload
  rcases hcases with ⟨_, _, _, hnone, _⟩ | ⟨layout, _, _, accepted, messages, _, _, hcount⟩
  · rw [hnone] at hcandidates
    cases hcandidates
  · have hitems : (EntryKind.static.items raw).length + (EntryKind.dynamic.items raw).length = 5 :=
      rfl
    exact ⟨ds, new, hload, by omega, hcandidates, hraised⟩

end Definition

end VariableOrder
