import VariableOrder.Proofs.Provider.Argument

/-!
# The order of keys

A call holds an argument for each parameter that is given and not null, in the order of the
parameters, so nothing that is given gets lost and the order in which it is given does not count.
That holds at every depth that building comes to: raw values that differ only in the order of the
keys of records, in lists and records, are built to the same expression or fail in the same way.
Whatever stands inside a pair is not built but shown, in the order in which it stands there.
-/

set_option autoImplicit false

namespace VariableOrder

open Data (Value Record)

/-- Whether arguments hold all that is given, and nothing else: one for each parameter that is given
and not null, in the order of the parameters, with what the given value is built to, or with what
each of its items is built to where the parameter takes a list. -/
structure Provider.Conveys (p : Provider) (c : Catalogue) (place : String) (fields : Record Given)
    (arguments : List (String × Argument)) : Prop where
  names : arguments.map (·.1) =
    p.paramNames.filter fun name => (fields.get? name).any fun g => !g.isNull
  nodup : (arguments.map (·.1)).Nodup
  covers : ∀ key g, (key, g) ∈ fields → g.isNull = false →
    ∃ name ∈ arguments.map (·.1), key = .text name
  single : ∀ name e, (name, .single e) ∈ arguments → name ∉ p.list ∧
    ∃ g, fields.get? name = some g ∧ c.buildGiven (place ++ ", " ++ name) g = .ok e
  many : ∀ name items, (name, .many items) ∈ arguments → name ∈ p.list ∧
    ∃ g, fields.get? name = some g ∧
      List.Forall₂ (fun item e => c.buildGiven
          (place ++ ", " ++ name ++ "[" ++ toString item.2 ++ "]") item.1 = .ok e)
        g.items.zipIdx items

namespace Provider

variable {p : Provider} {c : Catalogue} {place : String} {fields : Record Given}

/-- An accepted call holds all that is given. -/
theorem conveys_of_call (hnames : p.paramNames.Nodup) (hkeys : fields.TextKeys) {e : Expr}
    (h : p.call (c.givenParams fields) place = .ok e) :
    ∃ arguments, e = .call p.typeName arguments ∧ p.Conveys c place fields arguments := by
  obtain ⟨hadmits, arguments, rfl, hall⟩ := call_eq_ok_iff.mp h
  have hgiven : arguments.map (·.1) = (p.given fields).map (·.1) := map_fst_arguments hall
  refine ⟨arguments, rfl, ?_, ?_, ?_, ?_, ?_⟩
  · rw [hgiven, map_fst_given]
  · rw [hgiven, map_fst_given]
    exact hnames.filter _
  · intro key g hmem hnull
    obtain ⟨name, hname, rfl⟩ := hadmits.named (key, g) hmem
    refine ⟨name, ?_, rfl⟩
    rw [hgiven]
    exact List.mem_map.mpr
      ⟨(name, g), mem_given_iff.mpr ⟨hname, hkeys.distinct.get?_of_mem hmem, hnull⟩, rfl⟩
  · intro name e hargument
    obtain ⟨⟨_, g⟩, hg, hbuilt⟩ := exists_of_forall₂_right hall hargument
    obtain ⟨rfl, hshape, hitems⟩ := argument_eq_ok_iff.mp hbuilt
    obtain ⟨-, hget, -⟩ := mem_given_iff.mp hg
    have hlist : p.list.contains name = false := hshape.symm
    rw [partsOf, hlist] at hitems
    exact ⟨by simpa using hlist, g, hget, (List.forall₂_cons.mp hitems).1⟩
  · intro name items hargument
    obtain ⟨⟨_, g⟩, hg, hbuilt⟩ := exists_of_forall₂_right hall hargument
    obtain ⟨rfl, hshape, hitems⟩ := argument_eq_ok_iff.mp hbuilt
    obtain ⟨-, hget, -⟩ := mem_given_iff.mp hg
    have hlist : p.list.contains name = true := hshape.symm
    rw [partsOf, if_pos hlist, List.forall₂_map_left_iff] at hitems
    exact ⟨by simpa using hlist, g, hget, hitems⟩

end Provider

namespace Data.Value

/-- Whether the keys of all records that are reached through lists and records are texts, no two of
a record the same. -/
inductive TextKeyed : Value → Prop where
  | list {items : List Value} (h : ∀ v ∈ items, TextKeyed v) : TextKeyed (.list items)
  | record {entries : Record Value} (hkeys : entries.TextKeys) (h : ∀ e ∈ entries, TextKeyed e.2) :
      TextKeyed (.record entries)
  | other {v : Value} (hlist : ∀ items, v ≠ .list items)
      (hrecord : ∀ entries, v ≠ .record entries) : TextKeyed v

/-- Whether two values differ in nothing but the order of the keys of records that are reached
through lists and records. -/
inductive Reordered : Value → Value → Prop where
  | same (v : Value) : Reordered v v
  | list {items others : List Value} (hlength : items.length = others.length)
      (h : ∀ (i : Nat) v w, items[i]? = some v → others[i]? = some w → Reordered v w) :
      Reordered (.list items) (.list others)
  | record {entries others : Record Value}
      (hkeys : (entries.map (·.1)).Perm (others.map (·.1)))
      (h : ∀ key v w, (key, v) ∈ entries → (key, w) ∈ others → Reordered v w) :
      Reordered (.record entries) (.record others)

/-- The entries of a record may be put into another order. -/
theorem Reordered.of_perm {entries others : Record Value} (hkeys : entries.TextKeys)
    (hperm : entries.Perm others) : Reordered (.record entries) (.record others) := by
  refine .record (hperm.map _) ?_
  intro key v w hv hw
  obtain ⟨name, rfl⟩ := hkeys.text _ hv
  have hget := hkeys.distinct.get?_of_mem hv
  rw [hkeys.distinct.get?_of_mem (hperm.mem_iff.mpr hw)] at hget
  exact Option.some.inj hget ▸ .same w

/-- The order of keys has no influence on whether a value is there. -/
theorem Reordered.isPresent_eq {v w : Value} (h : v.Reordered w) : v.isPresent = w.isPresent := by
  cases h with
  | same => rfl
  | @list items others hlength =>
    have hempty : items.isEmpty = others.isEmpty := by
      rw [Bool.eq_iff_iff, List.isEmpty_iff_length_eq_zero, List.isEmpty_iff_length_eq_zero,
        hlength]
    exact congrArg not hempty
  | @record entries others hkeys =>
    have hempty := hkeys.isEmpty_eq
    rw [List.isEmpty_map, List.isEmpty_map] at hempty
    exact congrArg not hempty

/-- Records with the same keys in another order have texts for keys alike, and under each name both
have a value or none. -/
theorem get?_of_reordered {entries others : Record Value} (hentries : entries.TextKeys)
    (hkeys : (entries.map (·.1)).Perm (others.map (·.1)))
    (h : ∀ key v w, (key, v) ∈ entries → (key, w) ∈ others → Reordered v w) (name : String) :
    (entries.get? name = none ∧ others.get? name = none) ∨
      ∃ v w, entries.get? name = some v ∧ others.get? name = some w ∧ v.Reordered w := by
  have hothers := hentries.of_perm hkeys
  cases hv : entries.get? name with
  | none =>
    cases hw : others.get? name with
    | none => exact .inl ⟨rfl, rfl⟩
    | some w =>
      -- the key of what the others have is among the keys of the entries as well
      have hkey : Value.text name ∈ entries.map (·.1) :=
        hkeys.mem_iff.mpr (List.mem_map_of_mem (Record.mem_of_get? hw))
      obtain ⟨⟨key, v⟩, hmem, rfl⟩ := List.mem_map.mp hkey
      rw [hentries.distinct.get?_of_mem hmem] at hv
      cases hv
  | some v =>
    have hkey : Value.text name ∈ others.map (·.1) :=
      hkeys.mem_iff.mp (List.mem_map_of_mem (Record.mem_of_get? hv))
    obtain ⟨⟨key, w⟩, hmem, rfl⟩ := List.mem_map.mp hkey
    exact .inr ⟨v, w, rfl, hothers.distinct.get?_of_mem hmem,
      h _ v w (Record.mem_of_get? hv) hmem⟩

end Data.Value

namespace Provider

variable {p : Provider} {raw others : Record Param}

/-- What is wrong with raw parameters does not depend on their order. -/
theorem problems_eq_of_perm (hkeys : raw.TextKeys) (hperm : raw.Perm others) :
    p.problems raw = p.problems others := by
  have hget : Record.get? raw = Record.get? others := funext (hkeys.get?_eq_of_perm hperm)
  have hnames : (p.unknownNames raw).Perm (p.unknownNames others) := (hperm.map _).filter _
  have htexts : ∀ names : Record Param, names.TextKeys →
      Param.namesFault? (p.unknownNames names) = none := by
    intro names hnames
    rw [Param.namesFault?_eq_none_iff]
    intro key hkey
    obtain ⟨⟨q, hq⟩, -⟩ := (mem_unknownNames p names key).mp hkey
    exact hnames.text (key, q) hq
  have hunknown : p.unknownParams raw = p.unknownParams others := by
    have hothers := hkeys.of_perm (hperm.map _)
    rw [unknownParams_eq, unknownParams_eq, htexts raw hkeys, htexts others hothers]
    exact congrArg Except.ok (Text.sortedNames_eq_of_perm (hnames.filterMap _))
  have hmissing : p.missingParams raw = p.missingParams others := by
    simp only [missingParams, Param.given?, hget]
  have hchoices : choiceProblem? raw = choiceProblem? others := by
    funext choice
    simp only [choiceProblem?, hget]
  have hsingles : p.listedSingles raw = p.listedSingles others := by
    simp only [listedSingles, hget]
  simp only [problems, hunknown, hmissing, hchoices, hsingles]

/-- A call does not depend on the order of its raw parameters. -/
theorem call_eq_of_perm (hkeys : raw.TextKeys) (hperm : raw.Perm others) (place : String) :
    p.call raw place = p.call others place := by
  have hget : Record.get? raw = Record.get? others := funext (hkeys.get?_eq_of_perm hperm)
  simp only [call, problems_eq_of_perm hkeys hperm, Param.given?, hget]

end Provider

namespace Catalogue

variable {c : Catalogue}

/-- The order of keys has no influence on a nested call. -/
theorem nestedCall_eq_of_perm {raw others : Record Param} (hkeys : raw.TextKeys)
    (hperm : raw.Perm others) (kind? : Option Value) (place : String) :
    c.nestedCall kind? raw place = c.nestedCall kind? others place := by
  have hcall : ∀ kind, c.call kind raw place = c.call kind others place := by
    intro kind
    unfold call
    cases c.get? kind with
    | none => rfl
    | some p => exact Provider.call_eq_of_perm hkeys hperm place
  unfold nestedCall
  simp only [hcall]

/-- Two values that differ in the order of keys only name a provider in the same way. -/
theorem nestedCall_eq_of_reordered {kind other : Value} (h : kind.Reordered other)
    (raw : Record Param) (place : String) :
    c.nestedCall (some kind) raw place = c.nestedCall (some other) raw place := by
  have hpresent := h.isPresent_eq
  cases h with
  | same => rfl
  | list => simp [nestedCall, hpresent, Value.isKey, Value.growingName, Value.typeName]
  | record => simp [nestedCall, hpresent, Value.isKey, Value.growingName, Value.typeName]

/-- Records with the same keys give the same parameters in some order, if a provider sees the same
in what stands under each key. -/
theorem params_perm {entries others : Record Value} (hentries : entries.TextKeys)
    (hkeys : (entries.map (·.1)).Perm (others.map (·.1)))
    (h : ∀ key v w, (key, v) ∈ entries → (key, w) ∈ others →
      c.givenParam (.raw v) = c.givenParam (.raw w)) :
    (c.params entries).Perm (c.params others) := by
  rw [params_eq, params_eq]
  apply ((hentries.map _).map _).perm_of_keys
  · simpa only [givenParams, rawFields, List.map_map, Function.comp_def] using hkeys
  · intro key q r hq hr
    simp only [givenParams, rawFields, List.mem_map, Prod.exists, Prod.mk.injEq] at hq hr
    obtain ⟨_, _, ⟨_, v, hv, rfl, rfl⟩, rfl, rfl⟩ := hq
    obtain ⟨_, _, ⟨_, w, hw, rfl, rfl⟩, rfl, rfl⟩ := hr
    exact h _ v w hv hw

/-- What a provider sees of a value does not depend on the order of keys. -/
theorem givenParam_eq_of_reordered {v w : Value} (hv : v.TextKeyed) (h : v.Reordered w) :
    c.givenParam (.raw v) = c.givenParam (.raw w) := by
  induction h with
  | same => rfl
  | @list items others hlength _ ih =>
    have hall : ∀ item ∈ items, item.TextKeyed := by
      cases hv with
      | list hall => exact hall
      | other hlist => exact absurd rfl (hlist items)
    have hbuilders : c.builders items = c.builders others := by
      rw [builders_eq, builders_eq]
      apply List.ext_getElem (by simpa using hlength)
      intro i hi hi'
      rw [List.length_map] at hi hi'
      rw [List.getElem_map, List.getElem_map]
      have hitem := ih i items[i] others[i] (List.getElem?_eq_getElem hi)
        (List.getElem?_eq_getElem hi') (hall _ (List.getElem_mem hi))
      exact congrArg Param.single hitem
    simp only [givenParam, paramOf, Value.isNull, hbuilders, build]
  | @record entries others hkeys hvalues ih =>
    obtain ⟨hentries, hall⟩ : entries.TextKeys ∧ ∀ e ∈ entries, e.2.TextKeyed := by
      cases hv with
      | record hentries hall => exact ⟨hentries, hall⟩
      | other _ hrecord => exact absurd rfl (hrecord entries)
    have htexts : (c.params entries).TextKeys := by
      rw [params_eq]
      exact (hentries.map _).map _
    have hparams : (c.params entries).Perm (c.params others) := params_perm hentries hkeys
      fun key v w hv hw => ih key v w hv hw (hall _ hv)
    have hbuild : ∀ place, c.build place (.record entries) = c.build place (.record others) := by
      intro place
      have hraw := hparams.filter fun e => !e.1.isText providerKey
      rw [build, build]
      rcases Value.get?_of_reordered hentries hkeys hvalues providerKey with
        ⟨hnone, hnone'⟩ | ⟨kind, other, hkind, hother, hsame⟩
      · rw [hnone, hnone']
        rfl
      · rw [hkind, hother, nestedCall_eq_of_reordered hsame]
        exact nestedCall_eq_of_perm (htexts.without providerKey) hraw (some other) place
    simp only [givenParam, paramOf, Value.isNull, hbuild]

/-- Values that differ in the order of keys only are built to the same expression, or fail in the
same way. -/
theorem build_eq_of_reordered {v w : Value} (hv : v.TextKeyed) (h : v.Reordered w)
    (place : String) : c.build place v = c.build place w := by
  have hsingle := congrArg Param.single (givenParam_eq_of_reordered (c := c) hv h)
  exact congrFun hsingle place

end Catalogue

/-- An accepted call holds all that is given, and nothing that is built depends on the order of keys
in records and lists. -/
theorem Catalogue.call_complete_unordered (c : Catalogue) (place : String) :
    (∀ (p : Provider) (fields : Record Given) (e : Expr), p.paramNames.Nodup → fields.TextKeys →
      p.call (c.givenParams fields) place = .ok e →
        ∃ arguments, e = .call p.typeName arguments ∧ p.Conveys c place fields arguments) ∧
      ∀ v w : Value, v.TextKeyed → v.Reordered w → c.build place v = c.build place w :=
  ⟨fun _ _ _ hnames hkeys hcall => Provider.conveys_of_call hnames hkeys hcall,
    fun _ _ hv h => build_eq_of_reordered hv h place⟩

/-- A call with a list and with something null holds what is given, and a call inside the list may
be written in any order. -/
theorem Catalogue.call_complete_unordered_nested :
    let p : Provider :=
      { typeName := "run", aliases := [], required := ["program"], optional := ["dir"]
        list := ["args"], choices := [] }
    let inner : Record Value := [(.text "provider", .text "environment"), (.text "name", .text "A")]
    let fields (call : Record Value) : Record Given :=
      [(.text "args", .raw (.list [.record call, .text "b"])), (.text "dir", .raw .null),
        (.text "program", .raw (.text "ls"))]
    (∃ arguments, p.call (standard.givenParams (fields inner)) "x" = .ok (.call "run" arguments) ∧
      arguments.map (·.1) = ["program", "args"] ∧
      p.Conveys standard "x" (fields inner) arguments) ∧
    standard.build "x" (.record inner) = standard.build "x" (.record inner.reverse) := by
  intro p inner fields
  have hinner : Value.TextKeyed (.record inner) := by
    refine .record ⟨by simp [inner], by simp [inner]⟩ ?_
    simp only [inner, List.forall_mem_cons]
    exact ⟨.other nofun nofun, .other nofun nofun, nofun⟩
  have hkeys : (fields inner).TextKeys := ⟨by simp [fields], by simp [fields]⟩
  have hcall : ∃ e, p.call (standard.givenParams (fields inner)) "x" = .ok e := ⟨_, rfl⟩
  obtain ⟨e, he⟩ := hcall
  obtain ⟨arguments, rfl, hconveys⟩ :=
    (call_complete_unordered standard "x").1 p (fields inner) e (by decide) hkeys he
  refine ⟨⟨arguments, he, hconveys.names, hconveys⟩, ?_⟩
  apply (call_complete_unordered standard "x").2 _ _ hinner
  exact .of_perm ⟨by simp [inner], by simp [inner]⟩ inner.reverse_perm.symm

/-- A pair is shown as it stands, so the order of the keys of a record inside it counts. -/
theorem Catalogue.build_pair_ordered :
    let entries : Record Value := [(.text "p", .integer 1), (.text "q", .integer 2)]
    let call (inner : Record Value) : Value :=
      .record [(.text "provider", .text "executable"), (.text "executable", .text "x"),
        (.text "args", .list [.pair (.text "k") (.record inner)])]
    let built (shown : String) : Expr :=
      .call "executable" [("executable", .single (.ofText "x")), ("args", .many [.ofText shown])]
    entries.TextKeys ∧ (call entries).TextKeyed ∧
      standard.build "" (call entries) = .ok (built "('k', \x7b'p': 1, 'q': 2\x7d)") ∧
      standard.build "" (call entries.reverse) = .ok (built "('k', \x7b'q': 2, 'p': 1\x7d)") ∧
      standard.build "" (call entries) ≠ standard.build "" (call entries.reverse) := by
  intro entries call built
  have hkeyed : (call entries).TextKeyed := by
    refine .record ⟨by simp, by simp⟩ ?_
    simp only [List.forall_mem_cons]
    refine ⟨.other nofun nofun, .other nofun nofun, .list ?_, nofun⟩
    exact List.forall_mem_singleton.mpr (.other nofun nofun)
  refine ⟨⟨by simp [entries], by simp [entries]⟩, hkeyed, rfl, rfl, ?_⟩
  show Except.ok (built "('k', \x7b'p': 1, 'q': 2\x7d)") ≠
    .ok (built "('k', \x7b'q': 2, 'p': 1\x7d)")
  simp [built, Expr.ofText]

end VariableOrder
