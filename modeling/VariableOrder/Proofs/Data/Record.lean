import Mathlib.Data.List.Nodup
import VariableOrder.Data.Value

/-!
# Laws of records

The keys of a record that was read from a document are distinct. Then an entry under a text is what
the text finds, and putting a value under a text replaces what was there.
-/

set_option autoImplicit false

namespace VariableOrder.Data

/-- A value is a name only as the text of it. -/
theorem Value.isText_iff {v : Value} {name : String} : v.isText name = true ↔ v = .text name := by
  cases v <;> simp [isText]

/-- No other key is the same as a text. -/
theorem Value.sameKey_text {v : Value} {name : String} :
    v.sameKey (.text name) = true ↔ v = .text name := by
  cases v with
  | fraction x =>
    unfold sameKey
    cases h : (Value.fraction x).keyNumber? <;> simp [keyNumber?]
  | _ => simp [sameKey, keyNumber?]

namespace Record

variable {α β : Type}

/-- No two entries have the same key. -/
def Distinct (entries : Record α) : Prop :=
  entries.Pairwise fun a b => a.1.sameKey b.1 = false

/-- A first entry with the name is the one that is found. -/
theorem get?_cons_self (name : String) (x : α) (rest : Record α) :
    get? ((.text name, x) :: rest) name = some x := by
  simp [get?, Value.isText]

/-- A first entry with another key is passed over. -/
theorem get?_cons_of_ne {first : Value × α} {name : String} (h : first.1 ≠ .text name)
    (rest : Record α) : get? (first :: rest) name = get? rest name := by
  have hother : first.1.isText name = false := by
    rwa [Bool.eq_false_iff, Ne, Value.isText_iff]
  simp [get?, hother]

/-- A first entry with the name gets the new value. -/
theorem put_cons_self (name : String) (x y : α) (rest : Record α) :
    put (.text name) x ((.text name, y) :: rest) = (.text name, x) :: rest := by
  simp only [put, Value.sameKey_text.mpr rfl, if_true]

/-- A first entry with another key stays as it is. -/
theorem put_cons_of_ne {first : Value × α} {name : String} (h : first.1 ≠ .text name) (x : α)
    (rest : Record α) : put (.text name) x (first :: rest) = first :: put (.text name) x rest := by
  have hother : first.1.sameKey (.text name) = false := by
    rwa [Bool.eq_false_iff, Ne, Value.sameKey_text]
  simp only [put, hother, Bool.false_eq_true, if_false]

/-- What is found under a name is an entry. -/
theorem mem_of_get? {entries : Record α} {name : String} {x : α}
    (h : entries.get? name = some x) : (.text name, x) ∈ entries := by
  obtain ⟨⟨key, y⟩, hfind, rfl⟩ := Option.map_eq_some_iff.mp h
  have hkey := List.find?_some hfind
  obtain rfl := Value.isText_iff.mp hkey
  exact List.mem_of_find?_eq_some hfind

/-- Converting all values converts what is found. -/
theorem get?_map (f : α → β) (entries : Record α) (name : String) :
    get? (entries.map fun e => (e.1, f e.2)) name = (entries.get? name).map f := by
  unfold get?
  rw [List.find?_map, Option.map_map, Option.map_map]
  rfl

/-- Leaving out a name that only the first entry has leaves the rest. -/
theorem without_cons_self {name : String} {rest : Record α} (x : α)
    (h : ∀ e ∈ rest, e.1 ≠ .text name) : without ((.text name, x) :: rest) name = rest := by
  unfold without
  rw [List.filter_cons_of_neg (by simp [Value.isText]), List.filter_eq_self]
  intro e he
  rw [Bool.not_eq_true', Bool.eq_false_iff, Ne, Value.isText_iff]
  exact h e he

/-- Leaving out a name leaves exactly the entries with other keys. -/
theorem mem_without {entries : Record α} {name : String} {e : Value × α} :
    e ∈ entries.without name ↔ e ∈ entries ∧ e.1 ≠ .text name := by
  rw [without, List.mem_filter, Bool.not_eq_true', Bool.eq_false_iff, Ne, Value.isText_iff]

namespace Distinct

variable {entries : Record α} (h : entries.Distinct)

include h

/-- Fewer entries still have distinct keys. -/
theorem filter (test : Value × α → Bool) : Distinct (entries.filter test) :=
  List.Pairwise.filter test h

/-- Converting the values keeps the keys distinct. -/
theorem map (f : α → β) : Distinct (entries.map fun e => (e.1, f e.2)) :=
  List.pairwise_map.mpr h

/-- With distinct keys every entry is found under its name. -/
theorem get?_of_mem {name : String} {x : α} (hmem : (.text name, x) ∈ entries) :
    entries.get? name = some x := by
  induction entries with
  | nil => cases hmem
  | cons first rest ih =>
    obtain ⟨hfirst, hrest⟩ := List.pairwise_cons.mp h
    rcases List.mem_cons.mp hmem with rfl | hrestMem
    · exact get?_cons_self name x rest
    · have hother : first.1 ≠ .text name := by
        intro hkey
        have hsame := hfirst _ hrestMem
        rw [hkey] at hsame
        exact absurd (Value.sameKey_text.mpr rfl) (Bool.eq_false_iff.mp hsame)
      rw [get?_cons_of_ne hother]
      exact ih hrest hrestMem

/-- With distinct keys the entries and what is found under a name are the same. -/
theorem get?_eq_some_iff {name : String} {x : α} :
    entries.get? name = some x ↔ (.text name, x) ∈ entries :=
  ⟨mem_of_get?, h.get?_of_mem⟩

end Distinct

/-- All keys are texts, and no two of them are the same. -/
structure TextKeys (entries : Record α) : Prop where
  text : ∀ e ∈ entries, ∃ s, e.1 = .text s
  nodup : (entries.map (·.1)).Nodup

namespace TextKeys

variable {entries others : Record α} (h : entries.TextKeys)

include h

/-- Texts that are different are different keys. -/
theorem distinct : entries.Distinct := by
  refine (List.pairwise_map.mp h.nodup).imp_of_mem ?_
  intro a b _ hb hne
  obtain ⟨s, hs⟩ := h.text b hb
  rw [hs] at hne ⊢
  rwa [Bool.eq_false_iff, Ne, Value.sameKey_text]

/-- Keys stay distinct texts in any order. -/
theorem of_perm {others : Record β} (hkeys : (entries.map (·.1)).Perm (others.map (·.1))) :
    others.TextKeys := by
  refine ⟨?_, hkeys.nodup_iff.mp h.nodup⟩
  intro e he
  obtain ⟨e', he', hkey⟩ := List.mem_map.mp (hkeys.mem_iff.mpr (List.mem_map_of_mem he))
  exact hkey ▸ h.text e' he'

/-- Converting the values keeps the keys distinct texts. -/
theorem map (f : α → β) : TextKeys (entries.map fun e => (e.1, f e.2)) := by
  refine ⟨List.forall_mem_map.mpr h.text, ?_⟩
  rw [List.map_map]
  exact h.nodup

/-- Leaving out a name keeps the keys distinct texts. -/
theorem without (name : String) : (entries.without name).TextKeys :=
  ⟨fun e he => h.text e (List.mem_of_mem_filter he), h.nodup.sublist (List.filter_sublist.map _)⟩

/-- What is found under a name does not depend on the order of the entries. -/
theorem get?_eq_of_perm (hperm : entries.Perm others) (name : String) :
    entries.get? name = others.get? name := by
  apply Option.ext
  intro x
  rw [h.distinct.get?_eq_some_iff, (h.of_perm (hperm.map _)).distinct.get?_eq_some_iff,
    hperm.mem_iff]

/-- Records with the same keys and the same value under each key differ in their order only. -/
theorem perm_of_keys (hkeys : (entries.map (·.1)).Perm (others.map (·.1)))
    (hvalues : ∀ key x y, (key, x) ∈ entries → (key, y) ∈ others → x = y) :
    entries.Perm others := by
  rw [List.perm_ext_iff_of_nodup (List.Nodup.of_map _ h.nodup)
    (List.Nodup.of_map _ (h.of_perm hkeys).nodup)]
  rintro ⟨key, x⟩
  constructor
  · intro hx
    obtain ⟨⟨key', y⟩, hy, rfl⟩ := List.mem_map.mp (hkeys.mem_iff.mp (List.mem_map_of_mem hx))
    exact hvalues key' x y hx hy ▸ hy
  · intro hx
    obtain ⟨⟨key', y⟩, hy, rfl⟩ := List.mem_map.mp (hkeys.mem_iff.mpr (List.mem_map_of_mem hx))
    exact hvalues key' y x hy hx ▸ hy

end TextKeys

/-- Every entry after putting a value was there before, or it has the new value under the given key
or under a key that was there. -/
theorem mem_put {key : Value} {x : α} {entries : Record α} {e : Value × α}
    (h : e ∈ put key x entries) :
    e ∈ entries ∨ e.2 = x ∧ (e.1 = key ∨ ∃ y, (e.1, y) ∈ entries) := by
  induction entries with
  | nil =>
    obtain rfl := List.mem_singleton.mp h
    exact .inr ⟨rfl, .inl rfl⟩
  | cons first rest ih =>
    rw [put] at h
    split_ifs at h
    · rcases List.mem_cons.mp h with rfl | hrest
      · exact .inr ⟨rfl, .inr ⟨first.2, List.mem_cons_self⟩⟩
      · exact .inl (List.mem_cons_of_mem _ hrest)
    · rcases List.mem_cons.mp h with rfl | hrest
      · exact .inl List.mem_cons_self
      · rcases ih hrest with hmem | ⟨hx, hkey⟩
        · exact .inl (List.mem_cons_of_mem _ hmem)
        · exact .inr ⟨hx, hkey.imp_right fun ⟨y, hy⟩ => ⟨y, List.mem_cons_of_mem _ hy⟩⟩

namespace Distinct

variable {entries : Record α} (h : entries.Distinct)

include h

/-- Putting a value under a name keeps the keys distinct. -/
theorem put (name : String) (x : α) : Distinct (put (.text name) x entries) := by
  induction entries with
  | nil => exact List.pairwise_singleton _ _
  | cons first rest ih =>
    obtain ⟨hfirst, hrest⟩ := List.pairwise_cons.mp h
    obtain ⟨key, y⟩ := first
    by_cases hkey : key = .text name
    · subst hkey
      rw [put_cons_self]
      exact List.pairwise_cons.mpr ⟨hfirst, hrest⟩
    · rw [put_cons_of_ne hkey]
      refine List.pairwise_cons.mpr ⟨?_, ih hrest⟩
      intro e he
      rcases mem_put he with he | ⟨-, hname | ⟨z, hz⟩⟩
      · exact hfirst e he
      · rwa [hname, Bool.eq_false_iff, Ne, Value.sameKey_text]
      · exact hfirst (e.1, z) hz

/-- What was put under a text is there, with all that was there under other keys. -/
theorem mem_put_iff {name : String} {x : α} {e : Value × α} :
    e ∈ Record.put (.text name) x entries ↔
      e = (.text name, x) ∨ e ∈ entries ∧ e.1 ≠ .text name := by
  induction entries with
  | nil => simp [Record.put]
  | cons first rest ih =>
    obtain ⟨hfirst, hrest⟩ := List.pairwise_cons.mp h
    obtain ⟨key, y⟩ := first
    by_cases hkey : key = .text name
    · -- the value is replaced here, and no entry of the rest has the same key
      subst hkey
      have hother : ∀ e ∈ rest, e.1 ≠ .text name := by
        intro e he hsame
        have hdistinct := hfirst e he
        rw [hsame] at hdistinct
        exact absurd (Value.sameKey_text.mpr rfl) (Bool.eq_false_iff.mp hdistinct)
      rw [put_cons_self, List.mem_cons, List.mem_cons]
      constructor
      · rintro (rfl | he)
        · exact .inl rfl
        · exact .inr ⟨.inr he, hother e he⟩
      · rintro (rfl | ⟨rfl | he, hne⟩)
        · exact .inl rfl
        · exact absurd rfl hne
        · exact .inr he
    · rw [put_cons_of_ne hkey, List.mem_cons, List.mem_cons, ih hrest]
      constructor
      · rintro (rfl | rfl | ⟨he, hne⟩)
        · exact .inr ⟨.inl rfl, hkey⟩
        · exact .inl rfl
        · exact .inr ⟨.inr he, hne⟩
      · rintro (rfl | ⟨rfl | he, hne⟩)
        · exact .inr (.inl rfl)
        · exact .inl rfl
        · exact .inr (.inr ⟨he, hne⟩)

end Distinct

/-- After putting a value under a name that name has it, and every other name has what it had. -/
theorem get?_put (key : String) (x : α) (entries : Record α) (name : String) :
    get? (put (.text key) x entries) name = if name = key then some x else entries.get? name := by
  induction entries with
  | nil =>
    split_ifs with hname
    · rw [hname]
      exact get?_cons_self key x []
    · exact get?_cons_of_ne (by simpa using Ne.symm hname) []
  | cons first rest ih =>
    by_cases hfirst : first.1 = .text key
    · obtain ⟨_, y⟩ := first
      obtain rfl := hfirst
      rw [put_cons_self]
      split_ifs with hname
      · rw [hname]
        exact get?_cons_self key x rest
      · have hkey : Value.text key ≠ .text name := by simpa using Ne.symm hname
        rw [get?_cons_of_ne hkey, get?_cons_of_ne hkey]
    · rw [put_cons_of_ne hfirst]
      by_cases hname : first.1 = .text name
      · obtain ⟨_, y⟩ := first
        obtain rfl := hname
        have hne : name ≠ key := by simpa using hfirst
        rw [get?_cons_self, get?_cons_self, if_neg hne]
      · rw [get?_cons_of_ne hname, get?_cons_of_ne hname, ih]

/-- Putting a converted value among converted ones is putting it first and converting afterwards. -/
theorem put_map (f : α → β) (key : Value) (x : α) (entries : Record α) :
    put key (f x) (entries.map fun e => (e.1, f e.2)) =
      (put key x entries).map fun e => (e.1, f e.2) := by
  induction entries with
  | nil => rfl
  | cons first rest ih =>
    simp only [List.map_cons, put]
    cases first.1.sameKey key with
    | true => simp
    | false => simp [ih]

end Record

end VariableOrder.Data
