import Mathlib.Data.Sum.Basic
import VariableOrder.Proofs.Placeholder.Grammar

/-!
# What the chunks of a text stand for

Each chunk is a part by itself: literal text or a reference. The parts of a text are those of its
chunks after neighbouring literal parts are merged and empty ones are left out. Merging loses
nothing and adds nothing: taken apart into characters and references, the parts of the text and the
parts of the chunks are the same, and merged parts are told by what they are taken apart into.

Names are stripped, so none of them ends in a line feed. For such names being external is a matter
of the whole name.
-/

set_option autoImplicit false

namespace VariableOrder.Placeholder

/-- The part that a chunk is by itself. -/
def Chunk.part : Chunk → Part
  | .escapedDollar => .literal "$"
  | .braced inner =>
    if Text.isAllBlank inner then .literal (String.ofList (Chunk.braced inner).source)
    else .reference ⟨String.ofList (Text.strip inner), isExternal (Text.strip inner),
      String.ofList (Chunk.braced inner).source⟩
  | .bare name =>
    .reference ⟨String.ofList name, isExternal name, String.ofList (Chunk.bare name).source⟩
  | .plain c => .literal (String.ofList [c])

/-- The characters of a literal part one by one, or the reference. -/
def Part.atoms : Part → List (Char ⊕ Reference)
  | .literal text => text.toList.map .inl
  | .reference r => [.inr r]

/-- A name of an environment variable or of a system property, as a whole. -/
def IsExternalName (name : List Char) : Prop :=
  (∃ x, (name = "ENV[".toList ++ x ++ "]".toList ∨ name = "SYSTEM[".toList ++ x ++ "]".toList) ∧
      ']' ∉ x) ∨
    ∃ y, (name = "env.".toList ++ y ∨ name = "sys.".toList ++ y) ∧ y ≠ [] ∧ '\n' ∉ y

section Merging

/-- No parts are merged parts. -/
theorem isMerged_nil : IsMerged [] :=
  ⟨by simp, List.isChain_nil⟩

/-- A reference in front does not matter for merging. -/
theorem isMerged_reference_cons {r : Reference} {ps : List Part} :
    IsMerged (.reference r :: ps) ↔ IsMerged ps := by
  constructor
  · exact fun h => ⟨fun text htext => h.notEmpty text (List.mem_cons_of_mem _ htext), h.apart.tail⟩
  · intro h
    refine ⟨fun text htext => h.notEmpty text (by simpa using htext), ?_⟩
    exact List.isChain_cons.mpr ⟨fun p _ => by simp [Part.isLiteral], h.apart⟩

/-- A literal part in front is merged if it is not empty and no other one follows. -/
theorem isMerged_literal_cons {text : String} {ps : List Part} :
    IsMerged (.literal text :: ps) ↔
      text ≠ "" ∧ (∀ p ∈ ps.head?, p.isLiteral = false) ∧ IsMerged ps := by
  constructor
  · intro h
    refine ⟨h.notEmpty text List.mem_cons_self, fun p hp => ?_, fun other hother => ?_, h.apart.tail⟩
    · simpa [Part.isLiteral] using (List.isChain_cons.mp h.apart).1 p hp
    · exact h.notEmpty other (List.mem_cons_of_mem _ hother)
  · rintro ⟨htext, hhead, h⟩
    constructor
    · intro other hother
      rcases List.mem_cons.mp hother with heq | hother
      · exact Part.literal.inj heq ▸ htext
      · exact h.notEmpty other hother
    · exact List.isChain_cons.mpr ⟨fun p hp => by simp [hhead p hp], h.apart⟩

/-- Literal text may be put in front of merged parts that do not start with a literal. -/
theorem isMerged_withText {cs : List Char} {ps : List Part}
    (hhead : ∀ p ∈ ps.head?, p.isLiteral = false) (h : IsMerged ps) : IsMerged (withText cs ps) := by
  unfold withText
  split
  · exact h
  · rename_i hcs
    refine isMerged_literal_cons.mpr ⟨?_, hhead, h⟩
    simpa using hcs

/-- Behind the literal text in front, the joined parts start with a reference and are merged. -/
theorem isMerged_joined (ks : List Chunk) :
    (∀ p ∈ (joined ks).2.head?, p.isLiteral = false) ∧ IsMerged (joined ks).2 := by
  induction ks with
  | nil => exact ⟨by simp [joined], isMerged_nil⟩
  | cons k ks ih =>
    cases hk : k.meaning with
    | text cs =>
      rw [joined_cons_of_text hk]
      exact ih
    | reference r =>
      rw [joined_cons_of_reference hk]
      exact ⟨by simp [Part.isLiteral],
        isMerged_reference_cons.mpr (isMerged_withText ih.1 ih.2)⟩

/-- The parts of chunks are merged. -/
theorem isMerged_partsOf (ks : List Chunk) : IsMerged (partsOf ks) :=
  isMerged_withText (isMerged_joined ks).1 (isMerged_joined ks).2

end Merging

section Atoms

/-- A chunk that stands for a reference is that reference as a part. -/
theorem part_of_reference {k : Chunk} {r : Reference} (h : k.meaning = .reference r) :
    k.part = .reference r := by
  cases k with
  | escapedDollar => cases h
  | plain c => cases h
  | bare name => exact congrArg Part.reference (Meaning.reference.inj h)
  | braced inner =>
    unfold Chunk.meaning at h
    dsimp only at h
    split_ifs at h with hblank
    simp only [Chunk.part, Text.isAllBlank, hblank, Bool.false_eq_true, if_false]
    exact congrArg Part.reference (Meaning.reference.inj h)

/-- A chunk that stands for literal text is its characters. -/
theorem atoms_part_of_text {k : Chunk} {cs : List Char} (h : k.meaning = .text cs) :
    k.part.atoms = cs.map .inl := by
  cases k with
  | escapedDollar =>
    obtain rfl := Meaning.text.inj h
    rfl
  | plain c =>
    obtain rfl := Meaning.text.inj h
    simp [Chunk.part, Part.atoms]
  | bare name => cases h
  | braced inner =>
    unfold Chunk.meaning at h
    dsimp only at h
    split_ifs at h with hblank
    obtain rfl := Meaning.text.inj h
    simp [Chunk.part, Text.isAllBlank, hblank, Part.atoms]

/-- Literal text in front adds its characters in front. -/
theorem atoms_withText (cs : List Char) (ps : List Part) :
    (withText cs ps).flatMap Part.atoms = cs.map .inl ++ ps.flatMap Part.atoms := by
  cases cs with
  | nil => rfl
  | cons c cs => simp [withText, Part.atoms]

/-- The parts of some chunks are taken apart into what the chunks are. -/
theorem atoms_partsOf (ks : List Chunk) :
    (partsOf ks).flatMap Part.atoms = (ks.map Chunk.part).flatMap Part.atoms := by
  rw [partsOf, atoms_withText]
  induction ks with
  | nil => rfl
  | cons k ks ih =>
    rw [List.map_cons, List.flatMap_cons, ← ih]
    cases hk : k.meaning with
    | text cs => simp [joined_cons_of_text hk, atoms_part_of_text hk]
    | reference r =>
      rw [joined_cons_of_reference hk, part_of_reference hk, List.flatMap_cons, atoms_withText]
      rfl

/-- Literal text ends in front of a part that is none. -/
theorem takeWhile_atoms {ps : List Part} (hhead : ∀ p ∈ ps.head?, p.isLiteral = false) :
    (ps.flatMap Part.atoms).takeWhile Sum.isLeft = [] := by
  cases ps with
  | nil => rfl
  | cons p ps =>
    cases p with
    | literal text => simpa [Part.isLiteral] using hhead _ rfl
    | reference r => rfl

/-- Two texts in front of atoms that do not go on with characters are told by all of it. -/
theorem eq_of_atoms_append {cs others : List Char} {rest after : List (Char ⊕ Reference)}
    (hrest : rest.takeWhile Sum.isLeft = []) (hafter : after.takeWhile Sum.isLeft = [])
    (h : cs.map .inl ++ rest = others.map .inl ++ after) : cs = others ∧ rest = after := by
  have htake : ∀ (list : List Char) (more : List (Char ⊕ Reference)),
      more.takeWhile Sum.isLeft = [] →
        (list.map Sum.inl ++ more).takeWhile Sum.isLeft = list.map Sum.inl := by
    intro list more hmore
    rw [List.takeWhile_append_of_pos (by simp), hmore, List.append_nil]
  have hchars := congrArg (List.takeWhile Sum.isLeft) h
  rw [htake _ _ hrest, htake _ _ hafter] at hchars
  obtain rfl := List.map_injective_iff.mpr Sum.inl_injective hchars
  exact ⟨rfl, List.append_cancel_left h⟩

/-- Merged parts that are taken apart into the same are the same. -/
theorem IsMerged.eq_of_atoms {ps qs : List Part} (hp : IsMerged ps) (hq : IsMerged qs)
    (h : ps.flatMap Part.atoms = qs.flatMap Part.atoms) : ps = qs := by
  have hliteral : ∀ {text : String} {rest : List Part}, IsMerged (.literal text :: rest) →
      ∃ c cs, text.toList = c :: cs := by
    intro text rest hmerged
    refine List.exists_cons_of_ne_nil fun hempty => (isMerged_literal_cons.mp hmerged).1 ?_
    rwa [String.toList_eq_nil_iff] at hempty
  induction ps generalizing qs with
  | nil =>
    cases qs with
    | nil => rfl
    | cons q qs =>
      cases q with
      | literal text =>
        obtain ⟨c, cs, htext⟩ := hliteral hq
        simp [Part.atoms, htext] at h
      | reference r => simp [Part.atoms] at h
  | cons p ps ih =>
    cases p with
    | literal text =>
      obtain ⟨c, cs, htext⟩ := hliteral hp
      obtain ⟨-, hhead, hrest⟩ := isMerged_literal_cons.mp hp
      cases qs with
      | nil => simp [Part.atoms, htext] at h
      | cons q qs =>
        cases q with
        | literal other =>
          obtain ⟨-, hhead', hrest'⟩ := isMerged_literal_cons.mp hq
          rw [List.flatMap_cons, List.flatMap_cons] at h
          obtain ⟨hsame, hatoms⟩ :=
            eq_of_atoms_append (takeWhile_atoms hhead) (takeWhile_atoms hhead') h
          rw [String.toList_injective hsame, ih hrest hrest' hatoms]
        | reference r => simp [Part.atoms, htext] at h
    | reference r =>
      have hrest := isMerged_reference_cons.mp hp
      cases qs with
      | nil => simp [Part.atoms] at h
      | cons q qs =>
        cases q with
        | literal text =>
          obtain ⟨c, cs, htext⟩ := hliteral hq
          simp [Part.atoms, htext] at h
        | reference s =>
          rw [List.flatMap_cons, List.flatMap_cons] at h
          obtain ⟨hsame, hatoms⟩ := List.cons.inj h
          rw [Sum.inr.inj hsame, ih hrest (isMerged_reference_cons.mp hq) hatoms]

end Atoms

section External

variable {cs : List Char}

/-- Without a line feed at its end, a text closes once exactly when its last character is its only
closing bracket. -/
theorem closesOnce_iff (hline : cs.getLast? ≠ some '\n') :
    closesOnce cs = true ↔ ∃ x, cs = x ++ [']'] ∧ ']' ∉ x := by
  have hfront : ∀ c ∈ cs.takeWhile (· != ']'), c ≠ ']' := fun c hc => by
    simpa using List.mem_takeWhile_imp hc
  have hsplit := List.takeWhile_append_dropWhile (p := (· != ']')) (l := cs)
  constructor
  · intro h
    unfold closesOnce at h
    split at h
    · rename_i hclose
      rw [hclose] at hsplit
      exact ⟨_, hsplit.symm, fun hmem => hfront _ hmem rfl⟩
    · rename_i hclose
      rw [hclose] at hsplit
      exact absurd (by rw [← hsplit]; simp) hline
    · cases h
  · rintro ⟨x, rfl, hx⟩
    have hall : ∀ c ∈ x, (c != ']') = true := fun c hc =>
      bne_iff_ne.mpr (ne_of_mem_of_not_mem hc hx)
    rw [closesOnce, List.dropWhile_append_of_pos hall]
    rfl

/-- Without a line feed at its end, a text is one line exactly when it is not empty and has no line
feed. -/
theorem isOneLine_iff (hline : cs.getLast? ≠ some '\n') :
    isOneLine cs = true ↔ cs ≠ [] ∧ '\n' ∉ cs := by
  simp only [isOneLine, hline, if_false, Bool.and_eq_true, Bool.not_eq_true',
    List.isEmpty_eq_false_iff, List.all_eq_true, bne_iff_ne]
  refine and_congr_right fun _ => ?_
  exact ⟨fun h hmem => h _ hmem rfl, fun h c hc heq => h (heq ▸ hc)⟩

/-- A name that does not end in a line feed is external as a whole. -/
theorem isExternal_iff {name : List Char} (hline : name.getLast? ≠ some '\n') :
    isExternal name = true ↔ IsExternalName name := by
  have hrest : ∀ front rest, name = front ++ rest → rest.getLast? ≠ some '\n' := by
    rintro front rest rfl hlast
    rw [List.getLast?_append, hlast] at hline
    exact hline rfl
  constructor
  · intro h
    unfold isExternal at h
    split at h
    · obtain ⟨x, rfl, hx⟩ := (closesOnce_iff (hrest "ENV[".toList _ rfl)).mp h
      exact .inl ⟨x, .inl rfl, hx⟩
    · obtain ⟨x, rfl, hx⟩ := (closesOnce_iff (hrest "SYSTEM[".toList _ rfl)).mp h
      exact .inl ⟨x, .inr rfl, hx⟩
    · exact .inr ⟨_, .inl rfl, (isOneLine_iff (hrest "env.".toList _ rfl)).mp h⟩
    · exact .inr ⟨_, .inr rfl, (isOneLine_iff (hrest "sys.".toList _ rfl)).mp h⟩
    · cases h
  · rintro (⟨x, rfl | rfl, hx⟩ | ⟨y, rfl | rfl, hy⟩)
    · exact (closesOnce_iff (hrest "ENV[".toList _ rfl)).mpr ⟨x, rfl, hx⟩
    · exact (closesOnce_iff (hrest "SYSTEM[".toList _ rfl)).mpr ⟨x, rfl, hx⟩
    · exact (isOneLine_iff (hrest "env.".toList _ rfl)).mpr hy
    · exact (isOneLine_iff (hrest "sys.".toList _ rfl)).mpr hy

/-- A stripped text does not end in a line feed. -/
theorem getLast?_strip_ne (cs : List Char) : (Text.strip cs).getLast? ≠ some '\n' := by
  intro hlast
  obtain ⟨hne, heq⟩ := List.mem_getLast?_eq_getLast hlast
  have hblank := List.rdropWhile_last_not Text.isBlank (cs.dropWhile Text.isBlank) hne
  have hlineFeed : Text.isBlank '\n' = true := rfl
  rw [heq] at hlineFeed
  exact hblank hlineFeed

/-- A bare name does not end in a line feed. -/
theorem IsBareName.getLast?_ne {name : List Char} (h : IsBareName name) :
    name.getLast? ≠ some '\n' := by
  intro hlast
  have hend := h.final '\n' hlast
  revert hend
  decide

/-- Every chunk of a split fits in front of something. -/
theorem Splits.exists_fits {cs : List Char} {ks : List Chunk} (h : Splits cs ks) {k : Chunk}
    (hk : k ∈ ks) : ∃ rest, k.Fits rest := by
  induction h with
  | nil => cases hk
  | cons first rest ks hfits _ ih =>
    rcases List.mem_cons.mp hk with rfl | hk
    · exact ⟨rest, hfits⟩
    · exact ih hk

/-- A reference of a text is external exactly when its name is, as a whole. -/
theorem external_iff_of_mem_parts {text : String} {r : Reference}
    (hr : .reference r ∈ parts text) : r.external = true ↔ IsExternalName r.name.toList := by
  have hatom : Sum.inr r ∈ ((chunks text.toList).map Chunk.part).flatMap Part.atoms := by
    rw [← atoms_partsOf]
    exact List.mem_flatMap.mpr ⟨_, hr, List.mem_singleton_self _⟩
  obtain ⟨p, hp, hmem⟩ := List.mem_flatMap.mp hatom
  obtain ⟨k, hk, rfl⟩ := List.mem_map.mp hp
  obtain ⟨rest, hfits⟩ := ((splits_iff _ _).mpr rfl).exists_fits hk
  cases k with
  | escapedDollar => simp [Chunk.part, Part.atoms] at hmem
  | plain c => simp [Chunk.part, Part.atoms] at hmem
  | bare name =>
    obtain rfl := Sum.inr.inj (List.mem_singleton.mp hmem)
    rw [String.toList_ofList]
    exact isExternal_iff hfits.1.getLast?_ne
  | braced inner =>
    by_cases hblank : Text.isAllBlank inner = true
    · simp [Chunk.part, Part.atoms, hblank] at hmem
    · simp only [Chunk.part, hblank, Bool.false_eq_true, if_false, Part.atoms,
        List.mem_singleton, Sum.inr.injEq] at hmem
      subst hmem
      rw [String.toList_ofList]
      exact isExternal_iff (getLast?_strip_ne inner)

end External

/-- A text has one split by the grammar. Its parts are what the chunks of that split stand for,
merged, and no other merged parts are; and the references among them are external by their whole
names. -/
theorem parts_grammar (text : String) :
    ∃ ks, (∀ others, Splits text.toList others ↔ others = ks) ∧
      (∀ ps, ps = parts text ↔
        IsMerged ps ∧ ps.flatMap Part.atoms = (ks.map Chunk.part).flatMap Part.atoms) ∧
      ∀ r, .reference r ∈ parts text → (r.external = true ↔ IsExternalName r.name.toList) := by
  have hmerged : IsMerged (parts text) := isMerged_partsOf _
  have hatoms := atoms_partsOf (chunks text.toList)
  refine ⟨chunks text.toList, splits_iff text.toList, fun ps => ?_,
    fun r => external_iff_of_mem_parts⟩
  constructor
  · rintro rfl
    exact ⟨hmerged, hatoms⟩
  · rintro ⟨hps, hsame⟩
    exact hps.eq_of_atoms hmerged (hsame.trans hatoms.symm)

/-- A name ends in front of its last dot, a brace that is not closed is literal text, and the name
of an environment variable keeps its blanks. -/
theorem parts_grammar_mixed :
    let text := "$$$\x7b ENV[A B] \x7d$a.b.-$\x7bx"
    parts text = [.literal "$",
      .reference ⟨"ENV[A B]", true, "$\x7b ENV[A B] \x7d"⟩, .reference ⟨"a.b", false, "$a.b"⟩,
      .literal ".-$\x7bx"] ∧
      IsExternalName "ENV[A B]".toList ∧ ¬ IsExternalName "a.b".toList := by
  intro text
  have hparts : parts text = [.literal "$",
      .reference ⟨"ENV[A B]", true, "$\x7b ENV[A B] \x7d"⟩, .reference ⟨"a.b", false, "$a.b"⟩,
      .literal ".-$\x7bx"] := by decide
  obtain ⟨-, -, -, hexternal⟩ := parts_grammar text
  refine ⟨hparts, ?_, ?_⟩
  · exact (hexternal ⟨"ENV[A B]", true, "$\x7b ENV[A B] \x7d"⟩ (by simp [hparts])).mp rfl
  · exact mt (hexternal ⟨"a.b", false, "$a.b"⟩ (by simp [hparts])).mpr (by simp)

end VariableOrder.Placeholder
