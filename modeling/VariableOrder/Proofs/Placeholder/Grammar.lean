import VariableOrder.Proofs.Placeholder.Written

/-!
# The grammar of expression texts

A text is split from left to right into escaped dollar signs, braced placeholders, bare placeholders
and single characters. A bare name is the longest one that follows its dollar sign, and a dollar
sign is a character of its own only where nothing else starts with it. There is one such split of
every text, and it is the one into the chunks of the text.

The parts of a text are what its chunks stand for, with neighbouring literal text merged and empty
literal text left out. Taken apart into characters and references, the parts are the chunks; merged
parts are told by that.
-/

set_option autoImplicit false

namespace VariableOrder.Placeholder

/-- A bare name starts with a letter or an underscore, goes on with letters, digits, underscores,
dots and dashes, and ends in neither a dot nor a dash. -/
structure IsBareName (name : List Char) : Prop where
  start : ∃ c tail, name = c :: tail ∧ (c.isAlpha ∨ c = '_')
  inner : ∀ c ∈ name, c.isAlphanum ∨ c = '_' ∨ c = '.' ∨ c = '-'
  final : ∀ c ∈ name.getLast?, c.isAlphanum ∨ c = '_'

/-- Whether the grammar has the chunk in front of the rest of a text. -/
def Chunk.Fits (k : Chunk) (rest : List Char) : Prop :=
  match k with
  | .escapedDollar => True
  | .braced inner => '{' ∉ inner ∧ '}' ∉ inner
  | .bare name => IsBareName name ∧
      ∀ longer, IsBareName longer → longer <+: name ++ rest → longer.length ≤ name.length
  | .plain c => c = '$' →
      rest.head? ≠ some '$' ∧
      (∀ inner after, rest = '{' :: (inner ++ '}' :: after) → '{' ∈ inner ∨ '}' ∈ inner) ∧
      ∀ name, IsBareName name → ¬ name <+: rest

/-- A split of a text into chunks, each of which fits in front of the rest. -/
inductive Splits : List Char → List Chunk → Prop
  | nil : Splits [] []
  | cons (k : Chunk) (rest : List Char) (ks : List Chunk) (hfits : k.Fits rest)
    (hrest : Splits rest ks) : Splits (k.source ++ rest) (k :: ks)

section BareName

/-- What can follow the first character of a bare name. -/
def IsNameTail (tail : List Char) : Prop :=
  (∀ c ∈ tail, isNameInner c = true) ∧ ∀ c ∈ tail.getLast?, isNameEnd c = true

/-- What a bare name can start with it can also end with. -/
theorem isNameEnd_of_isNameStart {c : Char} (h : isNameStart c = true) : isNameEnd c = true := by
  simp only [isNameStart, isNameEnd, Char.isAlphanum, Bool.or_eq_true, decide_eq_true_eq] at h ⊢
  tauto

/-- A bare name is a first character and what can follow it. -/
theorem isBareName_cons_iff (c : Char) (tail : List Char) :
    IsBareName (c :: tail) ↔ isNameStart c = true ∧ IsNameTail tail := by
  have hend : ∀ d : Char, (d.isAlphanum ∨ d = '_') ↔ isNameEnd d = true := by simp [isNameEnd]
  have hinner : ∀ d : Char,
      (d.isAlphanum ∨ d = '_' ∨ d = '.' ∨ d = '-') ↔ isNameInner d = true := by
    simp [isNameInner, isNameEnd, or_assoc]
  constructor
  · rintro ⟨⟨d, more, heq, hstart⟩, hall, hlast⟩
    obtain ⟨rfl, rfl⟩ := List.cons.inj heq
    refine ⟨by simpa [isNameStart] using hstart, ?_, ?_⟩
    · exact fun d hd => (hinner d).mp (hall d (List.mem_cons_of_mem c hd))
    · intro d hd
      refine (hend d).mp (hlast d ?_)
      rw [List.getLast?_cons, Option.mem_def.mp hd]
      rfl
  · rintro ⟨hstart, hall, hlast⟩
    have hfirst := isNameEnd_of_isNameStart hstart
    refine ⟨⟨c, tail, rfl, by simpa [isNameStart] using hstart⟩, ?_, ?_⟩
    · intro d hd
      rw [hinner]
      rcases List.mem_cons.mp hd with rfl | hd
      · simp [isNameInner, hfirst]
      · exact hall d hd
    · intro d hd
      rw [hend]
      cases htail : tail.getLast? with
      | none =>
        rw [List.getLast?_cons, htail] at hd
        exact Option.some.inj hd ▸ hfirst
      | some e =>
        rw [List.getLast?_cons, htail] at hd
        exact hlast d (htail.trans hd)

/-- What is read behind the first character of a bare name can follow it. -/
theorem isNameTail_nameTail (cs : List Char) : IsNameTail (nameTail cs) := by
  constructor
  · intro c hc
    have hrun := (List.rdropWhile_prefix (fun c => !isNameEnd c) _).subset hc
    exact List.mem_takeWhile_imp hrun
  · intro c hc
    obtain ⟨hne, rfl⟩ := List.mem_getLast?_eq_getLast hc
    have hlast := List.rdropWhile_last_not (fun c => !isNameEnd c) (cs.takeWhile isNameInner) hne
    rw [Bool.not_eq_true', Bool.not_eq_false] at hlast
    exact hlast

/-- Whatever can continue a bare name is at the front of what does. -/
theorem prefix_nameTail {tail cs : List Char} (hstarts : tail <+: cs) (htail : IsNameTail tail) :
    tail <+: nameTail cs := by
  obtain ⟨more, rfl⟩ := hstarts
  unfold nameTail
  rw [List.takeWhile_append_of_pos htail.1, List.reverse_append, List.dropWhile_append]
  split
  · -- nothing of the rest can end a name, but the last character of the continuation can
    have hkeeps : tail.reverse.dropWhile (fun c => !isNameEnd c) = tail.reverse := by
      cases hrev : tail.reverse with
      | nil => rfl
      | cons c others =>
        have hlast : tail.getLast? = some c := by
          rw [← List.head?_reverse, hrev]
          rfl
        simp [htail.2 c hlast]
    have hall : (tail.reverse.dropWhile fun c => !isNameEnd c).reverse = tail := by
      rw [hkeeps, List.reverse_reverse]
    exact ⟨[], by rw [List.append_nil, hall]⟩
  · rw [List.reverse_append, List.reverse_reverse]
    exact List.prefix_append _ _

end BareName

/-- One text is led by one chunk only. -/
theorem Chunk.Leads.unique {k other : Chunk} {rest after : List Char} (h : k.Leads rest)
    (hother : other.Leads after) (htext : k.source ++ rest = other.source ++ after) :
    k = other := by
  obtain ⟨c, body, hsource, hk⟩ := h
  obtain ⟨d, more, hsource', hk'⟩ := hother
  rw [hsource, hsource', List.cons_append, List.cons_append] at htext
  obtain ⟨rfl, hrest⟩ := List.cons.inj htext
  rw [← hk, ← hk', hrest]

/-- A bare name is led by the longest one. -/
theorem exists_leads_bare {name rest : List Char} (hname : IsBareName name) (h : name <+: rest) :
    ∃ longest after, rest = longest ++ after ∧ (Chunk.bare longest).Leads after := by
  obtain ⟨c, tail, rfl, -⟩ := hname.start
  obtain ⟨hstart, -⟩ := (isBareName_cons_iff c tail).mp hname
  obtain ⟨more, rfl⟩ := h
  obtain ⟨after, hafter⟩ := nameTail_starts (tail ++ more)
  refine ⟨c :: nameTail (tail ++ more), after, by rw [List.cons_append, List.cons_append, hafter],
    ?_⟩
  exact (leads_bare_iff _ _).mpr ⟨c, _, rfl, hstart, by rw [hafter]⟩

/-- The longest name that follows its dollar sign is the one that is read. -/
theorem fits_bare_iff (name rest : List Char) :
    (Chunk.bare name).Fits rest ↔ (Chunk.bare name).Leads rest := by
  rw [leads_bare_iff]
  constructor
  · rintro ⟨hname, hlongest⟩
    obtain ⟨c, tail, rfl, -⟩ := hname.start
    obtain ⟨hstart, htail⟩ := (isBareName_cons_iff c tail).mp hname
    refine ⟨c, tail, rfl, hstart, ?_⟩
    have hlonger : IsBareName (c :: nameTail (tail ++ rest)) :=
      (isBareName_cons_iff _ _).mpr ⟨hstart, isNameTail_nameTail _⟩
    have hlength := hlongest _ hlonger (List.prefix_cons_inj c |>.mpr (nameTail_starts _))
    have hstarts := prefix_nameTail (List.prefix_append tail rest) htail
    exact (hstarts.eq_of_length_le (by simpa using hlength)).symm
  · rintro ⟨c, tail, rfl, hstart, htail⟩
    constructor
    · exact (isBareName_cons_iff c tail).mpr ⟨hstart, htail ▸ isNameTail_nameTail _⟩
    · intro longer hlonger hstarts
      obtain ⟨d, more, rfl, -⟩ := hlonger.start
      rw [List.cons_append] at hstarts
      obtain ⟨rfl, hmore⟩ := List.cons_prefix_cons.mp hstarts
      have hwithin := prefix_nameTail hmore ((isBareName_cons_iff _ _).mp hlonger).2
      rw [htail] at hwithin
      simpa using hwithin.length_le

/-- A braced placeholder fits exactly where it is read. -/
theorem fits_braced_iff (inner rest : List Char) :
    (Chunk.braced inner).Fits rest ↔ (Chunk.braced inner).Leads rest := by
  rw [leads_braced_iff]
  simp only [Chunk.Fits, isBrace, Bool.or_eq_false_iff, decide_eq_false_iff_not, forall_and]
  constructor
  · rintro ⟨hopen, hclose⟩
    exact ⟨fun c hc heq => hopen (heq ▸ hc), fun c hc heq => hclose (heq ▸ hc)⟩
  · rintro ⟨hopen, hclose⟩
    exact ⟨fun h => hopen _ h rfl, fun h => hclose _ h rfl⟩

/-- A dollar sign is a character of its own exactly where nothing else starts with it, and any other
character always is. -/
theorem fits_plain_iff (c : Char) (rest : List Char) :
    (Chunk.plain c).Fits rest ↔ (Chunk.plain c).Leads rest := by
  by_cases hc : c = '$'
  · subst hc
    constructor
    · intro hfits
      obtain ⟨hdollar, hbraced, hbare⟩ := hfits rfl
      -- some chunk starts here, and it is none of the others
      obtain ⟨k, after, htext, hleads⟩ := exists_leads '$' rest
      cases k with
      | escapedDollar =>
        rw [Chunk.source, List.cons_append] at htext
        exact absurd (by rw [(List.cons.inj htext).2]; rfl) hdollar
      | braced inner =>
        have hinner := (fits_braced_iff inner after).mpr hleads
        rw [Chunk.source, List.cons_append] at htext
        exact absurd (hbraced inner after (by simpa using (List.cons.inj htext).2))
          (not_or.mpr hinner)
      | bare name =>
        rw [Chunk.source, List.cons_append] at htext
        exact absurd ⟨after, (List.cons.inj htext).2.symm⟩
          (hbare name ((fits_bare_iff name after).mpr hleads).1)
      | plain d =>
        obtain ⟨rfl, rfl⟩ := List.cons.inj htext
        exact hleads
    · intro hleads _
      have hother : ∀ {k : Chunk} {after : List Char}, k.Leads after → k ≠ .plain '$' →
          '$' :: rest ≠ k.source ++ after := fun hk hne htext =>
        hne (hleads.unique hk htext).symm
      refine ⟨?_, ?_, ?_⟩
      · intro hhead
        obtain ⟨after, rfl⟩ := List.head?_eq_some_iff.mp hhead
        exact hother (leads_escapedDollar after) (by simp) rfl
      · rintro inner after rfl
        by_contra hnone
        have hbraced := (fits_braced_iff inner after).mp (not_or.mp hnone)
        exact hother hbraced (by simp) (by simp [Chunk.source])
      · intro name hname hstarts
        obtain ⟨longest, after, rfl, hbare⟩ := exists_leads_bare hname hstarts
        exact hother hbare (by simp) rfl
  · exact iff_of_true (fun h => absurd h hc) (leads_plain hc rest)

/-- A chunk fits in front of a text exactly when the text is cut behind it. -/
theorem fits_iff_leads (k : Chunk) (rest : List Char) : k.Fits rest ↔ k.Leads rest := by
  cases k with
  | escapedDollar => exact iff_of_true trivial (leads_escapedDollar rest)
  | braced inner => exact fits_braced_iff inner rest
  | bare name => exact fits_bare_iff name rest
  | plain c => exact fits_plain_iff c rest

/-- A text has one split, the one into its chunks. -/
theorem splits_iff (cs : List Char) (ks : List Chunk) : Splits cs ks ↔ ks = chunks cs := by
  constructor
  · intro h
    induction h with
    | nil => rfl
    | cons k rest ks hfits _ ih => rw [chunks_of_leads ((fits_iff_leads k rest).mp hfits), ih]
  · rintro rfl
    induction cs using chunk_induction with
    | nil => exact .nil
    | cons k rest hleads ih =>
      rw [chunks_of_leads hleads]
      exact .cons k rest _ ((fits_iff_leads k rest).mpr hleads) ih

end VariableOrder.Placeholder
