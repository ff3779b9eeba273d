import Mathlib.Algebra.Group.Nat.Even
import VariableOrder.Proofs.Placeholder.Grammar

/-!
# Placeholders between texts

A placeholder between braces makes the same reference whatever stands around it, and what stands
around it has the parts that it has on its own. Only one thing in front of it could go wrong: a
dollar sign that is not the second of a pair would make a pair with the one of the placeholder. So
the text in front has to end in an even run of dollar signs.

Every chunk of the text in front is cut off as before. The dollar sign of the placeholder ends a
bare name as the end of the text did, and its opening brace leaves a brace in front of it unclosed.
-/

set_option autoImplicit false

namespace VariableOrder.Placeholder

/-- The length of the run of dollar signs at the end of a text. -/
def dollarsAtEnd (cs : List Char) : Nat :=
  (cs.rtakeWhile (· == '$')).length

section Dollars

/-- Behind any other character the run is that of the rest. -/
theorem dollarsAtEnd_append_of_ne {d : Char} (hd : d ≠ '$') (front cs : List Char) :
    dollarsAtEnd (front ++ d :: cs) = dollarsAtEnd cs := by
  induction cs using List.reverseRecOn with
  | nil => simp [dollarsAtEnd, hd]
  | append_singleton cs c ih =>
    rw [← List.cons_append, ← List.append_assoc]
    unfold dollarsAtEnd at ih ⊢
    rw [List.rtakeWhile_concat, List.rtakeWhile_concat]
    split
    · rw [List.length_append, List.length_append, ih]
    · rfl

/-- A text of dollar signs ends in all of them. -/
theorem dollarsAtEnd_of_forall {cs : List Char} (h : ∀ c ∈ cs, c = '$') :
    dollarsAtEnd cs = cs.length := by
  unfold dollarsAtEnd
  rw [List.rtakeWhile_eq_self_iff.mpr fun c hc => by simp [h c hc]]

/-- A pair of dollar signs in front does not change whether the run is even. -/
theorem even_dollarsAtEnd_pair (cs : List Char) :
    Even (dollarsAtEnd ('$' :: '$' :: cs)) ↔ Even (dollarsAtEnd cs) := by
  by_cases h : ∀ c ∈ cs, c = '$'
  · rw [dollarsAtEnd_of_forall h, dollarsAtEnd_of_forall (by simpa using h)]
    simp [parity_simps]
  · push Not at h
    obtain ⟨d, hd, hne⟩ := h
    obtain ⟨front, back, rfl⟩ := List.append_of_mem hd
    rw [← List.cons_append, ← List.cons_append, dollarsAtEnd_append_of_ne hne,
      dollarsAtEnd_append_of_ne hne]

/-- No dollar sign stands in a bare name. -/
theorem IsBareName.dollar_not_mem {name : List Char} (h : IsBareName name) : '$' ∉ name := by
  intro hmem
  have hinner := h.inner '$' hmem
  revert hinner
  decide

/-- A chunk ends in another character, unless it is made of dollar signs only. -/
theorem Chunk.Leads.exists_source_eq {k : Chunk} {rest : List Char} (h : k.Leads rest)
    (hpair : k ≠ .escapedDollar) (hlone : k ≠ .plain '$') :
    ∃ front d, d ≠ '$' ∧ k.source = front ++ [d] := by
  cases k with
  | escapedDollar => exact absurd rfl hpair
  | braced inner => exact ⟨'$' :: '{' :: inner, '}', by decide, rfl⟩
  | bare name =>
    obtain ⟨hname, -⟩ := (fits_bare_iff name rest).mpr h
    obtain ⟨c, tail, rfl, -⟩ := hname.start
    obtain ⟨front, d, hlast⟩ := List.eq_nil_or_concat (c :: tail) |>.resolve_left (by simp)
    refine ⟨'$' :: front, d, ?_, by rw [Chunk.source, hlast]; simp⟩
    rintro rfl
    exact hname.dollar_not_mem (by simp [hlast])
  | plain c => exact ⟨[], c, fun hc => hlone (hc ▸ rfl), rfl⟩

/-- Behind a chunk that leads it, a text ends in an even run as the whole does, and there is
something behind a lone dollar sign. -/
theorem even_dollarsAtEnd_of_leads {k : Chunk} {rest : List Char} (hleads : k.Leads rest)
    (h : Even (dollarsAtEnd (k.source ++ rest))) :
    Even (dollarsAtEnd rest) ∧ (k = .plain '$' → rest ≠ []) := by
  by_cases hpair : k = .escapedDollar
  · subst hpair
    exact ⟨(even_dollarsAtEnd_pair rest).mp h, by simp⟩
  by_cases hlone : k = .plain '$'
  · subst hlone
    obtain ⟨hhead, -, -⟩ := (fits_plain_iff '$' rest).mpr hleads rfl
    cases rest with
    | nil => exact absurd h (by decide)
    | cons c more =>
      have hc : c ≠ '$' := by simpa using hhead
      refine ⟨?_, by simp⟩
      have hrun := dollarsAtEnd_append_of_ne hc [] more
      rw [Chunk.source, dollarsAtEnd_append_of_ne hc] at h
      exact hrun ▸ h
  · obtain ⟨front, d, hd, hsource⟩ := hleads.exists_source_eq hpair hlone
    rw [hsource, List.append_assoc, List.singleton_append, dollarsAtEnd_append_of_ne hd] at h
    exact ⟨h, fun heq => absurd heq hlone⟩

end Dollars

section Chunks

variable {k : Chunk} {rest more : List Char}

/-- A lone dollar sign stays one, since the brace of the placeholder opens and does not close. -/
theorem leads_plain_dollar_append (h : (Chunk.plain '$').Leads rest) (hrest : rest ≠ []) :
    (Chunk.plain '$').Leads (rest ++ '$' :: '{' :: more) := by
  obtain ⟨hhead, hbraced, hbare⟩ := (fits_plain_iff '$' rest).mpr h rfl
  refine (fits_plain_iff '$' _).mp fun _ => ⟨?_, ?_, ?_⟩
  · rwa [List.head?_append_of_ne_nil _ hrest]
  · intro inner after htext
    obtain ⟨c, others, rfl⟩ := List.exists_cons_of_ne_nil hrest
    rw [List.cons_append, List.cons.injEq] at htext
    obtain ⟨rfl, htext⟩ := htext
    rcases List.append_eq_append_iff.mp htext with ⟨back, rfl, hafter⟩ | ⟨back, rfl, hafter⟩
    · -- the closing brace stands behind the opening one of the placeholder
      match back, hafter with
      | [], hafter => exact absurd (List.cons.inj hafter).1 (by decide)
      | [_], hafter => exact absurd (List.cons.inj (List.cons.inj hafter).2).1 (by decide)
      | _ :: d :: ds, hafter =>
        obtain ⟨rfl, -⟩ := List.cons.inj (List.cons.inj hafter).2
        exact .inl (by simp)
    · cases back with
      | nil => exact absurd (List.cons.inj hafter).1 (by decide)
      | cons d ds =>
        obtain ⟨rfl, -⟩ := List.cons.inj hafter
        exact hbraced inner ds rfl
  · intro name hname hstarts
    have hdollar : rest ++ ['$'] <+: rest ++ '$' :: '{' :: more := by simp
    rcases List.prefix_or_prefix_of_prefix hstarts hdollar with hwithin | hbeyond
    · rcases List.prefix_concat_iff.mp hwithin with rfl | hwithin
      · exact hname.dollar_not_mem (by simp)
      · exact hbare name hname hwithin
    · exact hname.dollar_not_mem (hbeyond.subset (by simp))

/-- A chunk of a text that ends in an even run of dollar signs is cut off in front of a placeholder
as it is on its own. -/
theorem Chunk.Leads.append (h : k.Leads rest) (hk : k = .plain '$' → rest ≠ []) :
    k.Leads (rest ++ '$' :: '{' :: more) := by
  by_cases hlone : k = .plain '$'
  · subst hlone
    exact leads_plain_dollar_append h (hk rfl)
  · refine h.congr hlone ?_
    rw [List.takeWhile_append]
    split_ifs with hall
    · rw [(List.takeWhile_prefix _).eq_of_length hall]
      simp
    · rfl

/-- Behind an even run of dollar signs a braced placeholder starts a new chunk. -/
theorem chunks_append_of_even {cs : List Char} (h : Even (dollarsAtEnd cs)) (more : List Char) :
    chunks (cs ++ '$' :: '{' :: more) = chunks cs ++ chunks ('$' :: '{' :: more) := by
  induction cs using chunk_induction with
  | nil => rfl
  | cons k rest hleads ih =>
    obtain ⟨heven, hlone⟩ := even_dollarsAtEnd_of_leads hleads h
    rw [List.append_assoc, chunks_of_leads (hleads.append hlone), chunks_of_leads hleads, ih heven,
      List.cons_append]

end Chunks

section Parts

/-- Literal text in front of parts does not reach those behind. -/
theorem withText_append (cs : List Char) (ps others : List Part) :
    withText cs (ps ++ others) = withText cs ps ++ others := by
  unfold withText
  split <;> simp

variable {k : Chunk} {r : Reference}

/-- A reference separates the parts in front of it from those behind it. -/
theorem joined_append_of_reference (hk : k.meaning = .reference r) (ks others : List Chunk) :
    joined (ks ++ k :: others) =
      ((joined ks).1, (joined ks).2 ++ .reference r :: partsOf others) := by
  induction ks with
  | nil => rw [List.nil_append, joined_cons_of_reference hk, partsOf]; rfl
  | cons first ks ih =>
    rw [List.cons_append]
    cases hfirst : first.meaning with
    | text cs => rw [joined_cons_of_text hfirst, joined_cons_of_text hfirst, ih]
    | reference s =>
      rw [joined_cons_of_reference hfirst, joined_cons_of_reference hfirst, ih, withText_append,
        List.cons_append]

/-- A reference keeps the parts in front of it and those behind it apart. -/
theorem partsOf_append_of_reference (hk : k.meaning = .reference r) (ks others : List Chunk) :
    partsOf (ks ++ k :: others) = partsOf ks ++ .reference r :: partsOf others := by
  unfold partsOf
  rw [joined_append_of_reference hk, withText_append, partsOf]

/-- A braced placeholder that is not blank stands for the reference to its stripped name. -/
theorem meaning_braced {inner : List Char} (hblank : Text.isAllBlank inner = false) :
    (Chunk.braced inner).meaning =
      .reference (.of (Text.strip inner) (Chunk.braced inner).source) := by
  have hname : (Text.strip inner).isEmpty = false := hblank
  simp only [Chunk.meaning, hname, Bool.false_eq_true, if_false]

end Parts

/-- A placeholder between braces splits a text into parts: those of the text in front of it, if that
ends in an even run of dollar signs, the reference to the name between the braces, and those of the
text behind it. -/
theorem parts_append_placeholder {a x b : String} (heven : Even (dollarsAtEnd a.toList))
    (hbraces : '{' ∉ x.toList ∧ '}' ∉ x.toList) (hblank : Text.isAllBlank x.toList = false) :
    parts (a ++ ("$\x7b" ++ x ++ "\x7d") ++ b) =
      parts a ++ .reference ⟨String.ofList (Text.strip x.toList),
        isExternal (Text.strip x.toList), "$\x7b" ++ x ++ "\x7d"⟩ :: parts b := by
  have hleads : (Chunk.braced x.toList).Leads b.toList := (fits_braced_iff _ _).mp hbraces
  have hraw : String.ofList (Chunk.braced x.toList).source = "$\x7b" ++ x ++ "\x7d" := by
    simp [Chunk.source, ← String.toList_inj]
  have htext : (a ++ ("$\x7b" ++ x ++ "\x7d") ++ b).toList =
      a.toList ++ '$' :: '{' :: (x.toList ++ '}' :: b.toList) := by
    simp
  have hcut : chunks ('$' :: '{' :: (x.toList ++ '}' :: b.toList)) =
      .braced x.toList :: chunks b.toList := by
    rw [← chunks_of_leads hleads]
    simp [Chunk.source]
  rw [parts, htext, chunks_append_of_even heven, hcut,
    partsOf_append_of_reference (meaning_braced hblank), Reference.of, hraw]
  rfl

/-- Two pairs of dollar signs, an open brace and a bare name stand in front of the placeholder, and
a closing brace behind it. -/
theorem parts_append_placeholder_between :
    let a := "$\x7bb $c.$$$$"
    let x := " ENV[A$] "
    let b := "\x7d$d"
    Even (dollarsAtEnd a.toList) ∧ ('{' ∉ x.toList ∧ '}' ∉ x.toList) ∧
      Text.isAllBlank x.toList = false ∧
      parts (a ++ ("$\x7b" ++ x ++ "\x7d") ++ b) = [.literal "$\x7bb ",
        .reference ⟨"c", false, "$c"⟩, .literal ".$$",
        .reference ⟨"ENV[A$]", true, "$\x7b ENV[A$] \x7d"⟩, .literal "\x7d",
        .reference ⟨"d", false, "$d"⟩] := by
  intro a x b
  have heven : Even (dollarsAtEnd a.toList) := by decide
  have hbraces : '{' ∉ x.toList ∧ '}' ∉ x.toList := by decide
  have hblank : Text.isAllBlank x.toList = false := by decide
  refine ⟨heven, hbraces, hblank, ?_⟩
  rw [parts_append_placeholder heven hbraces hblank]
  decide

/-- A single dollar sign in front makes a pair with that of the placeholder. -/
example : parts ("$" ++ "$\x7bx\x7d") = [.literal "$\x7bx\x7d"] := by decide

end VariableOrder.Placeholder
