import Mathlib.Data.List.Chain
import VariableOrder.Placeholder.Parts
import VariableOrder.Proofs.Placeholder.Chunk

/-!
# Writing and reading parts

Parts are written one behind the other, with every dollar sign of a literal part doubled. Reading
what was written gives the parts back: always if they were read from a text, and otherwise if they
are as parts of a text are, with literal parts that are merged and placeholders between braces.

Whatever is written falls into the chunks that it was written as. A doubled dollar sign and a
placeholder between braces are cut off in front of any text. A bare placeholder is not, but the
text behind it is written again with the same characters up to the next dollar sign, and so the
name still ends where it did.
-/

set_option autoImplicit false

namespace VariableOrder.Placeholder

/-- The text that parts are written as. -/
def textOf (ps : List Part) : String :=
  String.join (ps.map Part.written)

/-- The chunks that literal text is written as. -/
def literalChunks (cs : List Char) : List Chunk :=
  cs.map fun c => if c = '$' then .escapedDollar else .plain c

/-- The chunks that a chunk is written as after it was read. -/
def Chunk.rewritten (k : Chunk) : List Chunk :=
  match k.meaning with
  | .text cs => literalChunks cs
  | .reference _ => [k]

section Meaning

variable {k : Chunk}

/-- A chunk that stands for literal text is written as this text. -/
theorem rewritten_of_text {cs : List Char} (h : k.meaning = .text cs) :
    k.rewritten = literalChunks cs := by
  simp only [Chunk.rewritten, h]

/-- A chunk that stands for a reference is written as it was. -/
theorem rewritten_of_reference {r : Reference} (h : k.meaning = .reference r) :
    k.rewritten = [k] := by
  simp only [Chunk.rewritten, h]

/-- Literal text in front is joined to the text behind it. -/
theorem joined_cons_of_text {cs : List Char} (h : k.meaning = .text cs) (ks : List Chunk) :
    joined (k :: ks) = (cs ++ (joined ks).1, (joined ks).2) := by
  simp only [joined, h]

/-- A reference in front ends the literal text in front and is followed by the text behind it. -/
theorem joined_cons_of_reference {r : Reference} (h : k.meaning = .reference r)
    (ks : List Chunk) :
    joined (k :: ks) = ([], .reference r :: withText (joined ks).1 (joined ks).2) := by
  simp only [joined, h]

/-- Only a placeholder makes a reference, and the reference keeps it as it was. -/
theorem toList_written_of_meaning {r : Reference} (h : k.meaning = .reference r) :
    r.written.toList = k.source := by
  have hraw : ∀ name : List Char, k.source ≠ [] →
      (Reference.of name k.source).written.toList = k.source := by
    intro name hsource
    simp [Reference.written, Reference.of, hsource]
  cases k with
  | escapedDollar => simp [Chunk.meaning] at h
  | plain c => simp [Chunk.meaning] at h
  | bare name =>
    obtain rfl := Meaning.reference.inj h
    exact hraw name (by simp [Chunk.source])
  | braced inner =>
    unfold Chunk.meaning at h
    dsimp only at h
    split_ifs at h with hblank
    obtain rfl := Meaning.reference.inj h
    exact hraw _ (by simp [Chunk.source])

end Meaning

/-- Dollar signs are escaped one by one. -/
theorem escapeDollars_append (cs others : List Char) :
    escapeDollars (cs ++ others) = escapeDollars cs ++ escapeDollars others := by
  simp [escapeDollars]

/-- Parts are written one behind the other. -/
theorem toList_textOf (ps : List Part) :
    (textOf ps).toList = ps.flatMap fun p => p.written.toList := by
  simp [textOf, List.flatMap_map]

/-- The chunks of literal text are written with every dollar sign doubled. -/
theorem source_literalChunks (cs : List Char) :
    (literalChunks cs).flatMap Chunk.source = escapeDollars cs := by
  unfold literalChunks escapeDollars
  rw [List.flatMap_map]
  congr 1
  funext c
  by_cases hc : c = '$' <;> simp [hc, Chunk.source]

/-- Literal text is cut off in front of any text. -/
theorem chunks_escapeDollars (cs rest : List Char) :
    chunks (escapeDollars cs ++ rest) = literalChunks cs ++ chunks rest := by
  induction cs with
  | nil => rfl
  | cons c cs ih =>
    by_cases hc : c = '$'
    · subst hc
      have hcut := chunks_of_leads (leads_escapedDollar (escapeDollars cs ++ rest))
      rw [ih] at hcut
      exact hcut
    · have hcut := chunks_of_leads (leads_plain hc (escapeDollars cs ++ rest))
      rw [ih] at hcut
      simpa [escapeDollars, literalChunks, hc, Chunk.source] using hcut

/-- The chunks of literal text join to this text. -/
theorem joined_literalChunks (cs : List Char) (ks : List Chunk) :
    joined (literalChunks cs ++ ks) = (cs ++ (joined ks).1, (joined ks).2) := by
  induction cs with
  | nil => rfl
  | cons c cs ih =>
    let first : Chunk := if c = '$' then .escapedDollar else .plain c
    have hfirst : first.meaning = .text [c] := by
      by_cases hc : c = '$' <;> simp [first, hc, Chunk.meaning]
    change joined (first :: (literalChunks cs ++ ks)) = _
    rw [joined_cons_of_text hfirst, ih]
    rfl

/-- Literal text in front is written in front, with every dollar sign doubled. -/
theorem written_withText (cs : List Char) (ps : List Part) :
    ((withText cs ps).flatMap fun p => p.written.toList) =
      escapeDollars cs ++ ps.flatMap fun p => p.written.toList := by
  cases cs with
  | nil => rfl
  | cons c cs => simp [withText, Part.written]

/-- The parts of some chunks are written as the chunks that those become. -/
theorem toList_textOf_partsOf (ks : List Chunk) :
    (textOf (partsOf ks)).toList = (ks.flatMap Chunk.rewritten).flatMap Chunk.source := by
  rw [toList_textOf, partsOf, written_withText]
  induction ks with
  | nil => rfl
  | cons k ks ih =>
    rw [List.flatMap_cons, List.flatMap_append, ← ih]
    cases hk : k.meaning with
    | text cs =>
      rw [joined_cons_of_text hk, rewritten_of_text hk, source_literalChunks,
        escapeDollars_append, List.append_assoc]
    | reference r =>
      rw [joined_cons_of_reference hk, rewritten_of_reference hk, List.flatMap_cons,
        written_withText]
      simp [Part.written, toList_written_of_meaning hk, escapeDollars]

/-- Chunks that are written again join to the same parts. -/
theorem joined_rewritten (ks : List Chunk) : joined (ks.flatMap Chunk.rewritten) = joined ks := by
  induction ks with
  | nil => rfl
  | cons k ks ih =>
    rw [List.flatMap_cons]
    cases hk : k.meaning with
    | text cs => rw [rewritten_of_text hk, joined_literalChunks, ih, joined_cons_of_text hk]
    | reference r =>
      rw [rewritten_of_reference hk, List.singleton_append, joined_cons_of_reference hk, ih,
        joined_cons_of_reference hk]

/-- What a chunk is written as starts with a dollar sign if the chunk does. -/
theorem takeWhile_source_rewritten {k : Chunk} (hk : ∀ c, k = .plain c → c = '$')
    (rest : List Char) :
    (k.rewritten.flatMap Chunk.source ++ rest).takeWhile (· != '$') = [] := by
  have hescaped : ∀ cs : List Char,
      (escapeDollars ('$' :: cs) ++ rest).takeWhile (· != '$') = [] := fun _ => rfl
  cases hmeaning : k.meaning with
  | text cs =>
    rw [rewritten_of_text hmeaning, source_literalChunks]
    obtain ⟨others, rfl⟩ : ∃ others, cs = '$' :: others := by
      cases k with
      | escapedDollar => exact ⟨[], (Meaning.text.inj hmeaning).symm⟩
      | bare name => simp [Chunk.meaning] at hmeaning
      | plain c =>
        obtain rfl := hk c rfl
        exact ⟨[], (Meaning.text.inj hmeaning).symm⟩
      | braced inner =>
        unfold Chunk.meaning at hmeaning
        dsimp only at hmeaning
        split_ifs at hmeaning with hblank
        exact ⟨_, (Meaning.text.inj hmeaning).symm⟩
    exact hescaped others
  | reference r =>
    rw [rewritten_of_reference hmeaning]
    cases k with
    | escapedDollar => rfl
    | plain c => simp [Chunk.meaning] at hmeaning
    | bare name => rfl
    | braced inner => rfl

/-- A text is written again with the same characters up to the first dollar sign. -/
theorem takeWhile_rewritten (cs : List Char) :
    (((chunks cs).flatMap Chunk.rewritten).flatMap Chunk.source).takeWhile (· != '$') =
      cs.takeWhile (· != '$') := by
  induction cs using chunk_induction with
  | nil => rfl
  | cons k rest hleads ih =>
    rw [chunks_of_leads hleads, List.flatMap_cons, List.flatMap_append]
    by_cases hk : ∃ c, k = .plain c ∧ c ≠ '$'
    · obtain ⟨c, rfl, hc⟩ := hk
      have hrewritten : (Chunk.plain c).rewritten = [.plain c] := by
        simp [Chunk.rewritten, Chunk.meaning, literalChunks, hc]
      simp [hrewritten, Chunk.source, hc, ih]
    · have hdollar : ∀ c, k = .plain c → c = '$' := by
        intro c hplain
        by_contra hc
        exact hk ⟨c, hplain, hc⟩
      rw [takeWhile_source_rewritten hdollar]
      cases k with
      | escapedDollar => rfl
      | bare name => rfl
      | braced inner => rfl
      | plain c =>
        rw [hdollar c rfl]
        rfl

/-- A text that is written again falls into the chunks that its chunks are written as. -/
theorem chunks_rewritten (cs : List Char) :
    chunks (((chunks cs).flatMap Chunk.rewritten).flatMap Chunk.source) =
      (chunks cs).flatMap Chunk.rewritten := by
  induction cs using chunk_induction with
  | nil => rfl
  | cons k rest hleads ih =>
    rw [chunks_of_leads hleads, List.flatMap_cons, List.flatMap_append]
    cases hk : k.meaning with
    | text cs =>
      rw [rewritten_of_text hk, source_literalChunks, chunks_escapeDollars, ih]
    | reference r =>
      have hplain : k ≠ .plain '$' := by
        rintro rfl
        simp [Chunk.meaning] at hk
      -- the rest changes behind its first dollar sign at most, and that is all that could matter
      have hagain := hleads.congr hplain (takeWhile_rewritten rest).symm
      rw [rewritten_of_reference hk, List.flatMap_singleton, chunks_of_leads hagain, ih]
      rfl

/-- The parts of a text are read back from what they are written as. -/
theorem parts_textOf_parts (text : String) : parts (textOf (parts text)) = parts text := by
  calc parts (textOf (parts text))
      = partsOf ((chunks text.toList).flatMap Chunk.rewritten) := by
        rw [parts, parts, toList_textOf_partsOf, chunks_rewritten]
    _ = parts text := by rw [partsOf, joined_rewritten, parts, partsOf]

/-- Whether a part is literal text. -/
def Part.isLiteral : Part → Bool
  | .literal _ => true
  | .reference _ => false

/-- No literal part is empty, and no two of them are neighbours. -/
structure IsMerged (ps : List Part) : Prop where
  notEmpty : ∀ text, .literal text ∈ ps → text ≠ ""
  apart : ps.IsChain fun a b => ¬ (a.isLiteral ∧ b.isLiteral)

/-- The reference is written between braces, under a name that has no brace in it and no blanks
around it and is not blank, and it is external exactly when its name is. -/
structure Reference.IsBraced (r : Reference) : Prop where
  raw : r.raw = "$\x7b" ++ r.name ++ "\x7d"
  unbraced : ∀ c ∈ r.name.toList, isBrace c = false
  stripped : Text.strip r.name.toList = r.name.toList
  notBlank : Text.isAllBlank r.name.toList = false
  external : r.external = isExternalName r.name

/-- The chunks that a part is written as, if it is literal or a placeholder between braces. -/
def Part.chunks : Part → List Chunk
  | .literal text => literalChunks text.toList
  | .reference r => [.braced r.name.toList]

namespace Reference.IsBraced

variable {r : Reference} (h : r.IsBraced)

include h

/-- A reference between braces is written as a braced placeholder of its name. -/
theorem toList_written : r.written.toList = (Chunk.braced r.name.toList).source := by
  have hraw : r.raw ≠ "" := by
    rw [h.raw]
    simp
  rw [written, if_neg hraw, h.raw]
  simp [Chunk.source]

/-- A braced placeholder of the name of such a reference stands for it. -/
theorem meaning : (Chunk.braced r.name.toList).meaning = .reference r := by
  have hname : r.name.toList.isEmpty = false := by
    rw [← h.stripped]
    exact h.notBlank
  have hsource : String.ofList (Chunk.braced r.name.toList).source = r.raw := by
    rw [h.raw]
    simp [Chunk.source, ← String.toList_inj]
  unfold Chunk.meaning Reference.of
  simp only [h.stripped, hname, hsource, Bool.false_eq_true, if_false, String.ofList_toList]
  rw [← isExternalName, ← h.external]

end Reference.IsBraced

section Braced

variable {ps : List Part} (hbraced : ∀ r, .reference r ∈ ps → r.IsBraced)

include hbraced

/-- Literal text and placeholders between braces are written as their own chunks. -/
theorem chunks_textOf : chunks (textOf ps).toList = ps.flatMap Part.chunks := by
  rw [toList_textOf]
  induction ps with
  | nil => rfl
  | cons p ps ih =>
    have hrest := ih fun r hr => hbraced r (List.mem_cons_of_mem p hr)
    rw [List.flatMap_cons, List.flatMap_cons, ← hrest]
    cases p with
    | literal text =>
      rw [Part.written, String.toList_ofList, chunks_escapeDollars]
      rfl
    | reference r =>
      have hr := hbraced r List.mem_cons_self
      have hleads := (leads_braced_iff r.name.toList
        (ps.flatMap fun p => p.written.toList)).mpr hr.unbraced
      rw [Part.written, hr.toList_written, chunks_of_leads hleads]
      rfl

/-- Parts that are merged are the parts of the chunks that they are written as. -/
theorem partsOf_chunks (hmerged : IsMerged ps) : partsOf (ps.flatMap Part.chunks) = ps := by
  unfold partsOf
  induction ps with
  | nil => rfl
  | cons p ps ih =>
    have hrest := ih (fun r hr => hbraced r (List.mem_cons_of_mem p hr))
      ⟨fun text htext => hmerged.notEmpty text (List.mem_cons_of_mem p htext),
        hmerged.apart.tail⟩
    rw [List.flatMap_cons]
    cases p with
    | reference r =>
      have hr := hbraced r List.mem_cons_self
      rw [Part.chunks, List.singleton_append, joined_cons_of_reference hr.meaning, hrest]
      rfl
    | literal text =>
      -- the next part is a reference, so no literal text of it joins this one
      have hnext : (joined (ps.flatMap Part.chunks)).1 = [] := by
        cases ps with
        | nil => rfl
        | cons next others =>
          cases next with
          | literal other => simpa [Part.isLiteral] using hmerged.apart.rel
          | reference r =>
            have hr := hbraced r (by simp)
            rw [List.flatMap_cons, Part.chunks, List.singleton_append,
              joined_cons_of_reference hr.meaning]
      have htext : text ≠ "" := hmerged.notEmpty text List.mem_cons_self
      rw [hnext] at hrest
      rw [Part.chunks, joined_literalChunks, hnext, List.append_nil]
      change withText text.toList (withText [] (joined (ps.flatMap Part.chunks)).2) = _
      rw [hrest]
      simp [withText, htext]

end Braced

/-- Writing and reading parts are inverse to each other. What was read from a text is read again
from what it is written as, whatever the text; and any parts that are merged, with placeholders
between braces, are read from what they are written as. -/
theorem parts_textOf :
    (∀ text, parts (textOf (parts text)) = parts text) ∧
    ∀ ps, IsMerged ps → (∀ r, .reference r ∈ ps → r.IsBraced) → parts (textOf ps) = ps := by
  refine ⟨parts_textOf_parts, ?_⟩
  intro ps hmerged hbraced
  rw [parts, chunks_textOf hbraced, partsOf_chunks hbraced hmerged]

/-- Literal dollar signs and braces beside placeholders, one of them with a dollar sign in its
name, are read back. -/
theorem parts_textOf_dollars :
    let ps : List Part := [.literal "a$", .reference ⟨"x$y", false, "$\x7bx$y\x7d"⟩,
      .reference ⟨"ENV[HOME]", true, "$\x7bENV[HOME]\x7d"⟩, .literal "$\x7b\x7d$b"]
    IsMerged ps ∧ (∀ r, .reference r ∈ ps → r.IsBraced) ∧ parts (textOf ps) = ps := by
  intro ps
  have hmerged : IsMerged ps := by
    refine ⟨?_, ?_⟩
    · simp [ps]
    · simp [ps, Part.isLiteral]
  have hplain : Reference.IsBraced ⟨"x$y", false, "$\x7bx$y\x7d"⟩ :=
    ⟨by decide, by simp [isBrace], by decide, by decide, by decide⟩
  have hexternal : Reference.IsBraced ⟨"ENV[HOME]", true, "$\x7bENV[HOME]\x7d"⟩ :=
    ⟨by decide, by simp [isBrace], by decide, by decide, by decide⟩
  have hbraced : ∀ r, .reference r ∈ ps → r.IsBraced := by
    intro r hr
    simp only [ps, List.mem_cons, reduceCtorEq, Part.reference.injEq, List.not_mem_nil, false_or,
      or_false] at hr
    rcases hr with rfl | rfl
    · exact hplain
    · exact hexternal
  exact ⟨hmerged, hbraced, parts_textOf.2 ps hmerged hbraced⟩

end VariableOrder.Placeholder
