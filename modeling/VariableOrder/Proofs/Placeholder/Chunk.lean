import Mathlib.Data.List.DropRight
import VariableOrder.Placeholder.Chunk

/-!
# Laws of chunks

A chunk leads a text when the text is cut right behind it. Every text is led by a chunk, so a
statement about texts is proved chunk by chunk. An escaped dollar sign, a braced placeholder and a
character other than the dollar sign lead whatever follows; for a bare placeholder it matters what
follows, but only up to the next dollar sign.
-/

set_option autoImplicit false

namespace VariableOrder.Placeholder

/-- Whether a text that starts with the chunk and goes on with the rest is cut right behind the
chunk. -/
def Chunk.Leads (k : Chunk) (rest : List Char) : Prop :=
  ∃ c body, k.source = c :: body ∧ chunkAt c (body ++ rest) = k

/-- Characters that are skipped belong to no chunk. -/
theorem chunksAfter_eq (skip : Nat) (cs : List Char) :
    chunksAfter skip cs = chunks (cs.drop skip) := by
  induction skip generalizing cs with
  | zero => rfl
  | succ skip ih =>
    cases cs with
    | nil => rfl
    | cons c rest => exact ih rest

/-- A chunk that leads a text is its first chunk, and the others are those of the rest. -/
theorem chunks_of_leads {k : Chunk} {rest : List Char} (h : k.Leads rest) :
    chunks (k.source ++ rest) = k :: chunks rest := by
  obtain ⟨c, body, hsource, hk⟩ := h
  have hlength : k.length - 1 = body.length := by
    simp [Chunk.length, hsource]
  rw [hsource, List.cons_append]
  change chunkAt c (body ++ rest) ::
    chunksAfter ((chunkAt c (body ++ rest)).length - 1) (body ++ rest) = _
  rw [hk, hlength, chunksAfter_eq, List.drop_left]

/-- An escaped dollar sign leads whatever follows. -/
theorem leads_escapedDollar (rest : List Char) : Chunk.escapedDollar.Leads rest :=
  ⟨'$', ['$'], rfl, rfl⟩

/-- A character other than the dollar sign leads whatever follows. -/
theorem leads_plain {c : Char} (hc : c ≠ '$') (rest : List Char) : (Chunk.plain c).Leads rest :=
  ⟨c, [], rfl, by simp [chunkAt, hc]⟩

/-- Between its braces a placeholder ends at the first brace, so the text there has none. -/
theorem leads_braced_iff (inner rest : List Char) :
    (Chunk.braced inner).Leads rest ↔ ∀ c ∈ inner, isBrace c = false := by
  let outside : Char → Bool := fun c => !isBrace c
  have hclose : outside '}' = false := rfl
  constructor
  · rintro ⟨c, body, hsource, hchunk⟩
    obtain ⟨rfl, rfl⟩ := List.cons.inj hsource
    simp only [chunkAt, afterDollar, List.cons_append] at hchunk
    have hinner : ((inner ++ ['}']) ++ rest).takeWhile outside = inner := by
      simp only [if_true] at hchunk
      split at hchunk
      · exact absurd hchunk (by simp)
      · split at hchunk
        · exact Chunk.braced.inj hchunk
        · exact absurd hchunk (by simp)
    intro c hc
    rw [← hinner] at hc
    simpa [outside] using List.mem_takeWhile_imp hc
  · intro h
    have hinner : ∀ c ∈ inner, outside c = true := by simpa [outside] using h
    have htake : (inner ++ '}' :: rest).takeWhile outside = inner := by
      rw [List.takeWhile_append_of_pos hinner, List.takeWhile_cons, hclose]
      simp
    have hdrop : (inner ++ '}' :: rest).dropWhile outside = '}' :: rest := by
      rw [List.dropWhile_append_of_pos hinner, List.dropWhile_cons, hclose]
      simp
    refine ⟨'$', '{' :: (inner ++ ['}']), rfl, ?_⟩
    simp [chunkAt, afterDollar, outside, hdrop, htake]

/-- What continues a bare name is the beginning of the text there. -/
theorem nameTail_starts (cs : List Char) : nameTail cs <+: cs :=
  (List.rdropWhile_prefix _ _).trans (List.takeWhile_prefix _)

/-- No dollar sign stands in a bare name, so only what comes before the next one can continue
it. -/
theorem nameTail_append_congr (tail : List Char) {rest other : List Char}
    (h : rest.takeWhile (· != '$') = other.takeWhile (· != '$')) :
    nameTail (tail ++ rest) = nameTail (tail ++ other) := by
  have hinner : ∀ cs : List Char,
      (cs.takeWhile (· != '$')).takeWhile isNameInner = cs.takeWhile isNameInner := by
    intro cs
    rw [List.takeWhile_takeWhile]
    congr 1
    funext c
    by_cases hc : c = '$'
    · subst hc
      rfl
    · simp [hc]
  have hrun : rest.takeWhile isNameInner = other.takeWhile isNameInner := by
    rw [← hinner rest, h, hinner other]
  unfold nameTail
  rw [List.takeWhile_append, List.takeWhile_append, hrun]

/-- A bare placeholder leads exactly those texts that do not continue its name. -/
theorem leads_bare_iff (name rest : List Char) :
    (Chunk.bare name).Leads rest ↔
      ∃ c tail, name = c :: tail ∧ isNameStart c = true ∧ nameTail (tail ++ rest) = tail := by
  have hchunk : ∀ text : List Char, chunkAt '$' text = .bare name ↔
      ∃ c more, text = c :: more ∧ isNameStart c = true ∧ name = c :: nameTail more := by
    intro text
    cases text with
    | nil => simp [chunkAt, afterDollar]
    | cons c more =>
      simp only [chunkAt, if_true, afterDollar]
      split_ifs with hdollar hbrace hstart
      · subst hdollar
        simp [isNameStart]
      · subst hbrace
        have hstart : isNameStart '{' = false := rfl
        split <;> simp [hstart]
      · rw [Chunk.bare.injEq]
        constructor
        · rintro rfl
          exact ⟨c, more, rfl, hstart, rfl⟩
        · rintro ⟨d, other, hmore, -, rfl⟩
          obtain ⟨rfl, rfl⟩ := List.cons.inj hmore
          rfl
      · simp [hstart]
  constructor
  · rintro ⟨d, body, hsource, hk⟩
    obtain ⟨rfl, rfl⟩ := List.cons.inj hsource
    obtain ⟨c, more, htext, hstart, hname⟩ := (hchunk _).mp hk
    subst hname
    obtain ⟨-, hmore⟩ := List.cons.inj htext
    exact ⟨c, nameTail more, rfl, hstart, congrArg nameTail hmore⟩
  · rintro ⟨c, tail, rfl, hstart, htail⟩
    exact ⟨'$', c :: tail, rfl, (hchunk _).mpr ⟨c, tail ++ rest, rfl, hstart, by rw [htail]⟩⟩

/-- What follows a chunk matters to it only up to the next dollar sign, unless it is a lone dollar
sign itself. -/
theorem Chunk.Leads.congr {k : Chunk} {rest other : List Char} (h : k.Leads rest)
    (hk : k ≠ .plain '$') (hrest : rest.takeWhile (· != '$') = other.takeWhile (· != '$')) :
    k.Leads other := by
  cases k with
  | escapedDollar => exact leads_escapedDollar other
  | braced inner => exact (leads_braced_iff inner other).mpr ((leads_braced_iff inner rest).mp h)
  | bare name =>
    obtain ⟨c, tail, hname, hstart, htail⟩ := (leads_bare_iff name rest).mp h
    rw [nameTail_append_congr tail hrest] at htail
    exact (leads_bare_iff name other).mpr ⟨c, tail, hname, hstart, htail⟩
  | plain c =>
    have hc : c ≠ '$' := by
      rintro rfl
      exact hk rfl
    exact leads_plain hc other

/-- Every text that is not empty is led by the chunk at its front. -/
theorem exists_leads (c : Char) (rest : List Char) :
    ∃ k after, c :: rest = Chunk.source k ++ after ∧ k.Leads after := by
  let k := chunkAt c rest
  suffices hsource : ∃ body after, k.source = c :: body ∧ rest = body ++ after by
    obtain ⟨body, after, hk, rfl⟩ := hsource
    exact ⟨k, after, by rw [hk, List.cons_append], c, body, hk, rfl⟩
  by_cases hc : c = '$'
  · subst hc
    simp only [k, chunkAt, if_true]
    -- the cases are tried in the order in which the character behind a dollar sign is looked at
    cases rest with
    | nil => exact ⟨[], [], rfl, rfl⟩
    | cons d more =>
      simp only [afterDollar]
      split_ifs with hdollar hbrace hstart
      · subst hdollar
        exact ⟨['$'], more, rfl, rfl⟩
      · subst hbrace
        split
        · -- the run of characters that are no braces ends at a closing one
          rename_i after hafter
          refine ⟨_, after, rfl, ?_⟩
          have hsplit := List.takeWhile_append_dropWhile (p := fun d => !isBrace d) (l := more)
          rw [hafter] at hsplit
          simp [hsplit]
        · exact ⟨[], _, rfl, rfl⟩
      · obtain ⟨after, hafter⟩ := nameTail_starts more
        exact ⟨d :: nameTail more, after, rfl, by rw [List.cons_append, hafter]⟩
      · exact ⟨[], _, rfl, rfl⟩
  · simp only [k, chunkAt, hc, if_false]
    exact ⟨[], rest, rfl, rfl⟩

/-- A statement about texts holds if it holds of the empty text and a chunk can be put in front of
every text that it leads. -/
theorem chunk_induction {motive : List Char → Prop} (nil : motive [])
    (cons : ∀ k rest, Chunk.Leads k rest → motive rest → motive (k.source ++ rest))
    (cs : List Char) : motive cs :=
  match cs with
  | [] => nil
  | c :: rest => by
    obtain ⟨k, after, htext, hleads⟩ := exists_leads c rest
    rw [htext]
    exact cons k after hleads (chunk_induction nil cons after)
termination_by cs.length
decreasing_by
  -- a chunk has at least one character
  obtain ⟨d, body, hsource, -⟩ := hleads
  have hlength := congrArg List.length htext
  simp only [hsource, List.length_append, List.length_cons] at hlength ⊢
  omega

end VariableOrder.Placeholder
