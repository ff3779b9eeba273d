import Mathlib.Data.List.Forall2

/-!
# Outcomes of a list

Doing something with the members of a list one after the other succeeds when it succeeds with each
of them, and otherwise fails as the first member does with which it fails.
-/

set_option autoImplicit false

namespace VariableOrder

variable {α β ε : Type} {f : α → Except ε β}

/-- Two steps succeed exactly when the first does and the second does with its result. -/
theorem bind_eq_ok_iff {x : Except ε α} {b : β} :
    (x >>= f) = .ok b ↔ ∃ a, x = .ok a ∧ f a = .ok b := by
  cases x <;> simp [bind, Except.bind]

/-- A step that is followed by a mere conversion fails exactly as it does alone. -/
theorem bind_pure_eq_error_iff {x : Except ε α} {g : α → β} {y : ε} :
    (x >>= fun a => pure (g a)) = .error y ↔ x = .error y := by
  cases x <;> simp [bind, Except.bind, pure, Except.pure]

/-- Converting a result keeps success, and what comes out is a converted result. -/
theorem map_eq_ok_iff {x : Except ε α} {g : α → β} {b : β} :
    x.map g = .ok b ↔ ∃ a, x = .ok a ∧ g a = b := by
  cases x <;> simp [Except.map]

/-- Converting a failure leaves successes alone. -/
theorem mapError_eq_ok_iff {κ : Type} {x : Except ε α} {g : ε → κ} {a : α} :
    x.mapError g = .ok a ↔ x = .ok a := by
  cases x <;> simp [Except.mapError]

/-- Converting a failure keeps failing, and what comes out is a converted failure. -/
theorem mapError_eq_error_iff {κ : Type} {x : Except ε α} {g : ε → κ} {y : κ} :
    x.mapError g = .error y ↔ ∃ e, x = .error e ∧ g e = y := by
  cases x <;> simp [Except.mapError]

/-- Going through a list succeeds exactly when every element does, with the results place by place.
-/
theorem mapM_eq_ok_iff {l : List α} {results : List β} :
    l.mapM f = .ok results ↔ List.Forall₂ (fun a b => f a = .ok b) l results := by
  induction l generalizing results with
  | nil =>
    rw [List.mapM_nil, List.forall₂_nil_left_iff]
    exact ⟨fun h => (Except.ok.inj h).symm, fun h => congrArg Except.ok h.symm⟩
  | cons a rest ih =>
    rw [List.mapM_cons, List.forall₂_cons_left_iff]
    cases ha : f a with
    | error x => simp [bind, Except.bind]
    | ok b =>
      cases hrest : rest.mapM f with
      | error x =>
        have hnone : ∀ others, ¬ List.Forall₂ (fun a b => f a = .ok b) rest others := by
          intro others hothers
          rw [← ih, hrest] at hothers
          cases hothers
        simp [bind, Except.bind, hnone]
      | ok bs =>
        -- the rest has one outcome only, so no other results correspond to it
        have hall := ih.mp hrest
        have honly : ∀ others, List.Forall₂ (fun a b => f a = .ok b) rest others ↔
            others = bs := by
          intro others
          rw [← ih, hrest, Except.ok.injEq, eq_comm]
        simp [bind, Except.bind, pure, Except.pure, honly, eq_comm]

/-- Of two related lists every element of the first has a partner in the second. -/
theorem exists_of_forall₂_left {r : α → β → Prop} {l : List α} {results : List β}
    (h : List.Forall₂ r l results) {a : α} (ha : a ∈ l) : ∃ b ∈ results, r a b := by
  induction h with
  | nil => cases ha
  | cons hfirst _ ih =>
    rcases List.mem_cons.mp ha with rfl | hrest
    · exact ⟨_, List.mem_cons_self, hfirst⟩
    · obtain ⟨b, hb, hr⟩ := ih hrest
      exact ⟨b, List.mem_cons_of_mem _ hb, hr⟩

/-- Of two related lists every element of the second has a partner in the first. -/
theorem exists_of_forall₂_right {r : α → β → Prop} {l : List α} {results : List β}
    (h : List.Forall₂ r l results) {b : β} (hb : b ∈ results) : ∃ a ∈ l, r a b :=
  exists_of_forall₂_left h.flip hb

/-- Where every element has a partner, there is a list of partners. -/
theorem exists_forall₂ {r : α → β → Prop} {l : List α} (h : ∀ a ∈ l, ∃ b, r a b) :
    ∃ results, List.Forall₂ r l results := by
  induction l with
  | nil => exact ⟨[], .nil⟩
  | cons first rest ih =>
    obtain ⟨b, hb⟩ := h first List.mem_cons_self
    obtain ⟨results, hresults⟩ := ih fun a ha => h a (List.mem_cons_of_mem _ ha)
    exact ⟨b :: results, .cons hb hresults⟩

/-- Two related lists stay related under whatever follows for the elements of the first. -/
theorem forall₂_imp_of_mem {r s : α → β → Prop} {l : List α} {results : List β}
    (h : List.Forall₂ r l results) (himp : ∀ a ∈ l, ∀ b, r a b → s a b) :
    List.Forall₂ s l results := by
  induction h with
  | nil => exact .nil
  | cons hfirst _ ih =>
    exact .cons (himp _ List.mem_cons_self _ hfirst)
      (ih fun a ha => himp a (List.mem_cons_of_mem _ ha))

/-- The first members that pass tests that agree correspond. -/
theorem rel_find?_of_forall₂ {r : α → β → Prop} {l : List α} {results : List β}
    (h : List.Forall₂ r l results) {p : α → Bool} {q : β → Bool}
    (hpq : ∀ a b, r a b → p a = q b) : Option.Rel r (l.find? p) (results.find? q) := by
  induction h with
  | nil => exact .none
  | @cons a b _ _ hfirst _ ih =>
    rw [List.find?_cons, List.find?_cons, hpq a b hfirst]
    cases q b with
    | true => exact .some hfirst
    | false => exact ih

/-- Whether the given member is come to: it succeeds with all members in front of it. -/
def ComesTo (f : α → Except ε β) (l : List α) (a : α) : Prop :=
  ∃ before after, l = before ++ a :: after ∧ ∀ b ∈ before, ∃ y, f b = .ok y

/-- Going through a list comes to its first element, and further only if that one succeeds. -/
theorem comesTo_cons_iff {first : α} {rest : List α} {a : α} :
    ComesTo f (first :: rest) a ↔ a = first ∨ (∃ y, f first = .ok y) ∧ ComesTo f rest a := by
  constructor
  · rintro ⟨before, after, hl, hbefore⟩
    cases before with
    | nil => exact .inl (List.cons.inj hl).1.symm
    | cons b others =>
      obtain ⟨rfl, rfl⟩ := List.cons.inj hl
      exact .inr ⟨hbefore _ List.mem_cons_self, others, after, rfl,
        fun z hz => hbefore z (List.mem_cons_of_mem _ hz)⟩
  · rintro (rfl | ⟨hfirst, before, after, rfl, hbefore⟩)
    · exact ⟨[], rest, rfl, by simp⟩
    · exact ⟨first :: before, after, rfl, List.forall_mem_cons.mpr ⟨hfirst, hbefore⟩⟩

/-- What going through a list comes to is an element of it. -/
theorem ComesTo.mem {l : List α} {a : α} (h : ComesTo f l a) : a ∈ l := by
  obtain ⟨before, after, rfl, -⟩ := h
  simp

/-- Going through a list fails exactly as an element does that it comes to. -/
theorem mapM_eq_error_iff {l : List α} {x : ε} :
    l.mapM f = .error x ↔ ∃ a, ComesTo f l a ∧ f a = .error x := by
  induction l with
  | nil =>
    rw [List.mapM_nil]
    constructor
    · intro h
      cases h
    · rintro ⟨a, h, -⟩
      exact absurd h.mem List.not_mem_nil
  | cons first rest ih =>
    rw [List.mapM_cons]
    simp only [comesTo_cons_iff]
    cases hfirst : f first with
    | error y =>
      simp only [bind, Except.bind, Except.error.injEq, reduceCtorEq, exists_false, false_and,
        or_false, exists_eq_left, hfirst]
    | ok y =>
      have hrest : (rest.mapM f >>= fun bs => pure (y :: bs)) = .error x ↔
          rest.mapM f = .error x := by
        cases rest.mapM f <;> simp [bind, Except.bind, pure, Except.pure]
      change (rest.mapM f >>= fun bs => pure (y :: bs)) = .error x ↔ _
      rw [hrest, ih]
      simp [or_and_right, exists_or, hfirst]

/-- A fold fails as the step at which it stops, which is come to with what the fold over the members
in front yields. -/
theorem foldlM_eq_error_iff {g : β → α → Except ε β} {l : List α} {b : β} {x : ε} :
    l.foldlM g b = .error x ↔
      ∃ before a after y, l = before ++ a :: after ∧ before.foldlM g b = .ok y ∧
        g y a = .error x := by
  constructor
  · induction l generalizing b with
    | nil =>
      intro h
      cases h
    | cons first rest ih =>
      intro h
      rw [List.foldlM_cons] at h
      cases hfirst : g b first with
      | error y =>
        rw [hfirst] at h
        exact ⟨[], first, rest, b, rfl, rfl, hfirst.trans h⟩
      | ok y =>
        rw [hfirst] at h
        -- the first member joins those in front of the step that fails
        obtain ⟨before, a, after, z, rfl, hbefore, ha⟩ := ih h
        refine ⟨first :: before, a, after, z, rfl, ?_, ha⟩
        rw [List.foldlM_cons, hfirst]
        exact hbefore
  · rintro ⟨before, a, after, y, rfl, hbefore, ha⟩
    rw [List.foldlM_append, hbefore]
    change (a :: after).foldlM g y = .error x
    rw [List.foldlM_cons, ha]
    rfl

/-- Doing something with the members of a list in parts is doing it with all parts in turn. -/
theorem map_flatMap_mapM {γ δ : Type} {g : γ → Except ε δ} {join : β → List δ}
    {split : α → List γ} (h : ∀ a, (f a).map join = (split a).mapM g) (l : List α) :
    (l.mapM f).map (fun results => results.flatMap join) = (l.flatMap split).mapM g := by
  induction l with
  | nil => rfl
  | cons a rest ih =>
    rw [List.flatMap_cons, List.mapM_append, ← h a, ← ih, List.mapM_cons]
    cases f a with
    | error x => rfl
    | ok b => cases rest.mapM f <;> rfl

end VariableOrder
