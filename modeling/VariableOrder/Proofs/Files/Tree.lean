import VariableOrder.Files.Tree
import VariableOrder.Proofs.Outcome

/-!
# Changes of a file tree

An item is put at one place and leaves all others alone. A directory is created where nothing
stands, and a file is opened where no directory stands; so every way through the tree stays open,
and the path of a file that was opened leads to the file.
-/

set_option autoImplicit false

namespace VariableOrder.Files.Tree

variable {t after : Tree} {text name : String} {place target : Place}

/-- Replacing the items at a place changes what is found there, if something is, and nothing
else. -/
theorem find?_replace (items : List (Place × Item)) (item : Item) (place p : Place) :
    ((items.map fun i => if i.1 == place then (place, item) else i).find? fun i => i.1 == p) =
      if p = place then (items.find? fun i => i.1 == p).map fun _ => (place, item)
      else items.find? fun i => i.1 == p := by
  induction items with
  | nil => simp
  | cons i rest ih =>
    rw [List.map_cons, List.find?_cons, List.find?_cons, ih]
    by_cases hi : i.1 = place
    · by_cases hp : p = place
      · simp [hi, hp]
      · have hne : (place == p) = false := beq_eq_false_iff_ne.mpr (Ne.symm hp)
        simp [hi, hp, hne]
    · by_cases hp : i.1 = p
      · have hne : ¬ p = place := fun h => hi (hp.trans h)
        simp [hp, hne]
      · have hne : (i.1 == p) = false := beq_eq_false_iff_ne.mpr hp
        simp [hi, hne]

/-- After putting an item at a place the item is there, and every other place has what it had. -/
theorem item?_put (t : Tree) (hplace : place ≠ []) (item : Item) (p : Place) :
    (t.put place item).item? p = if p = place then some item else t.item? p := by
  by_cases hroot : p.isEmpty = true
  · have hp : ¬ p = place := fun h => hplace (h ▸ List.isEmpty_iff.mp hroot)
    simp only [item?, hroot, if_true, if_neg hp]
  simp only [item?, if_neg hroot, put]
  by_cases hany : (t.items.any fun i => i.1 == place) = true
  · rw [if_pos hany, find?_replace]
    by_cases hp : p = place
    · obtain ⟨i, hi⟩ := Option.isSome_iff_exists.mp
        (List.find?_isSome.mpr (List.any_eq_true.mp hany))
      simp [hp, hi]
    · simp only [if_neg hp]
  · have hnone : t.items.find? (fun i => i.1 == place) = none := by
      rwa [List.find?_eq_none, ← List.any_eq_false, ← Bool.not_eq_true]
    rw [if_neg hany, List.find?_append]
    by_cases hp : p = place
    · simp [hp, hnone]
    · have hne : (place == p) = false := beq_eq_false_iff_ne.mpr (Ne.symm hp)
      simp [hp, hne]

section Walking

/-- A place is taken for a directory exactly when one stands there. -/
theorem directory_eq_ok_iff {p : Place} :
    t.directory p = .ok place ↔ t.item? p = some .directory ∧ p = place := by
  unfold directory
  cases t.item? p with
  | none => simp
  | some item => cases item <;> simp

/-- A step leads out of a directory to something that exists. -/
theorem step_eq_ok_iff {p : Place} :
    t.step p name = .ok place ↔
      t.item? p = some .directory ∧ beyond p name = .ok place ∧ (t.item? place).isSome = true := by
  unfold step
  simp only [bind_eq_ok_iff, directory_eq_ok_iff]
  constructor
  · rintro ⟨_, ⟨hdirectory, rfl⟩, next, hnext, h⟩
    split at h
    · obtain rfl := Except.ok.inj h
      exact ⟨hdirectory, hnext, ‹_›⟩
    · cases h
  · rintro ⟨hdirectory, hnext, hsome⟩
    exact ⟨p, ⟨hdirectory, rfl⟩, place, hnext, if_pos hsome⟩

/-- The parent of a path is the directory that all steps but the last lead to. -/
theorem parent_eq_ok_iff {p : Path} {last : Option String} :
    t.parent p = .ok (place, last) ↔ p.steps.dropLast.foldlM t.step (t.start p) = .ok place ∧
      t.item? place = some .directory ∧ p.steps.getLast? = last := by
  unfold parent
  constructor
  · intro h
    obtain ⟨reached, hreached, h⟩ := bind_eq_ok_iff.mp h
    obtain ⟨found, hdirectory, h⟩ := bind_eq_ok_iff.mp h
    obtain ⟨hitem, rfl⟩ := directory_eq_ok_iff.mp hdirectory
    obtain ⟨rfl, rfl⟩ := Prod.mk.inj (Except.ok.inj h)
    exact ⟨hreached, hitem, rfl⟩
  · rintro ⟨hreached, hitem, rfl⟩
    have hdirectory := directory_eq_ok_iff.mpr ⟨hitem, rfl⟩
    exact bind_eq_ok_iff.mpr ⟨place, hreached, bind_eq_ok_iff.mpr ⟨place, hdirectory, rfl⟩⟩

/-- Whether a tree has something wherever another one does, and directories where it has them. -/
structure Keeps (t after : Tree) : Prop where
  here : after.here = t.here
  directory : ∀ p, t.item? p = some .directory → after.item? p = some .directory
  isSome : ∀ p, (t.item? p).isSome = true → (after.item? p).isSome = true

/-- A tree keeps what it has. -/
theorem Keeps.refl (t : Tree) : t.Keeps t :=
  ⟨rfl, fun _ => id, fun _ => id⟩

/-- Putting an item where no directory stands keeps all ways open. -/
theorem keeps_put (hplace : place ≠ []) (h : t.item? place ≠ some .directory) (item : Item) :
    t.Keeps (t.put place item) where
  here := by
    unfold put
    split <;> rfl
  directory p hp := by
    have hne : p ≠ place := fun heq => h (heq ▸ hp)
    rw [item?_put t hplace, if_neg hne, hp]
  isSome p hp := by
    rw [item?_put t hplace]
    split
    · rfl
    · exact hp

/-- A way through a tree stays open while nothing is taken away. -/
theorem Keeps.foldlM_step (h : t.Keeps after) {steps : List String} {p : Place}
    (hsteps : steps.foldlM t.step p = .ok place) : steps.foldlM after.step p = .ok place := by
  induction steps generalizing p with
  | nil => exact hsteps
  | cons name rest ih =>
    rw [List.foldlM_cons] at hsteps ⊢
    obtain ⟨next, hnext, hrest⟩ := bind_eq_ok_iff.mp hsteps
    obtain ⟨hdirectory, hbeyond, hsome⟩ := step_eq_ok_iff.mp hnext
    exact bind_eq_ok_iff.mpr ⟨next,
      step_eq_ok_iff.mpr ⟨h.directory p hdirectory, hbeyond, h.isSome next hsome⟩, ih hrest⟩

/-- Behind the directory that a path leads to by all but its last step, the last step finds what
stands there by now. -/
theorem Keeps.walk (h : t.Keeps after) {p : Path} (hparent : t.parent p = .ok (place, some name))
    (hopen : p.closed = false) (hbeyond : beyond place name = .ok target)
    (hsome : (after.item? target).isSome = true) : after.walk p = .ok target := by
  obtain ⟨hreached, hdirectory, hlast⟩ := parent_eq_ok_iff.mp hparent
  have hstart : after.start p = t.start p := by simp only [start, h.here]
  have hstep : after.step place name = .ok target :=
    step_eq_ok_iff.mpr ⟨h.directory place hdirectory, hbeyond, hsome⟩
  have hall : p.steps.foldlM after.step (after.start p) = .ok target := by
    rw [← List.dropLast_append_getLast? name hlast, List.foldlM_append, hstart]
    refine bind_eq_ok_iff.mpr ⟨place, h.foldlM_step hreached, ?_⟩
    rw [List.foldlM_cons, hstep]
    rfl
  refine bind_eq_ok_iff.mpr ⟨target, hall, ?_⟩
  rw [if_neg (Bool.eq_false_iff.mp hopen)]
  rfl

end Walking

/-- The place that the text of a path leads to; something has to stand there. -/
def placeOf (t : Tree) (text : String) : Except Reason Place :=
  path text >>= t.walk

/-- A path leads to the same place as long as nothing is taken away. -/
theorem Keeps.placeOf (h : t.Keeps after) (hplace : t.placeOf text = .ok place) :
    after.placeOf text = .ok place := by
  obtain ⟨p, hpath, hwalk⟩ := bind_eq_ok_iff.mp hplace
  obtain ⟨reached, hreached, hend⟩ := bind_eq_ok_iff.mp hwalk
  have hstart : after.start p = t.start p := by simp only [start, h.here]
  refine bind_eq_ok_iff.mpr ⟨p, hpath, bind_eq_ok_iff.mpr ⟨reached, ?_, ?_⟩⟩
  · rw [hstart]
    exact h.foldlM_step hreached
  · by_cases hclosed : p.closed = true
    · rw [if_pos hclosed] at hend ⊢
      obtain ⟨hdirectory, rfl⟩ := directory_eq_ok_iff.mp hend
      exact directory_eq_ok_iff.mpr ⟨h.directory reached hdirectory, rfl⟩
    · rw [if_neg hclosed] at hend ⊢
      exact hend

end VariableOrder.Files.Tree
