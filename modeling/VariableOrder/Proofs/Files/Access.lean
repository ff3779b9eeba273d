import VariableOrder.Files.Access
import VariableOrder.Proofs.Files.Tree

/-!
# What writing a file changes

Creating the directories of a path puts directories where nothing stood, however far it comes. So
opening a file leaves the contents of all other files alone, and also that of the file itself if it
can not be opened. A file that is opened is emptied, and then holds what it is filled with.
-/

set_option autoImplicit false

namespace VariableOrder.Files

variable {t mid after : Tree} {path : String} {place : Place}

namespace Tree

/-- The bytes of the file at a place, if one stands there. -/
def content? (t : Tree) (p : Place) : Option (List UInt8) :=
  match t.item? p with
  | some (.file bytes) => some bytes
  | _ => none

/-- Whether a tree is another one with further directories, each where nothing stood. -/
def GainsDirectories (t after : Tree) : Prop :=
  ∀ p, after.item? p = t.item? p ∨ t.item? p = none ∧ after.item? p = some .directory

/-- A tree is itself with no further directory. -/
theorem GainsDirectories.refl (t : Tree) : t.GainsDirectories t :=
  fun _ => .inl rfl

/-- Further directories may be added in two goes. -/
theorem GainsDirectories.trans (h : t.GainsDirectories mid) (h' : mid.GainsDirectories after) :
    t.GainsDirectories after := by
  intro p
  rcases h p with heq | ⟨hnone, hdirectory⟩
  · rw [← heq]
    exact h' p
  · refine .inr ⟨hnone, ?_⟩
    rcases h' p with heq | ⟨hnone', -⟩
    · exact heq.trans hdirectory
    · rw [hdirectory] at hnone'
      cases hnone'

end Tree

namespace Access

/-- What has become of a tree in which bytes were written to the end of a path: the path leads to
the file that holds them, or to a sink, and no other file has changed. -/
structure Written (t after : Tree) (path : String) (bytes : List UInt8) (place : Place) : Prop where
  placeOf_eq : after.placeOf path = .ok place
  item?_eq : after.item? place = some (.file bytes) ∨
    t.item? place = some .sink ∧ after.item? place = some .sink
  others : ∀ p, p ≠ place → after.content? p = t.content? p

/-- Bytes that an open file is filled with are all that it holds. -/
theorem Written.fill (h : Written t after path [] place) (bytes : List UInt8) :
    Written t (after.fill place bytes) path bytes place := by
  rcases h.item?_eq with hfile | ⟨hbefore, hsink⟩
  · have hfill : after.fill place bytes = after.put place (.file bytes) := by
      simp only [Tree.fill, hfile]
    have hplace : place ≠ [] := by
      rintro rfl
      cases hfile
    have hkept : after.Keeps (after.put place (.file bytes)) :=
      Tree.keeps_put hplace (by simp [hfile]) _
    rw [hfill]
    refine ⟨hkept.placeOf h.placeOf_eq, .inl ?_, ?_⟩
    · rw [Tree.item?_put after hplace, if_pos rfl]
    · intro p hp
      rw [← h.others p hp]
      simp only [Tree.content?, Tree.item?_put after hplace, if_neg hp]
  · have hfill : after.fill place bytes = after := by
      simp only [Tree.fill, hsink]
    rw [hfill]
    exact ⟨h.placeOf_eq, .inr ⟨hbefore, hsink⟩, h.others⟩

end Access

end VariableOrder.Files
