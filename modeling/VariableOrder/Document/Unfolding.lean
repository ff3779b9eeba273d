import VariableOrder.Document.Shape

/-!
# From shapes to data

Data is a tree, and what stands at several places of a document is told at each of them. What stands
inside itself would have no end: a collection is told inside itself once more, and below that only
marked. A pair is only ever shown, and what is shown inside of it is marked at once where it
repeats.
-/

set_option autoImplicit false

namespace VariableOrder.Document

open Data (Value)

/-- What is known of the data of a node while it is looked for: nothing, that the search is inside
of it, that it leads into itself or another node that does, or the data. -/
inductive Sight where
  | unseen
  | entered
  | endless
  | found (v : Value)

/-- The search for data that has an end. -/
abbrev Search := StateM (Array Sight)

namespace Search

/-- Notes what is known of a node. -/
def note (id : NodeId) (s : Sight) : Search Unit :=
  modify fun sights => sights.setIfInBounds id s

/-- The data of several things, if each of them has some. -/
def all {α β : Type} (find : α → Search (Option β)) : List α → Search (Option (List β))
  | [] => return some []
  | a :: rest => do
    let first ← find a
    let others ← all find rest
    return first.bind fun v => others.map (v :: ·)

/-- The data of a shape, given how that of a node is found. -/
def ofShape (find : NodeId → Search (Option Value)) : Shape → Search (Option Value)
  | .leaf v => return some v
  | .list items => return (← all find items).map .list
  | .members values => return some (.collection values)
  | .record entries =>
    return (← all (fun e => return (← find e.2).map fun v => (e.1, v)) entries).map .record
  | .pairs items =>
    return (← all (fun e => do
      let a ← find e.1
      let b ← find e.2
      return a.bind fun a => b.map fun b => Value.pair a b) items).map .list

/-- The data of a node, if it has an end. No search is inside more nodes than there are. -/
def find (shapes : Array (Option Shape)) : Nat → NodeId → Search (Option Value)
  | 0, _ => return none
  | fuel + 1, id => do
    match (← get).getD id .endless with
    | .found v => return some v
    | .endless => return none
    | .entered => return none
    | .unseen => do
      note id .entered
      match shapes.getD id none with
      | none => do
        note id .endless
        return none
      | some shape => do
        match ← ofShape (find shapes fuel) shape with
        | some v => do
          note id (.found v)
          return some v
        | none => do
          note id .endless
          return none

end Search

/-- A place on the way down to a piece of data: a node, or a pair of one. -/
inductive Place where
  | node (id : NodeId)
  | pair (id : NodeId) (index : Nat)
  deriving DecidableEq, Repr

/-- The kind of a collection as it is marked where it repeats. -/
def Shape.recurring : Shape → Data.Recurring
  | .record _ => .record
  | _ => .list

/-- What leads from a piece of data to the parts of it: whether only its text will be shown, and
the way to it, the last step first. -/
structure Way where
  isShown : Bool
  places : List Place

namespace Way

/-- Whether a place repeats so often on a way that it is only marked. -/
def repeats (w : Way) (p : Place) : Bool :=
  (if w.isShown then 1 else 2) ≤ w.places.count p

/-- The way one step further. -/
def into (w : Way) (p : Place) : Way :=
  { w with places := p :: w.places }

/-- The way into a pair, which starts anew unless it is inside another one. -/
def intoPair (w : Way) (p : Place) : Way :=
  if w.isShown then w.into p else ⟨true, [p]⟩

end Way

/-- The data of a node that a way leads to. What is found already is taken as it is; the fuel bounds
the length of the way. -/
def unfold (shapes : Array (Option Shape)) (sights : Array Sight) : Nat → Way → NodeId → Value
  | 0, _, _ => .null
  | fuel + 1, w, id =>
    match sights.getD id .unseen, shapes.getD id none with
    | .found v, _ => v
    | _, none => .null
    | _, some shape =>
      if w.repeats (.node id) then .again shape.recurring
      else
        let inside := unfold shapes sights fuel (w.into (.node id))
        match shape with
        | .leaf v => v
        | .members values => .collection values
        | .list items => .list (items.map inside)
        | .record entries => .record (entries.map fun e => (e.1, inside e.2))
        | .pairs items =>
          .list (items.zipIdx.map fun (e, i) =>
            let place := Place.pair id i
            let way := w.into (.node id)
            if way.repeats place then .again .pair
            else
              let inside := unfold shapes sights fuel (way.intoPair place)
              .pair (inside e.1) (inside e.2))

/-- The data of a node. -/
def dataOf (shapes : Array (Option Shape)) (root : NodeId) : Value :=
  let size := shapes.size + 1
  let (found, sights) := (Search.find shapes size root).run (Array.replicate shapes.size .unseen)
  match found with
  | some v => v
  | none =>
    let pairs := shapes.foldl
      (fun count s => match s with
        | some (.pairs items) => count + items.length
        | _ => count) 0
    unfold shapes sights (4 * size + pairs) ⟨false, []⟩ root

end VariableOrder.Document
