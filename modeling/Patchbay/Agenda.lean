import Patchbay.Number.Double

/-
Actions that wait for their time.

The agenda keeps one slot for each due time, in ascending order, and the actions of
a slot in the order in which they came.  Both operations find their place by binary
search, which is right as long as the due times are ordered.  A due time that is not
a number has no place in the order; the search says where it goes all the same.
-/

namespace Patchbay

namespace Agenda

/-- The actions that wait for one time. -/
structure Slot (α : Type) where
  due : Float
  actions : List α

end Agenda

/-- Waiting actions by due time. -/
structure Agenda (α : Type) where
  slots : List (Agenda.Slot α)

/-- Narrow down where a list stops satisfying `p`: the place is looked for among the `size`
elements from `base` on. -/
def searchEnd {α : Type} (p : α → Bool) (l : List α) (base size : Nat) : Nat :=
  if size ≤ 1 then base + (if l[base]?.any p then 1 else 0)
  else
    let half := size / 2
    searchEnd p l (if l[base + half]?.any p then base + half else base) (size - half)
termination_by size

/-- Where a list stops satisfying `p`, if what satisfies it comes first. -/
def partitionPoint {α : Type} (p : α → Bool) (l : List α) : Nat :=
  searchEnd p l 0 l.length

namespace Agenda

variable {α : Type}

def empty : Agenda α := ⟨[]⟩

instance : Inhabited (Agenda α) := ⟨empty⟩

/-- Add an action that waits for `due`, behind those that already wait for that time. -/
def schedule (g : Agenda α) (due : Float) (action : α) : Agenda α :=
  let place := partitionPoint (fun s => decide (s.due < due)) g.slots
  let fresh : Agenda α := ⟨g.slots.take place ++ ⟨due, [action]⟩ :: g.slots.drop place⟩
  match g.slots[place]? with
  | some slot =>
    if slot.due == due then
      ⟨g.slots.set place { slot with actions := slot.actions ++ [action] }⟩
    else fresh
  | none => fresh

/-- Take out the actions that are due at `now`, earliest first. -/
def takeDue (g : Agenda α) (now : Float) : List α × Agenda α :=
  let count := partitionPoint (fun s => decide (s.due ≤ now)) g.slots
  ((g.slots.take count).flatMap Slot.actions, ⟨g.slots.drop count⟩)

/-- All waiting actions, earliest first. -/
def actions (g : Agenda α) : List α :=
  g.slots.flatMap Slot.actions

/-- How many actions wait. -/
def size (g : Agenda α) : Nat :=
  g.actions.length

def isEmpty (g : Agenda α) : Bool :=
  g.slots.isEmpty

/-- The due times and how many actions wait for each. -/
def summary (g : Agenda α) : String :=
  let slotText (s : Slot α) : String := s!"({Double.markedText s.due}, {s.actions.length})"
  "[" ++ String.intercalate ", " (g.slots.map slotText) ++ "]"

end Agenda

end Patchbay
