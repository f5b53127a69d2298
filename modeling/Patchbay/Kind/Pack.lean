import Patchbay.Scope

/-
Joining and splitting lists: `pack` and `unpack`.

The arguments give the slots: a number, or a word for a type.  `pack` keeps an atom
in each slot and sends all of them as a list whenever inlet 0 is hit; a list on
inlet 0 fills the slots from the left, all of them or none.  `unpack` sends the atoms
of a list out of its outlets from right to left.
-/

namespace Patchbay

inductive SlotType where
  | float
  | symbol
  deriving DecidableEq

def SlotType.name : SlotType → String
  | .float => "float"
  | .symbol => "symbol"

/-- Whether an atom is of a type. -/
def SlotType.accepts (t : SlotType) (a : Atom) : Bool :=
  match t, a with
  | .float, .number _ => true
  | .symbol, .symbol _ => true
  | _, _ => false

structure PackSlot where
  type : SlotType
  value : Atom

/-- The slot that an argument stands for.  A word that is no type is logged and counts as a
number. -/
def PackSlot.ofArg (kind arg : String) : PackSlot × List Entry :=
  match Atom.ofString arg with
  | .number x => (⟨.float, .number x⟩, [])
  | .symbol s =>
    if s = "f" ∨ s = "float" then (⟨.float, .number 0⟩, [])
    else if s = "s" ∨ s = "symbol" then (⟨.symbol, .symbol "symbol"⟩, [])
    else (⟨.float, .number 0⟩, [.error s!"{kind}: {s}: bad type"])

/-- The slots for all arguments; two numbers if there are none. -/
def packSlots (kind : String) (args : List String) : List PackSlot × List Entry :=
  if args.isEmpty then ([⟨.float, .number 0⟩, ⟨.float, .number 0⟩], [])
  else
    let read := args.map (PackSlot.ofArg kind)
    (read.map Prod.fst, read.flatMap Prod.snd)

structure Pack where
  slots : List PackSlot

namespace Pack

def ofArgs (args : List String) : Pack × List Entry :=
  let (slots, entries) := packSlots "pack" args
  (⟨slots⟩, entries)

def preinit (s : Pack) (layout : Layout) : Layout :=
  { layout with inlets := s.slots.length }

/-- The list of all slots. -/
def collected (s : Pack) : Message :=
  .list (s.slots.map PackSlot.value)

/-- Put an atom into a slot. -/
def store (s : Pack) (i : Nat) (a : Atom) : Pack :=
  ⟨s.slots.modify i fun slot => { slot with value := a }⟩

/-- Complain about an atom of the wrong type. -/
def reject (scope : MessageScope) (slot : PackSlot) (a : Atom) : Reaction :=
  scope.mismatch slot.type.name ⟨[a]⟩

/-- The atoms that a message brings.  A message of the selector `symbol` and one atom brings that
atom. -/
def incoming (m : Message) : List Atom :=
  match m.atoms with
  | [.symbol s, a] => if s = "symbol" then [a] else m.elements
  | _ => m.elements

/-- A single atom for one slot. -/
def takeOne (scope : MessageScope) (s : Pack) (inlet : Nat) (a : Atom) : Pack × List Reaction :=
  match s.slots[inlet]? with
  | none => (s, [])
  | some slot =>
    if slot.type.accepts a then
      let s := s.store inlet a
      (s, if inlet = 0 then [emitOn 0 s.collected] else [])
    else (s, [reject scope slot a])

/-- Fill slots from the left. -/
def fill : List PackSlot → List Atom → List PackSlot
  | slot :: slots, a :: atoms => { slot with value := a } :: fill slots atoms
  | slots, _ => slots

/-- A list for inlet 0.  Atoms past the last slot are ignored; complaints come from right to
left. -/
def takeList (scope : MessageScope) (s : Pack) (atoms : List Atom) : Pack × List Reaction :=
  let bad := (s.slots.zip atoms).filter fun (slot, a) => !slot.type.accepts a
  if bad.isEmpty then
    let s : Pack := ⟨fill s.slots atoms⟩
    (s, [emitOn 0 s.collected])
  else (s, bad.reverse.map fun (slot, a) => reject scope slot a)

def onMessage (scope : MessageScope) (arrival : Arrival) (m : Message) (s : Pack) :
    Pack × List Reaction :=
  match arrival with
  | .external => (s, [])
  | .inlet inlet =>
    if inlet = 0 ∧ m.isBang then (s, [emitOn 0 s.collected])
    else
      match incoming m with
      | [a] => takeOne scope s inlet a
      | atoms =>
        if inlet = 0 then takeList scope s atoms
        else (s, [scope.mismatch "single atom" m])

end Pack

structure Unpack where
  slots : List SlotType

namespace Unpack

def ofArgs (args : List String) : Unpack × List Entry :=
  let (slots, entries) := packSlots "unpack" args
  (⟨slots.map PackSlot.type⟩, entries)

def preinit (s : Unpack) (layout : Layout) : Layout :=
  { layout with outlets := s.slots.map fun _ => .message }

/-- What one outlet does about the atom at its place in the list.  A symbol is sent behind the
selector `symbol` and read from text. -/
def fireOutlet (scope : MessageScope) (m : Message) (type : SlotType) (a : Atom) (outlet : Nat) :
    Reaction :=
  match type, a with
  | .float, .number x => emitOn outlet (.number x)
  | .symbol, .symbol s => emitOn outlet (.ofString s!"symbol {s}")
  | t, _ => scope.mismatch t.name m

def onMessage (scope : MessageScope) (arrival : Arrival) (m : Message) (s : Unpack) :
    Unpack × List Reaction :=
  match arrival with
  | .inlet 0 =>
    (s, (s.slots.zip m.elements).zipIdx.reverse.map fun ((t, a), outlet) =>
      fireOutlet scope m t a outlet)
  | _ => (s, [])

end Unpack

end Patchbay
