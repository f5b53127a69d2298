import Patchbay.Patch.Directive
import Patchbay.Registry

/-
The graph of a patch: nodes in the order of the patch, and wires between their slots.

A signal inlet has at most one incoming signal wire and a message outlet at most one
outgoing message wire; connecting again replaces the old wire.  Two orders of the
wires are kept, because both show.  `wires` is the order of their numbers, in which a
removed wire's number goes to the last one.  `recent` is the order of age, newest
first, in which the wires at a node are walked.

Node numbers are thirty-two bits wide, and a larger number stands for its lower bits.
Inlets are counted in sixty-four bits.  A placeholder that would need more of them than can be
counted is no case for a refusal: there the program stops.
-/

namespace Patchbay

/-- A box of the patch. -/
structure Node (κ : Type) where
  kind : String
  args : List String
  position : Position
  /-- Whether every frame is pulled from here. -/
  endpoint : Bool
  inlets : Array InletSlot
  outlets : List Rate
  /-- The buffers of the outlets; those of message outlets are empty. -/
  outputs : Array (Array Float32)
  object : Object κ
  /-- The last frame in which this node was computed. -/
  stamp : Nat
  deriving Inhabited

namespace Node

variable {κ : Type}

/-- A node that nothing is connected to, with silent buffers. -/
def new (kind : String) (args : List String) (position : Position) (endpoint : Bool)
    (inlets outlets : List Rate) (object : Object κ) (bufferSize : Nat) : Node κ :=
  { kind, args, position, endpoint, object, outlets
    inlets := (inlets.map InletSlot.fresh).toArray
    outputs := (outlets.map fun rate => match rate with
      | .signal => Array.replicate bufferSize (0 : Float32)
      | .message => #[]).toArray
    stamp := 0 }

/-- The buffer of a signal outlet as of the last computed frame. -/
def outletBuffer? (n : Node κ) (outlet : Nat) : Option (Array Float32) :=
  match n.outlets[outlet]? with
  | some .signal => n.outputs[outlet]?
  | _ => none

end Node

/-- A connection from an outlet to an inlet, at the rate of the outlet. -/
structure Wire where
  source : Nat
  outlet : Nat
  sink : Nat
  inlet : Nat
  rate : Rate
  deriving DecidableEq

namespace Wire

/-- Whether this is a signal wire into an inlet. -/
def feeds (w : Wire) (node inlet : Nat) : Bool :=
  w.rate == .signal && w.sink == node && w.inlet == inlet

/-- Whether this is a message wire out of an outlet. -/
def carries (w : Wire) (node outlet : Nat) : Bool :=
  w.rate == .message && w.source == node && w.outlet == outlet

end Wire

structure Graph (κ : Type) where
  nodes : Array (Node κ)
  /-- The endpoints, in the order in which they were made. -/
  endpoints : List Nat
  /-- The wires by number. -/
  wires : List Wire
  /-- The wires by age, newest first. -/
  recent : List Wire

/-- The node that a number stands for. -/
def nodeIndex (n : Nat) : Nat :=
  n % twoTo 32

/-- Take a wire out of a list; the last wire moves into its place. -/
def swapRemove (ws : List Wire) (w : Wire) : List Wire :=
  match ws.getLast? with
  | none => []
  | some last => ws.dropLast.replace w last

namespace Graph

variable {κ : Type}

def empty : Graph κ := ⟨#[], [], [], []⟩

instance : Inhabited (Graph κ) := ⟨empty⟩

def size (g : Graph κ) : Nat :=
  g.nodes.size

/-- The node that a number stands for, if there is one. -/
def node? (g : Graph κ) (n : Nat) : Option (Node κ) :=
  g.nodes[nodeIndex n]?

/-- Change a node. -/
def modifyNode (g : Graph κ) (i : Nat) (f : Node κ → Node κ) : Graph κ :=
  { g with nodes := g.nodes.modify i f }

/-- Add a node at the end. -/
def addNode (g : Graph κ) (n : Node κ) : Graph κ :=
  { g with
    nodes := g.nodes.push n
    endpoints := if n.endpoint then g.endpoints ++ [g.size] else g.endpoints }

/-! ### Wires -/

/-- The signal wire into an inlet. -/
def wireInto? (g : Graph κ) (node inlet : Nat) : Option Wire :=
  g.recent.find? fun w => w.feeds node inlet

/-- The message wire out of an outlet. -/
def wireFrom? (g : Graph κ) (node outlet : Nat) : Option Wire :=
  g.recent.find? fun w => w.carries node outlet

/-- The outlet that feeds a signal inlet. -/
def signalSource? (g : Graph κ) (node inlet : Nat) : Option (Nat × Nat) :=
  (g.wireInto? node inlet).map fun w => (w.source, w.outlet)

/-- The inlet that a message out of an outlet reaches. -/
def messageTarget? (g : Graph κ) (node outlet : Nat) : Option (Nat × Nat) :=
  (g.wireFrom? node outlet).map fun w => (w.sink, w.inlet)

/-- How many inlets a placeholder needs for a wire into `inlet`, if they can be counted. -/
def inletsFor (inlet : Nat) : Except WireFault Nat :=
  if inlet + 1 < twoTo 64 then .ok (inlet + 1) else .error .overflow

/-- Give a row of inlets a new length, with fresh message inlets at the end. -/
def resizeInlets (slots : Array InletSlot) (size : Nat) : Array InletSlot :=
  slots.extract 0 size ++ Array.replicate (size - slots.size) (.fresh .message)

/-- Make sure that a node has an inlet.  Only placeholders grow. -/
def reachInlet (g : Graph κ) (sink inlet : Nat) : Except WireFault (Graph κ) :=
  let i := nodeIndex sink
  match g.nodes[i]? with
  | none => .error (.noNode sink)
  | some n =>
    if inlet < n.inlets.size then .ok g
    else if n.object.isPlaceholder then do
      let size ← inletsFor inlet
      pure (g.modifyNode i fun n => { n with inlets := resizeInlets n.inlets size })
    else .error (.noInlet n.kind sink inlet)

/-- The rate of an outlet. -/
def outletRate (g : Graph κ) (source outlet : Nat) : Except WireFault Rate :=
  match g.node? source with
  | none => .error (.noNode source)
  | some n =>
    match n.outlets[outlet]? with
    | none => .error (.noOutlet n.kind source outlet)
    | some rate => .ok rate

/-- The wire that a new one replaces. -/
def replaced? (g : Graph κ) (w : Wire) : Option Wire :=
  match w.rate with
  | .signal => g.wireInto? w.sink w.inlet
  | .message => g.wireFrom? w.source w.outlet

/-- Take a wire out. -/
def removeWire (g : Graph κ) (w : Wire) : Graph κ :=
  { g with wires := swapRemove g.wires w, recent := g.recent.erase w }

/-- Add a wire as the newest. -/
def addWire (g : Graph κ) (w : Wire) : Graph κ :=
  { g with wires := g.wires ++ [w], recent := w :: g.recent }

/-- Add a wire, in the place of the one that it competes with. -/
def putWire (g : Graph κ) (w : Wire) : Graph κ :=
  match g.replaced? w with
  | some old => (g.removeWire old).addWire w
  | none => g.addWire w

/-- What the journal says about a new wire. -/
def wireEntries (g : Graph κ) (w : Wire) (source outlet sink inlet : Nat) : List Entry :=
  let numbers : List (String × Field) :=
    [("source", .count source), ("outlet", .count outlet), ("sink", .count sink),
     ("inlet", .count inlet)]
  let replacing := match g.replaced? w with
    | some _ => [Entry.record .debug s!"replacing existing {w.rate.name} wire" numbers]
    | none => []
  replacing ++ [.trace s!"connected {source}:{outlet} -> {sink}:{inlet} ({w.rate.name})"]

/-- Connect an outlet to an inlet.  The answer is the rate of the wire; nothing changes if the wire
is not made. -/
def connect (g : Graph κ) (source outlet sink inlet : Nat) :
    Except WireFault (Rate × Graph κ × List Entry) := do
  let rate ← g.outletRate source outlet
  let g ← g.reachInlet sink inlet
  let w : Wire := ⟨nodeIndex source, outlet, nodeIndex sink, inlet, rate⟩
  pure (rate, g.putWire w, g.wireEntries w source outlet sink inlet)

/-- Whether connecting overflows, so that the program stops. -/
def overflows (g : Graph κ) (source outlet sink inlet : Nat) : Bool :=
  match g.connect source outlet sink inlet with
  | .error .overflow => true
  | _ => false

/-- Connect two slots of a graph in place: whether that worked, and the graph from then on, with
whatever the steps before a fault have done to it. -/
def connectInPlace (g : Graph κ) (source outlet sink inlet : Nat) :
    Except WireFault Rate × Graph κ :=
  match g.outletRate source outlet with
  | .error fault => (.error fault, g)
  | .ok rate =>
    match g.reachInlet sink inlet with
    | .error fault => (.error fault, g)
    | .ok grown =>
      (.ok rate, grown.putWire ⟨nodeIndex source, outlet, nodeIndex sink, inlet, rate⟩)

/-! ### Messages at an inlet -/

/-- Let the observers of an inlet see a message. -/
def observe (g : Graph κ) (node inlet : Nat) (m : Message) : Graph κ :=
  match m.leadingNumber? with
  | none => g
  | some value =>
    g.modifyNode node fun n =>
      { n with inlets := n.inlets.modify inlet fun slot =>
        slot.observers.foldl (fun s o => match o with
          | .setConstant => s.setConstant value) slot }

/-! ### Reading inputs -/

/-- What an inlet reads. -/
def inputOf (g : Graph κ) (slot : InletSlot) : Input :=
  match slot.feed with
  | .unresolved => .silent
  | .constant value => .constant value
  | .aliased node outlet =>
    match (g.nodes[node]?).bind fun n => n.outputs[outlet]? with
    | some buffer => .ofBuffer buffer
    | none => .silent

/-- What the inlets of a node read. -/
def inputsOf (g : Graph κ) (n : Node κ) : Array Input :=
  n.inlets.map g.inputOf

/-- The sources of the signal wires into a node, newest wire first. -/
def signalSources (g : Graph κ) (node : Nat) : List Nat :=
  (g.recent.filter fun w => w.rate == .signal && w.sink == node).map Wire.source

end Graph

end Patchbay
