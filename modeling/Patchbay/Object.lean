import Patchbay.Kind.Arithmetic
import Patchbay.Kind.Bridge
import Patchbay.Kind.Gate
import Patchbay.Kind.MessageBox
import Patchbay.Kind.Operator
import Patchbay.Kind.Output
import Patchbay.Kind.Pack
import Patchbay.Kind.Ramp
import Patchbay.Kind.Storage
import Patchbay.Kind.TableReader
import Patchbay.Kind.Trigger

/-
The object inside a box: its kind and its state.

The built-in kinds are a closed family.  Further kinds come in through a type `κ` of
custom objects with a `CustomKind` instance, which has the same four hooks as the
built-in kinds: before wiring, after wiring, once per frame, and on a message.  With
`κ` empty there are only the built-in kinds.
-/

namespace Patchbay

/-- The hooks of objects of a custom kind. -/
class CustomKind (κ : Type) where
  /-- Adjust the slots from the arguments, before any wiring. -/
  preinit : List String → Layout → κ → κ × Layout
  /-- Set up, once the graph is wired. -/
  init : InitScope → κ → κ × List Request
  /-- Compute the buffers of all outlets for one frame. -/
  process : FrameScope → Array Input → Array (Array Float32) → κ → Processed κ
  onMessage : MessageScope → Arrival → Message → κ → κ × List Reaction

instance : CustomKind Empty where
  preinit _ layout k := (k, layout)
  init _ k := (k, [])
  process _ _ outputs k := .buffers k outputs
  onMessage _ _ _ k := (k, [])

inductive Object (κ : Type) where
  /-- A comment, an empty box or a box of unknown kind; does nothing. -/
  | null
  /-- Stands for a table in the graph. -/
  | table (name : String)
  | osc (s : Osc)
  | phasor (s : Phasor)
  | signalBinop (s : SignalBinop)
  | mtof
  | tableReader (s : TableReader)
  | ramp (s : Ramp)
  | output
  | message (s : MessageBox)
  | receive (s : Receive)
  | loadbang
  | print (s : Print)
  | trigger (s : Trigger)
  | pack (s : Pack)
  | unpack (s : Unpack)
  | binop (s : Binop)
  | float (s : FloatBox)
  | random (s : RandomBox)
  | bang
  | toggle (s : Toggle)
  | spigot (s : Spigot)
  | moses (s : Moses)
  | swap (s : Swap)
  | select (s : Select)
  | change (s : Change)
  | custom (k : κ)

namespace Object

variable {κ : Type}

instance : Inhabited (Object κ) := ⟨.null⟩

/-- Whether a box does nothing and grows inlets as wires need them. -/
def isPlaceholder : Object κ → Bool
  | .null => true
  | _ => false

private def wrap {σ : Type} {α : Type} (f : σ → Object κ) (r : σ × α) : Object κ × α :=
  (f r.1, r.2)

/-- Adjust the slots before any wiring. -/
def preinit [CustomKind κ] (args : List String) (layout : Layout) :
    Object κ → Object κ × Layout
  | .trigger s => (.trigger s, s.preinit layout)
  | .pack s => (.pack s, s.preinit layout)
  | .unpack s => (.unpack s, s.preinit layout)
  | .select s => (.select s, s.preinit layout)
  | .custom k => wrap .custom (CustomKind.preinit args layout k)
  | o => (o, layout)

/-- Set up, once the graph is wired. -/
def init [CustomKind κ] (scope : InitScope) : Object κ → Object κ × List Request
  | .table name => (.table ((scope.arg? 0).getD name), [])
  | .osc s => wrap .osc (s.init scope)
  | .phasor s => wrap .phasor (s.init scope)
  | .signalBinop s => wrap .signalBinop (s.init scope)
  | .tableReader s => wrap .tableReader (s.init scope)
  | .message s => wrap .message (s.init scope)
  | .receive s => wrap .receive (s.init scope)
  | .loadbang => (.loadbang, bangAtStart scope)
  | .print s => wrap .print (s.init scope)
  | .binop s => wrap .binop (s.init scope)
  | .float s => wrap .float (s.init scope)
  | .random s => wrap .random (s.init scope)
  | .spigot s => wrap .spigot (s.init scope)
  | .moses s => wrap .moses (s.init scope)
  | .swap s => wrap .swap (s.init scope)
  | .change s => wrap .change (s.init scope)
  | .custom k => wrap .custom (CustomKind.init scope k)
  | o => (o, [])

/-- Compute one frame. -/
def process [CustomKind κ] (scope : FrameScope) (inputs : Array Input)
    (outputs : Array (Array Float32)) : Object κ → Processed (Object κ)
  | .osc s => (s.process scope inputs outputs).map .osc
  | .phasor s => (s.process scope inputs outputs).map .phasor
  | .signalBinop s => (s.process inputs outputs).map .signalBinop
  | .mtof => .buffers .mtof (noteFrequencies inputs outputs)
  | .tableReader s => (s.process scope inputs outputs).map .tableReader
  | .ramp s => (s.process scope outputs).map .ramp
  | .output => ⟨.output, outputs, outputMixes scope inputs, []⟩
  | .custom k => (CustomKind.process scope inputs outputs k).map .custom
  | o => .buffers o outputs

/-- Handle a message. -/
def onMessage [CustomKind κ] (scope : MessageScope) (arrival : Arrival) (m : Message) :
    Object κ → Object κ × List Reaction
  | .osc s => wrap .osc (s.onMessage scope arrival m)
  | .phasor s => wrap .phasor (s.onMessage scope arrival m)
  | .tableReader s => wrap .tableReader (s.onMessage scope arrival m)
  | .ramp s => wrap .ramp (s.onMessage scope arrival m)
  | .message s => wrap .message (s.onMessage scope arrival m)
  | .receive s => wrap .receive (s.onMessage arrival m)
  | .print s => wrap .print (s.onMessage m)
  | .trigger s => wrap .trigger (s.onMessage scope arrival m)
  | .pack s => wrap .pack (s.onMessage scope arrival m)
  | .unpack s => wrap .unpack (s.onMessage scope arrival m)
  | .binop s => wrap .binop (s.onMessage scope arrival m)
  | .float s => wrap .float (s.onMessage scope arrival m)
  | .random s => wrap .random (s.onMessage scope arrival m)
  | .bang => (.bang, bangFor arrival)
  | .toggle s => wrap .toggle (s.onMessage scope arrival m)
  | .spigot s => wrap .spigot (s.onMessage scope arrival m)
  | .moses s => wrap .moses (s.onMessage scope arrival m)
  | .swap s => wrap .swap (s.onMessage scope arrival m)
  | .select s => wrap .select (s.onMessage scope arrival m)
  | .change s => wrap .change (s.onMessage scope arrival m)
  | .custom k => wrap .custom (CustomKind.onMessage scope arrival m k)
  | o => (o, [])

end Object

end Patchbay
