import Patchbay.Command
import Patchbay.Journal
import Patchbay.Settings
import Patchbay.Slot
import Patchbay.Table

/-
What a box sees of the engine, and what it may ask of it.

A box never touches the engine.  It is shown a scope and answers with its new state
and a list of wishes, in order: requests while it is being set up, reactions to a
message, and samples to mix into the output while a frame is computed.  The engine
carries them out afterwards, so what a box can bring about is exactly what these
types say.
-/

namespace Patchbay

/-! ### Setting up -/

/-- What a box sees once the graph is wired. -/
structure InitScope where
  node : Nat
  kind : String
  args : List String
  inlets : Array InletSlot
  tables : Tables
  settings : Settings

/-- What a box may ask for while it is being set up. -/
inductive Request where
  /-- Give an inlet that nothing feeds this constant. -/
  | constant (inlet : Nat) (value : Float32)
  /-- Receive what is sent to a name. -/
  | listen (name : String)
  /-- Run commands at a time. -/
  | schedule (due : Float) (commands : Action)
  | record (entry : Entry)

namespace InitScope

def arg? (s : InitScope) (i : Nat) : Option String :=
  s.args[i]?

/-- An argument that reads as a finite number. -/
def numberArg? (s : InitScope) (i : Nat) : Option Float32 :=
  (s.arg? i).bind fun a => Single.readFinite? a.toList

/-- Whether a constant may be given to an inlet. -/
def takesConstant (s : InitScope) (inlet : Nat) : Bool :=
  s.inlets[inlet]?.any InletSlot.holdsConstant

def hasTable (s : InitScope) (name : String) : Bool :=
  s.tables.contains name

end InitScope

/-! ### Computing a frame -/

/-- What a box sees while a frame is computed. -/
structure FrameScope where
  settings : Settings
  frame : Nat
  tables : Tables

/-- The absolute index of the first sample of the frame. -/
def FrameScope.blockStart (s : FrameScope) : Nat :=
  s.frame * s.settings.bufferSize

/-- A sample to add into one channel of the output. -/
structure Mix where
  channel : Nat
  position : Nat
  sample : Float32

/-- What a box has computed. -/
structure Processed (σ : Type) where
  state : σ
  /-- One buffer for each outlet; those of message outlets are empty. -/
  outputs : Array (Array Float32)
  mixes : List Mix
  entries : List Entry

namespace Processed

/-- Only new buffers. -/
def buffers {σ : Type} (state : σ) (outputs : Array (Array Float32)) : Processed σ :=
  ⟨state, outputs, [], []⟩

def map {σ τ : Type} (f : σ → τ) (p : Processed σ) : Processed τ :=
  ⟨f p.state, p.outputs, p.mixes, p.entries⟩

end Processed

/-- Compute the first outlet's buffer, if there is one, sample by sample. -/
def renderFirst {σ : Type} (outputs : Array (Array Float32)) (step : Nat → σ → Float32 × σ)
    (start : σ) : Array (Array Float32) × σ :=
  match outputs[0]? with
  | none => (outputs, start)
  | some buffer =>
    let (samples, s) := renderBlock buffer.size step start
    (outputs.setIfInBounds 0 samples, s)

/-- The same without a state. -/
def renderFirstPlain (outputs : Array (Array Float32)) (sample : Nat → Float32) :
    Array (Array Float32) :=
  match outputs[0]? with
  | none => outputs
  | some buffer => outputs.setIfInBounds 0 (renderPlain buffer.size sample)

/-! ### Handling a message -/

/-- What a box sees when a message arrives. -/
structure MessageScope where
  node : Nat
  kind : String
  /-- The last frame that was started. -/
  frame : Nat
  /-- Whether that frame is still being worked on. -/
  rendering : Bool
  settings : Settings
  tables : Tables

/-- A message on its way out of a box. -/
inductive Emission where
  | outlet (outlet : Nat) (message : Message)
  | receiver (name : String) (message : Message)

/-- What a box may do about a message. -/
inductive Reaction where
  | emit (emission : Emission)
  | record (entry : Entry)

namespace Reaction

def emission? : Reaction → Option Emission
  | .emit e => some e
  | .record _ => none

def entry? : Reaction → Option Entry
  | .emit _ => none
  | .record e => some e

end Reaction

/-- Send a message out of an outlet. -/
def emitOn (outlet : Nat) (m : Message) : Reaction :=
  .emit (.outlet outlet m)

/-- Send a message to everyone who listens on a name. -/
def emitTo (name : String) (m : Message) : Reaction :=
  .emit (.receiver name m)

namespace MessageScope

/-- The absolute index of the first sample of the next block to be computed. -/
def blockStart (s : MessageScope) : Nat :=
  (if s.rendering then s.frame else s.frame + 1) * s.settings.bufferSize

/-- Log an error against the box. -/
def report (s : MessageScope) (e : Error) : Reaction :=
  .record (.record .error e.message [("node", .count s.node), ("kind", .text s.kind)])

/-- Log that the box expected something else. -/
def mismatch (s : MessageScope) (expected : String) (got : Message) : Reaction :=
  s.report (.typeMismatch s.kind expected got.text)

end MessageScope

/-- What a stored number does with a message that should bring one: take its leading number, or
complain. -/
def takeNumber {σ : Type} (scope : MessageScope) (m : Message) (s : σ) (take : Float32 → σ) :
    σ × List Reaction :=
  match m.leadingNumber? with
  | some x => (take x, [])
  | none => (s, [scope.mismatch "float" m])

end Patchbay
