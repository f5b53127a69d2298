import Patchbay.Engine.Delivery

/-
Rendering frames.

A frame is pulled from the endpoints: a node is computed after every source of its
signal wires that this frame has not computed yet.  Every computed node is stamped
with the frame, which is how a source that several nodes share is computed once.

What due actions do is a parameter here.  `renderWith` says what a frame is for any
way of running them.
-/

namespace Patchbay

namespace Engine

variable {κ : Type} [CustomKind κ]

/-- Add a sample into the output.  Channels that the output does not have are left out. -/
def mix (channels : Nat) (output : Array Float32) (x : Mix) : Array Float32 :=
  if x.channel < channels then output.modify (x.position * channels + x.channel) (· + x.sample)
  else output

/-- What a box sees of the engine while a frame is computed. -/
def frameScope (e : Engine κ) : FrameScope :=
  { settings := e.settings, frame := e.frame, tables := e.tables }

/-- Compute one node from what its inlets read, and stamp it. -/
def processNode (e : Engine κ) (node : Nat) : Engine κ :=
  match e.graph.nodes[node]? with
  | none => e
  | some n =>
    let p := n.object.process e.frameScope (e.graph.inputsOf n) n.outputs
    let e := e.onGraph fun g => g.modifyNode node fun n =>
      { n with object := p.state, outputs := p.outputs, stamp := e.frame }
    { e with output := p.mixes.foldl (mix e.settings.channels) e.output } |>.log p.entries

/-- Whether the current frame has not computed a node yet. -/
def isStale (e : Engine κ) (node : Nat) : Bool :=
  e.graph.nodes[node]?.any fun n => n.stamp < e.frame

/-- Compute a node after the stale sources of its signal wires, newest wire first.  Signal wires
form no circle, so no chain of sources is longer than there are nodes. -/
def tickWithin : Nat → Engine κ → Nat → Engine κ
  | 0, e, _ => e
  | fuel + 1, e, node =>
    let e := (e.graph.signalSources node).foldl (fun e source =>
      if e.isStale source then tickWithin fuel e source else e) e
    e.processNode node

/-- Compute a node, and what it needs, for the current frame. -/
def tick (e : Engine κ) (node : Nat) : Engine κ :=
  tickWithin e.graph.size e node

/-- Start the next frame and take out the actions that are due. -/
def beginFrame (e : Engine κ) : List Action × Engine κ :=
  let frame := e.frame + 1
  let (due, agenda) := e.agenda.takeDue (e.settings.frameTime frame)
  (due, { e with frame, rendering := true, agenda })

/-- Compute the output of the current frame from silence, and end the frame. -/
def finishFrame (e : Engine κ) : Engine κ :=
  let e := { e with output := e.output.map fun _ => 0 }
  let e := e.graph.endpoints.foldl tick e
  { e with rendering := false }

/-- Render one frame: run what is due, then pull the endpoints. -/
def renderWith (run : Action → Engine κ → Engine κ) (e : Engine κ) : Engine κ :=
  let (due, e) := e.beginFrame
  (due.foldl (fun e action => run action e) e).finishFrame

end Engine

end Patchbay
