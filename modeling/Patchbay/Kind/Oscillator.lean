import Patchbay.Number.Double
import Patchbay.Scope

/-
Oscillators: `osc~`, a cosine, and `phasor~`, a ramp from zero to one.

Both keep a phase in cycles and advance it by frequency over sample rate for each
sample.  The frequency comes from inlet 0, where the first argument stands in while
nothing is connected; a number on inlet 1 sets the phase.
-/

namespace Patchbay

/-- Give the first argument, if it is a number, to an inlet. -/
def seedInlet (scope : InitScope) (inlet : Nat) : List Request :=
  match scope.numberArg? 0 with
  | some x => [.constant inlet x]
  | none => []

/-- Cycles from one sample to the next. -/
def phaseStep (scope : FrameScope) (frequency : Input) (i : Nat) : Float :=
  (frequency.sample i).toFloat / Float.ofNat scope.settings.sampleRate

structure Osc where
  phase : Float

namespace Osc

def new : Osc := ⟨0⟩

def init (scope : InitScope) (_ : Osc) : Osc × List Request :=
  (⟨0⟩, seedInlet scope 0)

/-- The angle of a whole cycle. -/
def fullCircle : Float := 6.283185307179586

def process (scope : FrameScope) (inputs : Array Input) (outputs : Array (Array Float32))
    (s : Osc) : Processed Osc :=
  let frequency := inputs[0]?.getD .silent
  let (outputs, phase) := renderFirst outputs (fun i phase =>
    ((fullCircle * phase).cos.toFloat32, phase + phaseStep scope frequency i)) s.phase
  .buffers ⟨if outputs.isEmpty then phase else phase - phase.floor⟩ outputs

def onMessage (scope : MessageScope) (arrival : Arrival) (m : Message) (s : Osc) :
    Osc × List Reaction :=
  match arrival with
  | .inlet 1 => takeNumber scope m s fun x => ⟨x.toFloat⟩
  | _ => (s, [])

end Osc

structure Phasor where
  phase : Float

namespace Phasor

def new : Phasor := ⟨0⟩

def init (scope : InitScope) (_ : Phasor) : Phasor × List Request :=
  (⟨0⟩, seedInlet scope 0)

def process (scope : FrameScope) (inputs : Array Input) (outputs : Array (Array Float32))
    (s : Phasor) : Processed Phasor :=
  let frequency := inputs[0]?.getD .silent
  let (outputs, phase) := renderFirst outputs (fun i phase =>
    (phase.toFloat32, Double.wrapUnit (phase + phaseStep scope frequency i))) s.phase
  .buffers ⟨phase⟩ outputs

def onMessage (scope : MessageScope) (arrival : Arrival) (m : Message) (s : Phasor) :
    Phasor × List Reaction :=
  match arrival with
  | .inlet 1 => takeNumber scope m s fun x => ⟨Double.wrapUnit x.toFloat⟩
  | _ => (s, [])

end Phasor

end Patchbay
