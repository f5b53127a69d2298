import Patchbay.Number.Double
import Patchbay.Scope

/-
Ramps: `line~`.

The box holds a value, or moves in a straight line to a target.  A single number
jumps; a target and a time in milliseconds move, from the first sample of the next
block on.  A number on inlet 1 is the time for the next single number.  Whether a
ramp is over is decided on whole sample counts against its exact length, so it ends
at the first sample that is far enough from its start.
-/

namespace Patchbay

inductive Segment where
  | hold
  /-- From one value to another, beginning at an absolute sample and `length` samples long. -/
  | ramp (start : Nat) (source target : Float32) (length : Float)

structure Ramp where
  value : Float32
  segment : Segment
  nextTime : Option Float32

namespace Ramp

def new : Ramp := ⟨0, .hold, none⟩

def isRamping (s : Ramp) : Bool :=
  match s.segment with
  | .hold => false
  | .ramp .. => true

/-- The value a number of samples into a ramp. -/
def interpolate (elapsed : Int) (source target : Float32) (length : Float) : Float32 :=
  (Float.ofInt elapsed / length).toFloat32 * (target - source) + source

/-- Move on to the sample with this absolute index. -/
def advance (s : Ramp) (sample : Nat) : Ramp :=
  match s.segment with
  | .hold => s
  | .ramp start source target length =>
    let elapsed : Int := (sample : Int) - start
    if Double.atMost length elapsed then { s with value := target, segment := .hold }
    else { s with value := interpolate elapsed source target length }

def process (scope : FrameScope) (outputs : Array (Array Float32)) (s : Ramp) : Processed Ramp :=
  let (outputs, s) := renderFirst outputs (fun i s =>
    let s := s.advance (scope.blockStart + i)
    (s.value, s)) s
  .buffers s outputs

/-- Stay at a value. -/
def jump (s : Ramp) (target : Float32) : Ramp :=
  { s with value := target, segment := .hold }

/-- Start towards a target.  A time that is not positive jumps. -/
def moveTo (scope : MessageScope) (s : Ramp) (target time : Float32) : Ramp :=
  let length := time.toFloat * Float.ofNat scope.settings.sampleRate / 1000
  if length ≤ 0 then s.jump target
  else { s with segment := .ramp scope.blockStart s.value target length }

def onMessage (scope : MessageScope) (arrival : Arrival) (m : Message) (s : Ramp) :
    Ramp × List Reaction :=
  match arrival with
  | .inlet 0 =>
    match m.elements.mapM Atom.number? with
    | some [target] =>
      match s.nextTime with
      | some time => (moveTo scope { s with nextTime := none } target time, [])
      | none => (s.jump target, [])
    | some (target :: time :: _) => (moveTo scope s target time, [])
    | _ =>
      if m.first?.bind Atom.symbol? = some "stop" then ({ s with segment := .hold }, [])
      else (s, [scope.mismatch "float" m])
  | .inlet 1 => takeNumber scope m s fun x => { s with nextTime := some x }
  | _ => (s, [])

end Ramp

end Patchbay
