import Patchbay.Engine.Render

/-
Driving a sink.

A drive renders frames and offers them for as long as the sink wants more.  What the
sink does not take is kept and offered again before anything new is rendered, so the
samples reach the sink in order and none is lost.  The budget of a drive is limited:
when it is used up and the sink still wants more, the engine stops.

As in a frame, how a frame is rendered is a parameter.
-/

namespace Patchbay

namespace Engine

variable {κ : Type}

/-- Ask the sink, if one is attached, whether it wants more. -/
def askSink (e : Engine κ) : Bool × Engine κ :=
  match e.sink with
  | none => (false, e)
  | some s =>
    let (wants, s) := s.ask
    (wants, e.withSink s)

/-- What the journal says about an offer.  Only scripted sinks are observed. -/
def offerEntries (s : Sink) (answer : Nat) (samples : Array Float32) : List Entry :=
  match s with
  | .script _ => [.note "sink" [.count answer, .samples samples.toList]]
  | _ => []

/-- Offer samples to the sink.  The answer is how many it took, at most all of them. -/
def offer (e : Engine κ) (samples : Array Float32) : Nat × Engine κ :=
  match e.sink with
  | none => (0, e)
  | some s =>
    let (answer, s') := s.offer samples
    (min answer samples.size,
      { e with sink := some s' }.log (offerEntries s answer samples))

/-- One round of a drive: a new frame if nothing is left over, otherwise what is left.  The answer
is how many frames were rendered. -/
def driveRound (render : Engine κ → Engine κ) (e : Engine κ) : Nat × Engine κ :=
  if e.overflow.isEmpty then
    let e := render e
    let (accepted, e) := e.offer e.output
    (1, { e with overflow := e.overflow ++ e.output.extract accepted e.output.size })
  else
    let (accepted, e) := e.offer e.overflow
    (0, { e with overflow := e.overflow.extract accepted e.overflow.size })

/-- Rounds for as long as the sink wants more, within a budget. -/
def driveWithin (render : Engine κ → Engine κ) (cap : Nat) :
    Nat → Nat → Engine κ → Except Error Nat × Engine κ
  | budget, frames, e =>
    let (wants, e) := e.askSink
    if wants then
      match budget with
      | 0 =>
        let fault := Error.runawayGraph cap
        (.error fault, { e with state := .stopped }.log [.error fault.message])
      | budget + 1 =>
        let (rendered, e) := driveRound render e
        driveWithin render cap budget (frames + rendered) e
    else (.ok frames, e)

/-- What a drive does once its budget is used up. -/
theorem driveWithin_zero (render : Engine κ → Engine κ) (cap frames : Nat) (e : Engine κ) :
    driveWithin render cap 0 frames e =
      if e.askSink.1 then
        (.error (.runawayGraph cap), { e.askSink.2 with state := .stopped }.log
          [.error (Error.runawayGraph cap).message])
      else (.ok frames, e.askSink.2) := by
  rw [driveWithin]

/-- What a drive does first. -/
theorem driveWithin_succ (render : Engine κ → Engine κ) (cap budget frames : Nat) (e : Engine κ) :
    driveWithin render cap (budget + 1) frames e =
      if e.askSink.1 then
        driveWithin render cap budget (frames + (driveRound render e.askSink.2).1)
          (driveRound render e.askSink.2).2
      else (.ok frames, e.askSink.2) := by
  rw [driveWithin]

/-- Render and hand off frames while the sink wants more.  The answer is how many were rendered. -/
def writeWith (render : Engine κ → Engine κ) (e : Engine κ) : Except Error Nat × Engine κ :=
  if e.state ≠ .running then (.ok 0, e.log [.trace s!"write() while {e.state.name}"])
  else if e.hasSink then
    driveWithin render e.settings.maxWritesPerDrive e.settings.maxWritesPerDrive 0 e
  else (.ok 0, e.log [.warn "no output sink attached"])

/-- Start producing audio, filling the sink at once. -/
def playWith (render : Engine κ → Engine κ) (e : Engine κ) : Except Error Nat × Engine κ :=
  if e.state = .running then (.ok 0, e.log [.debug "Already started."])
  else writeWith render ({ e with state := .running }.log [.info "Starting audio."])

/-- Stop producing audio.  What the sink has not taken is forgotten. -/
def stop (e : Engine κ) : Engine κ :=
  if e.state = .running then
    { e with state := .stopped, overflow := #[] }.log [.info "Stopping audio."]
  else e.log [.debug "Already stopped."]

end Engine

end Patchbay
