import Patchbay.Agenda
import Patchbay.Graph.Cycle
import Patchbay.Sink

/-
The engine: a patch that runs.

An engine is one value that holds everything a later answer can depend on: the graph
with its boxes, the tables, who listens on which name, the waiting actions, the last
frame, the samples a sink has not taken yet, and the journal of what has happened.
Everything done with an engine is a function from engines to engines.
-/

namespace Patchbay

/-- Whether an engine produces audio. -/
inductive State where
  /-- Not started yet. -/
  | idle
  | running
  /-- Stopped by its owner or by the guard against runaway drives. -/
  | stopped
  deriving DecidableEq, Inhabited

def State.name : State → String
  | .idle => "Idle"
  | .running => "Running"
  | .stopped => "Stopped"

/-- What an engine says about itself. -/
structure Status where
  state : State
  frame : Nat
  /-- Seconds at the start of the current frame. -/
  time : Float
  nodes : Nat
  summary : String

/-- The answer to a command.  Most commands have none. -/
inductive Reply (κ : Type) where
  | silence
  | failed (e : Error)
  | count (n : Nat)
  | frames (fs : List (Array Float32))
  | samples (xs : Array Float32)
  | status (s : Status)
  | table (t : Table)
  | nodes (indices : List Nat)
  | wires (ws : List Wire)
  | size (nodes wires : Nat) (endpoints : List Nat)
  | slot (node index : Nat)
  | node (n : Node κ)

/-- Whether a command has been answered with nothing. -/
def Reply.isSilence {κ : Type} : Reply κ → Bool
  | .silence => true
  | _ => false

/-- Something that happened: a line of the journal, or the answer to a command of an action. -/
inductive Event (κ : Type) where
  | entry (e : Entry)
  | reply (r : Reply κ)

structure Engine (κ : Type) where
  settings : Settings
  registry : Registry κ
  graph : Graph κ
  tables : Tables
  /-- The nodes that listen on each name, in the order in which they began to. -/
  receivers : ByName (List Nat)
  agenda : Agenda Action
  /-- How many frames have been started. -/
  frame : Nat
  /-- Whether the last frame is still being worked on. -/
  rendering : Bool
  /-- The last frame, interleaved. -/
  output : Array Float32
  /-- Samples that the sink has not taken yet. -/
  overflow : Array Float32
  state : State
  sink : Option Sink
  loaded : Bool
  journal : Array (Event κ)

namespace Engine

variable {κ : Type}

/-- An engine without a patch. -/
def new (settings : Settings) (registry : Registry κ) : Engine κ :=
  { settings, registry, graph := .empty, tables := .empty, receivers := .empty, agenda := .empty,
    frame := 0, rendering := false, output := Array.replicate settings.frameLength 0,
    overflow := #[], state := .idle, sink := none, loaded := false, journal := #[] }

/-- An engine without a patch, if its frame can be counted; otherwise the program stops. -/
def new? (settings : Settings) (registry : Registry κ) : Option (Engine κ) :=
  settings.frameLength?.map fun _ => new settings registry

/-- Write lines into the journal. -/
def log (e : Engine κ) (entries : List Entry) : Engine κ :=
  { e with journal := e.journal ++ (entries.map Event.entry).toArray }

/-- Take the journal out, leaving an empty one. -/
def takeJournal (e : Engine κ) : List (Event κ) × Engine κ :=
  (e.journal.toList, { e with journal := #[] })

def withSink (e : Engine κ) (sink : Sink) : Engine κ :=
  { e with sink := some sink }

def hasSink (e : Engine κ) : Bool :=
  e.sink.isSome

/-- Take up to `n` samples out of the far end of a ring. -/
def drain (e : Engine κ) (n : Nat) : Option (Array Float32) × Engine κ :=
  match e.sink with
  | none => (none, e)
  | some s =>
    let (samples, s) := s.drain n
    (samples, e.withSink s)

/-- How many samples wait in a ring. -/
def waiting? (e : Engine κ) : Option Nat :=
  e.sink.bind Sink.waiting?

/-- Add answers to a scripted sink. -/
def feed (e : Engine κ) (answers : List Nat) : Engine κ :=
  { e with sink := e.sink.map fun s => s.feed answers }

/-- Change the graph. -/
def onGraph (e : Engine κ) (f : Graph κ → Graph κ) : Engine κ :=
  { e with graph := f e.graph }

/-- The nodes that listen on a name. -/
def listeners (e : Engine κ) (name : String) : List Nat :=
  (e.receivers.get? name).getD []

/-- Seconds at the start of the current frame. -/
def time (e : Engine κ) : Float :=
  e.settings.frameTime e.frame

/-- Run commands at the start of the first frame at or after a time. -/
def schedule (e : Engine κ) (due : Float) (commands : Action) : Engine κ :=
  { e with agenda := e.agenda.schedule due commands }

/-- The engine as text. -/
def summary (e : Engine κ) : String :=
  s!"Engine \x7b config: {e.settings.summary}, nodes: {e.graph.size}, frame: {e.frame}, " ++
    s!"state: {e.state.name} \x7d"

def status (e : Engine κ) : Status :=
  { state := e.state, frame := e.frame, time := e.time, nodes := e.graph.size,
    summary := e.summary }

end Engine

end Patchbay
