import Patchbay.Message

/-
What can be asked of a running engine, as data.

Commands are what a host gives an engine and what an engine's own timed actions
consist of, so an action is simply a list of commands.  Actions may schedule further
actions; `actionCount` says how many a command holds in all, which bounds how deeply
actions can set off one another.

What an action asks for is settled when it is scheduled.  It does not look at the engine, neither
at its state nor at what it has rendered, and decides nothing by it.  In a single run that is no
restriction: a callback comes to the commands that it gives in the end.  But a result that
compares two runs is about callbacks that give the same commands in both.
-/

namespace Patchbay

inductive Command where
  /-- Send a message to everyone who listens on a name. -/
  | send (name : String) (message : Message)
  /-- Send a message along the wire that leaves an outlet. -/
  | emit (node outlet : Nat) (message : Message)
  /-- Render frames and answer with them. -/
  | render (frames : Nat)
  /-- Render frames silently. -/
  | skip (frames : Nat)
  /-- Compute a node, and what it needs, for the current frame. -/
  | tick (node : Nat)
  /-- The last rendered frame. -/
  | output
  /-- Run commands at the start of the first frame at or after a time. -/
  | schedule (due : Float) (commands : List Command)
  /-- Leave a note with a label and the current frame. -/
  | mark (topic label : String)
  | play
  | write
  | stop
  | status
  | table (name : String)
  | receivers (name : String)
  | kinds
  | wires
  | size
  | signalSource (node inlet : Nat)
  | messageTarget (node outlet : Nat)
  | node (index : Nat)

/-- Commands that run together once their time has come. -/
abbrev Action := List Command

mutual

/-- How many actions a command holds, actions inside actions included. -/
def Command.actionCount : Command → Nat
  | .schedule _ commands => actionsWithin commands + 1
  | _ => 0

/-- How many actions a list of commands holds. -/
def actionsWithin : List Command → Nat
  | [] => 0
  | c :: cs => c.actionCount + actionsWithin cs

end

end Patchbay
