/-
Where rendered audio goes.

A sink says whether it wants more and takes as many of the offered samples as it
likes, from the front.  Three sinks are known: one that takes everything and keeps
nothing, a queue of limited capacity that someone empties at the other end, and one
that follows a script of answers.  The scripted sink is ready as long as answers are
left, and its answers may be zero or exceed the offer.  Any other sink is known by the
answers that it will give.
-/

namespace Patchbay

inductive Sink where
  /-- Always ready; counts what it was given. -/
  | null (written : Nat)
  /-- Holds samples, oldest first, up to a capacity. -/
  | ring (capacity : Nat) (queue : Array Float32)
  /-- Answers each offer with the next number of the script. -/
  | script (answers : List Nat)
  /-- Any other sink: whether it wants more, each time it is asked, and how many samples it says it
  took, each time it is offered some. -/
  | other (wants : Nat → Bool) (takes : Nat → Nat)

namespace Sink

/-- How many samples a ring still has room for. -/
def space : Sink → Nat
  | .ring capacity queue => capacity - queue.size
  | _ => 0

def isReady : Sink → Bool
  | .null _ => true
  | .ring capacity queue => queue.size < capacity
  | .script answers => !answers.isEmpty
  | .other wants _ => wants 0

/-- Ask whether more is wanted.  Only a sink of another kind may answer differently when it is asked
again at once. -/
def ask (s : Sink) : Bool × Sink :=
  match s with
  | .other wants takes => (wants 0, .other (fun i => wants (i + 1)) takes)
  | s => (s.isReady, s)

/-- Offer samples.  The answer is how many the sink says it took. -/
def offer (s : Sink) (samples : Array Float32) : Nat × Sink :=
  match s with
  | .null written => (samples.size, .null (written + samples.size))
  | .ring capacity queue =>
    let taken := min samples.size (capacity - queue.size)
    (taken, .ring capacity (queue ++ samples.extract 0 taken))
  | .script answers => (answers.headD 0, .script answers.tail)
  | .other wants takes => (takes 0, .other wants fun i => takes (i + 1))

/-- Take up to `n` samples out of a ring at its far end. -/
def drain (s : Sink) (n : Nat) : Option (Array Float32) × Sink :=
  match s with
  | .ring capacity queue =>
    (some (queue.extract 0 n), .ring capacity (queue.extract n queue.size))
  | s => (none, s)

/-- How many samples wait in a ring. -/
def waiting? : Sink → Option Nat
  | .ring _ queue => some queue.size
  | _ => none

/-- Add answers to a script. -/
def feed (s : Sink) (answers : List Nat) : Sink :=
  match s with
  | .script left => .script (left ++ answers)
  | s => s

end Sink

end Patchbay
