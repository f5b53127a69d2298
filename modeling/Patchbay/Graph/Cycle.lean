import Patchbay.Graph.Basic

/-
Signal cycles, and pointing every signal inlet at what feeds it.

A frame is computed by pulling, so signal wires must not lead in a circle.  The check
is a depth-first search in two passes.  The first follows the arcs forward and lists
the nodes in the order in which the search leaves them, last one first.  The second
takes the nodes in that order and follows the arcs backward: without a circle it
never gets anywhere from any of them, since all that lies behind has been taken
before.  The first node that it does get to is reported.
-/

namespace Patchbay

/-- Arcs between numbered nodes. -/
abbrev Arcs := List (Nat × Nat)

namespace Arcs

/-- The nodes that arcs lead to from a node, newest arc first. -/
def successors (arcs : Arcs) (n : Nat) : List Nat :=
  (arcs.reverse.filter fun a => a.1 == n).map Prod.snd

/-- The nodes from which arcs lead to a node, newest arc first. -/
def predecessors (arcs : Arcs) (n : Nat) : List Nat :=
  (arcs.reverse.filter fun a => a.2 == n).map Prod.fst

/-- Search forward from a stack of nodes.  Nodes leave the undiscovered ones when they are first
seen, and join the finished ones, in front, when they come up again with everything behind them
done. -/
def finishFrom (arcs : Arcs) (undiscovered finished : List Nat) :
    List Nat → List Nat × List Nat
  | [] => (undiscovered, finished)
  | n :: rest =>
    if n ∈ undiscovered then
      let left := undiscovered.erase n
      let fresh := (arcs.successors n).filter (· ∈ left)
      arcs.finishFrom left finished (fresh.reverse ++ n :: rest)
    else if n ∈ finished then arcs.finishFrom undiscovered finished rest
    else arcs.finishFrom undiscovered (n :: finished) rest
termination_by stack => (undiscovered.length, stack.length)
decreasing_by
  · apply Prod.Lex.left
    have := List.length_erase_of_mem ‹n ∈ undiscovered›
    have := List.length_pos_of_mem ‹n ∈ undiscovered›
    omega
  · apply Prod.Lex.right; simp
  · apply Prod.Lex.right; simp

/-- All nodes below `count`, in the order in which a forward search leaves them, last one first. -/
def finishOrder (arcs : Arcs) (count : Nat) : List Nat :=
  ((List.range count).foldl (fun (undiscovered, finished) n =>
    if n ∈ undiscovered then arcs.finishFrom undiscovered finished [n]
    else (undiscovered, finished)) (List.range count, [])).2

/-- One step of a backward search: the next node that it gets to, what is then undiscovered, and
the stack. -/
def stepBack (arcs : Arcs) (undiscovered : List Nat) :
    List Nat → Option (Nat × List Nat × List Nat)
  | [] => none
  | n :: rest =>
    if n ∈ undiscovered then
      let left := undiscovered.erase n
      let fresh := (arcs.predecessors n).filter (· ∈ left)
      some (n, left, fresh.reverse ++ rest)
    else arcs.stepBack undiscovered rest

/-- Search backward from each node in turn.  The answer is the first node that a search gets to
beyond its start. -/
def firstBeyond (arcs : Arcs) (undiscovered : List Nat) : List Nat → Option Nat
  | [] => none
  | n :: rest =>
    match arcs.stepBack undiscovered [n] with
    | none => arcs.firstBeyond undiscovered rest
    | some (_, left, stack) =>
      match arcs.stepBack left stack with
      | some (beyond, _, _) => some beyond
      | none => arcs.firstBeyond left rest

/-- A node on a circle of arcs between different nodes, if there is such a circle. -/
def cycleNode? (arcs : Arcs) (count : Nat) : Option Nat :=
  arcs.firstBeyond (List.range count) (arcs.finishOrder count)

end Arcs

namespace Graph

variable {κ : Type}

/-- The signal wires as arcs, by number. -/
def signalArcs (g : Graph κ) : Arcs :=
  (g.wires.filter fun w => w.rate == .signal).map fun w => (w.source, w.sink)

/-- A node on a circle of signal wires, if there is one.  A wire from a node to itself is found
first. -/
def signalCycle? (g : Graph κ) : Option Nat :=
  match g.signalArcs.find? fun a => a.1 == a.2 with
  | some a => some a.1
  | none => g.signalArcs.cycleNode? g.size

/-- Point an inlet at what feeds it: the outlet of its signal wire, or a constant that messages may
set. -/
def resolveInlet (g : Graph κ) (node inlet : Nat) (slot : InletSlot) : InletSlot :=
  match slot.rate with
  | .message => slot
  | .signal =>
    match g.signalSource? node inlet with
    | some (source, outlet) => { slot with feed := .aliased source outlet }
    | none =>
      { slot with feed := .constant 0, observers := slot.observers ++ [.setConstant] }

/-- Refuse signal cycles, then point every signal inlet at what feeds it. -/
def setup (g : Graph κ) : Except Error (Graph κ) :=
  match g.signalCycle? with
  | some node => .error (.signalCycle node)
  | none =>
    .ok { g with nodes := g.nodes.mapIdx fun i n =>
      { n with inlets := n.inlets.mapIdx fun inlet slot => g.resolveInlet i inlet slot } }

/-- Set up a graph in place: whether that worked, and the graph from then on. -/
def setupInPlace (g : Graph κ) : Except Error Unit × Graph κ :=
  match g.setup with
  | .error fault => (.error fault, g)
  | .ok resolved => (.ok (), resolved)

end Graph

end Patchbay
