import Patchbay.Error
import Patchbay.Number.Power

/-
The directives of a patch, as data.

Objects, message boxes, comments and arrays each become one node of the graph, in
the order in which they stand; the other directives join or fill what was made
before them.
-/

namespace Patchbay

/-- Where a box stands on the canvas. -/
structure Position where
  x : Int
  y : Int
  deriving DecidableEq, Inhabited

/-- Largest table that a patch may declare. -/
def maxTableSize : Nat := twoTo 24

/-- One directive.  Outlets, inlets and nodes are counted from zero. -/
inductive Directive where
  /-- A box of some kind; an empty box has an empty kind. -/
  | object (position : Position) (kind : String) (args : List String)
  | message (position : Position) (text : List String)
  | comment (position : Position) (text : List String)
  /-- Declares a table and opens it for data. -/
  | array (name : String) (size : Nat) (args : List String)
  /-- Closes the open table. -/
  | restore
  | connect (source outlet sink inlet : Nat)
  /-- Writes samples into the open table. -/
  | fill (start : Nat) (values : List Float32)
  | ignored

/-- Whether a directive becomes a node of the graph. -/
def Directive.createsNode : Directive → Bool
  | .object .. | .message .. | .comment .. | .array .. => true
  | _ => false

/-- A directive and the line it starts on, counted from one. -/
structure Statement where
  line : Nat
  directive : Directive

end Patchbay
