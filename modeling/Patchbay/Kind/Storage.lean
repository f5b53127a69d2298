import Patchbay.Random
import Patchbay.Scope

/-
Stored values: `float`, `int`, `tgl` and `random`.

The program draws the first generator of a random box from entropy.  Here it is the one with seed
zero, and any other would do: nothing that is proved depends on which one it is.  Where two engines
are compared, boxes that nobody has seeded start with the same one in both, which in the program
they do only by chance.
-/

namespace Patchbay

/-- Keeps a number and sends it on a bang.  The whole-number variant drops fractions. -/
structure FloatBox where
  value : Float32
  whole : Bool

namespace FloatBox

def float : FloatBox := ⟨0, false⟩

def int : FloatBox := ⟨0, true⟩

def store (s : FloatBox) (x : Float32) : FloatBox :=
  { s with value := if s.whole then Single.truncate x else x }

def init (scope : InitScope) (s : FloatBox) : FloatBox × List Request :=
  (s.store ((scope.numberArg? 0).getD 0), [])

/-- Send the stored number. -/
def result (s : FloatBox) : FloatBox × List Reaction :=
  (s, [emitOn 0 (.number s.value)])

def onMessage (scope : MessageScope) (arrival : Arrival) (m : Message) (s : FloatBox) :
    FloatBox × List Reaction :=
  match arrival with
  | .inlet 0 =>
    match m.leadingNumber? with
    | some x => (s.store x).result
    | none => if m.isBang then s.result else (s, [scope.mismatch "float" m])
  | .inlet 1 => takeNumber scope m s s.store
  | _ => (s, [])

end FloatBox

/-- A switch: a bang turns it over, a number sets it. -/
structure Toggle where
  on : Bool

namespace Toggle

def new : Toggle := ⟨false⟩

def set (on : Bool) : Toggle × List Reaction :=
  (⟨on⟩, [emitOn 0 (.number (if on then 1 else 0))])

def onMessage (scope : MessageScope) (arrival : Arrival) (m : Message) (s : Toggle) :
    Toggle × List Reaction :=
  match arrival with
  | .inlet 0 =>
    if m.isBang then set (!s.on)
    else
      match m.leadingNumber? with
      | some x => set (x != 0)
      | none => (s, [scope.mismatch "float" m])
  | _ => (s, [])

end Toggle

/-- Sends whole numbers below a range, in an order that its seed fixes. -/
structure RandomBox where
  range : Float32
  generator : Random.Generator

namespace RandomBox

def seeded (seed : Nat) : RandomBox :=
  ⟨1, .seeded (UInt64.ofNat seed)⟩

/-- A box that nobody has seeded, with a generator that stands for any. -/
def new : RandomBox := seeded 0

def init (scope : InitScope) (s : RandomBox) : RandomBox × List Request :=
  ({ s with range := (scope.numberArg? 0).getD s.range }, [])

/-- Seeds are whole numbers of sixty-four bits. -/
def seedOf (x : Float32) : Nat :=
  Single.toCount x

/-- Draw the next number. -/
def draw (s : RandomBox) : Float32 × RandomBox :=
  let range := (Single.greater s.range 1).floor
  let (unit, generator) := s.generator.nextUnit
  (Single.lesser (unit * range).floor (range - 1), { s with generator })

def onMessage (scope : MessageScope) (arrival : Arrival) (m : Message) (s : RandomBox) :
    RandomBox × List Reaction :=
  match arrival with
  | .inlet 0 =>
    match m.atoms with
    | [.symbol "seed", .number seed] =>
      ({ s with generator := .seeded (UInt64.ofNat (seedOf seed)) }, [])
    | _ =>
      let (x, s) := s.draw
      (s, [emitOn 0 (.number x)])
  | .inlet 1 => takeNumber scope m s fun x => { s with range := x }
  | _ => (s, [])

end RandomBox

end Patchbay
