import Patchbay.Kind.Oscillator

/-
Arithmetic on signals: `+~`, `-~`, `*~`, `/~` and `mtof~`.

The operators work sample by sample; a division by zero gives zero.  The first
argument stands in for the right operand while nothing is connected there.  `mtof~`
turns note numbers into frequencies.
-/

namespace Patchbay

inductive SignalOp where
  | add
  | sub
  | mul
  | div
  deriving DecidableEq

def SignalOp.apply (op : SignalOp) (a b : Float32) : Float32 :=
  match op with
  | .add => a + b
  | .sub => a - b
  | .mul => a * b
  | .div => if b == 0 then 0 else a / b

/-- The signal operators by name. -/
def SignalOp.all : List (String × SignalOp) :=
  [("+~", .add), ("-~", .sub), ("*~", .mul), ("/~", .div)]

structure SignalBinop where
  op : SignalOp

namespace SignalBinop

def init (scope : InitScope) (s : SignalBinop) : SignalBinop × List Request :=
  (s, seedInlet scope 1)

def process (inputs : Array Input) (outputs : Array (Array Float32)) (s : SignalBinop) :
    Processed SignalBinop :=
  match inputs[0]?, inputs[1]? with
  | some a, some b =>
    .buffers s (renderFirstPlain outputs fun i => s.op.apply (a.sample i) (b.sample i))
  | _, _ => .buffers s outputs

end SignalBinop

/-- The frequency of a note number.  Very low notes are silent and very high ones are held. -/
def noteFrequency (note : Float32) : Float32 :=
  if note ≤ -1500 then 0
  else 8.17579891564 * (0.057762265 * Single.lesser note 1499).exp

/-- The buffers of `mtof~`. -/
def noteFrequencies (inputs : Array Input) (outputs : Array (Array Float32)) :
    Array (Array Float32) :=
  match inputs[0]? with
  | some note => renderFirstPlain outputs fun i => noteFrequency (note.sample i)
  | none => outputs

end Patchbay
