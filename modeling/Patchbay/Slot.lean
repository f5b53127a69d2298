/-
Inlets and outlets.

Every slot runs at one of two rates.  A signal slot carries a buffer of samples that
is computed anew each frame; a message slot carries messages as they are sent.  What
a signal inlet reads during a frame is either the buffer of the outlet that feeds it
or one constant.
-/

namespace Patchbay

inductive Rate where
  | signal
  | message
  deriving DecidableEq, Inhabited

def Rate.name : Rate → String
  | .signal => "Signal"
  | .message => "Message"

/-- Where a message arrives: at an inlet, or at the box itself, sent from outside by name. -/
inductive Arrival where
  | inlet (index : Nat)
  | external
  deriving DecidableEq

/-- How many inlets a box has and the rates of its outlets. -/
structure Layout where
  inlets : Nat
  outlets : List Rate
  deriving DecidableEq, Inhabited

/-- What feeds a signal inlet. -/
inductive Feed where
  /-- Nothing yet, or a message inlet; reads as silence. -/
  | unresolved
  /-- The buffer of an outlet. -/
  | aliased (node outlet : Nat)
  /-- One value for the whole frame. -/
  | constant (value : Float32)
  deriving Inhabited

/-- What happens to a message at an inlet before the box itself sees it. -/
inductive Observer where
  /-- A leading number becomes the inlet's constant. -/
  | setConstant
  deriving DecidableEq

structure InletSlot where
  rate : Rate
  feed : Feed
  observers : List Observer
  deriving Inhabited

/-- An inlet that nothing feeds yet. -/
def InletSlot.fresh (rate : Rate) : InletSlot :=
  ⟨rate, .unresolved, []⟩

/-- Whether the inlet holds a constant, which may then be replaced. -/
def InletSlot.holdsConstant (s : InletSlot) : Bool :=
  match s.feed with
  | .constant _ => true
  | _ => false

/-- Replace the constant of an inlet that holds one. -/
def InletSlot.setConstant (s : InletSlot) (value : Float32) : InletSlot :=
  match s.feed with
  | .constant _ => { s with feed := .constant value }
  | _ => s

/-! ### What a box reads during a frame -/

/-- The samples at an inlet for one frame. -/
inductive Input where
  /-- The same sample throughout. -/
  | constant (value : Float32)
  /-- The buffer of another box's outlet, which is not empty. -/
  | signal (samples : Array Float32)

namespace Input

def silent : Input := .constant 0

instance : Inhabited Input := ⟨silent⟩

/-- A buffer as an input.  An empty buffer reads as silence. -/
def ofBuffer (samples : Array Float32) : Input :=
  if samples.isEmpty then silent else .signal samples

/-- The sample at a position of the frame; buffers repeat. -/
def sample (x : Input) (i : Nat) : Float32 :=
  match x with
  | .constant v => v
  | .signal samples => samples.getD (i % samples.size) 0

def isSignal : Input → Bool
  | .constant _ => false
  | .signal _ => true

end Input

/-- Produce `n` samples one after the other, handing a state from each to the next. -/
def renderBlock {σ : Type} (n : Nat) (step : Nat → σ → Float32 × σ) (start : σ) :
    Array Float32 × σ :=
  n.fold (fun i _ (samples, s) =>
    let (x, s) := step i s
    (samples.push x, s)) (#[], start)

/-- The same without a state. -/
def renderPlain (n : Nat) (sample : Nat → Float32) : Array Float32 :=
  (renderBlock n (fun i (_ : Unit) => (sample i, ())) ()).1

@[simp] theorem size_renderBlock {σ : Type} (n : Nat) (step : Nat → σ → Float32 × σ) (start : σ) :
    (renderBlock n step start).1.size = n := by
  unfold renderBlock
  induction n with
  | zero => rfl
  | succ n ih => simp [Nat.fold_succ, ih]

@[simp] theorem size_renderPlain (n : Nat) (sample : Nat → Float32) :
    (renderPlain n sample).size = n :=
  size_renderBlock n _ ()

/-- Without a state, every sample of a block depends on its position alone. -/
theorem getElem?_renderPlain (n : Nat) (sample : Nat → Float32) (i : Nat) :
    (renderPlain n sample)[i]? = if i < n then some (sample i) else none := by
  induction n with
  | zero => rfl
  | succ n ih =>
    have hPush : renderPlain (n + 1) sample = (renderPlain n sample).push (sample n) := by
      simp [renderPlain, renderBlock, Nat.fold_succ]
    rw [hPush, Array.getElem?_push, size_renderPlain, ih]
    by_cases h : i = n
    · subst h
      simp
    · by_cases hi : i < n
      · simp [h, hi, Nat.lt_succ_of_lt hi]
      · have hOut : ¬ i < n + 1 := by omega
        simp [h, hi, hOut]

end Patchbay
