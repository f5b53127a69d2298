import Patchbay.Scope

/-
Arithmetic, comparison and logic on messages: `+`, `-`, `mod`, `==`, `&&` and the rest.

Inlet 1, or the first argument, holds the right operand.  A number on inlet 0 sets
the left operand and sends the result; a list there sets both operands; a bang sends
the result again.  Comparisons give one or zero.
-/

namespace Patchbay

inductive Operator where
  | add
  | sub
  | mul
  | div
  | mod
  | pow
  | eq
  | ne
  | lt
  | gt
  | le
  | ge
  | and
  | or
  deriving DecidableEq

namespace Operator

/-- The operators by name. -/
def all : List (String × Operator) :=
  [("+", .add), ("-", .sub), ("*", .mul), ("/", .div), ("mod", .mod), ("pow", .pow),
   ("==", .eq), ("!=", .ne), ("<", .lt), (">", .gt), ("<=", .le), (">=", .ge),
   ("&&", .and), ("||", .or)]

def truth (b : Bool) : Float32 :=
  if b then 1 else 0

/-- Whole operands of `mod` are held in sixty-four bits. -/
def wholeOperand (x : Float32) : Int :=
  Single.truncateWithin x (-(twoTo 63 : Int)) (twoTo 63 - 1 : Int)

/-- The remainder that is not negative, of the whole parts of two numbers.  A divisor without a
whole part counts as one. -/
def modulus (l r : Float32) : Int :=
  wholeOperand l % (max (wholeOperand r).natAbs 1 : Nat)

def apply (op : Operator) (l r : Float32) : Float32 :=
  match op with
  | .add => l + r
  | .sub => l - r
  | .mul => l * r
  | .div => if r == 0 then 0 else l / r
  | .mod => Single.ofInt (modulus l r)
  | .pow =>
    let v := l.pow r
    if Single.isFinite v then v else 0
  | .eq => truth (l == r)
  | .ne => truth (l != r)
  | .lt => truth (l < r)
  | .gt => truth (r < l)
  | .le => truth (l ≤ r)
  | .ge => truth (r ≤ l)
  | .and => truth (l != 0 && r != 0)
  | .or => truth (l != 0 || r != 0)

end Operator

structure Binop where
  op : Operator
  left : Float32
  right : Float32

namespace Binop

def new (op : Operator) : Binop := ⟨op, 0, 0⟩

def init (scope : InitScope) (s : Binop) : Binop × List Request :=
  ({ s with right := (scope.numberArg? 0).getD 0 }, [])

/-- Send the result. -/
def result (s : Binop) : Binop × List Reaction :=
  (s, [emitOn 0 (.number (s.op.apply s.left s.right))])

def onMessage (scope : MessageScope) (arrival : Arrival) (m : Message) (s : Binop) :
    Binop × List Reaction :=
  match arrival with
  | .inlet 0 =>
    if m.isBang then s.result
    else
      match m.elements with
      | [.number l] => result { s with left := l }
      | .number l :: .number r :: _ => result { s with left := l, right := r }
      | _ => (s, [scope.mismatch "float" m])
  | .inlet 1 => takeNumber scope m s fun r => { s with right := r }
  | _ => (s, [])

end Binop

end Patchbay
