import Patchbay.Number.Decimal

/-
Single-precision numbers: the samples of a signal and the numbers in a message.

Arithmetic is the machine's own.  What has to be exact and reasoned about — the
text of a number, reading one, and the passage to and from whole numbers — goes
through the number's bits.
-/

namespace Patchbay.Single

/-- The exact value of a number. -/
def value (x : Float32) : BinaryValue :=
  BinaryFormat.single.decode x.toBits.toNat

/-- The number with this bit pattern. -/
def ofPattern (bits : Nat) : Float32 :=
  Float32.ofBits (UInt32.ofNat bits)

/-- The fewest digits that read back, without an exponent. -/
def text (x : Float32) : String :=
  BinaryFormat.single.plainText (value x)

/-- Read a token as a number, infinities and `nan` included. -/
def read? (token : List Char) : Option Float32 :=
  (NumberToken.read? token).map fun t => ofPattern (BinaryFormat.single.encodeToken t)

/-- Whether a number is neither infinite nor missing. -/
def isFinite (x : Float32) : Bool :=
  match value x with
  | .finite .. => true
  | _ => false

/-- Read a token as a finite number.  Words such as `inf` and numerals that overflow are not
numbers here. -/
def readFinite? (token : List Char) : Option Float32 :=
  (read? token).filter isFinite

/-- The number nearest to a whole one, whose sign is given apart so that a zero has one too. -/
def ofWhole (negative : Bool) (n : Nat) : Float32 :=
  ofPattern (BinaryFormat.single.encodeRatio n 1 +
    if negative then BinaryFormat.single.signBit else 0)

/-- The number nearest to a whole number. -/
def ofInt (n : Int) : Float32 :=
  ofWhole (n < 0) n.natAbs

/-- The whole number nearest to a number.  A half goes away from zero and the sign of a zero is
kept; what is not finite stays as it is. -/
def round (x : Float32) : Float32 :=
  match value x with
  | .finite negative significand scale =>
    ofWhole negative (BinaryValue.nearestWhole significand scale)
  | _ => x

/-- The whole part of a number, held between two bounds. -/
def truncateWithin (x : Float32) (low high : Int) : Int :=
  (value x).truncateWithin low high

/-- The whole part of a number as a count of sixty-four bits. -/
def toCount (x : Float32) : Nat :=
  (truncateWithin x 0 (twoTo 64 - 1 : Int)).toNat

/-- The number without its fraction; the sign of a zero is kept. -/
def truncate (x : Float32) : Float32 :=
  if x < 0 then x.ceil else x.floor

/-- A number held between two others.  What is not a number stays as it is. -/
def clamp (x low high : Float32) : Float32 :=
  let x := if x < low then low else x
  if high < x then high else x

/-- The smaller of two numbers, or the one that is a number. -/
def lesser (a b : Float32) : Float32 :=
  if a.isNaN then b else if b.isNaN then a else if b < a then b else a

/-- The larger of two numbers, or the one that is a number. -/
def greater (a b : Float32) : Float32 :=
  if a.isNaN then b else if b.isNaN then a else if a < b then b else a

end Patchbay.Single
