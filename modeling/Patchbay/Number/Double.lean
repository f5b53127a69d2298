import Patchbay.Number.Decimal

/-
Double-precision numbers: times in seconds, and the phases and lengths that signal
kinds accumulate between frames.
-/

namespace Patchbay.Double

/-- The exact value of a number. -/
def value (x : Float) : BinaryValue :=
  BinaryFormat.double.decode x.toBits.toNat

/-- The fewest digits that read back, without an exponent. -/
def text (x : Float) : String :=
  BinaryFormat.double.plainText (value x)

/-- The fewest digits that read back, marked as a number that may have a fraction. -/
def markedText (x : Float) : String :=
  BinaryFormat.double.markedText (value x)

/-- Read a token as a number, infinities and `nan` included. -/
def read? (token : List Char) : Option Float :=
  (NumberToken.read? token).map fun t =>
    Float.ofBits (UInt64.ofNat (BinaryFormat.double.encodeToken t))

/-- Whether a number is at most a whole number, compared exactly. -/
def atMost (x : Float) (n : Int) : Bool :=
  (value x).atMost n

/-- The number without its whole part.  A zero keeps the sign of the number. -/
def fraction (x : Float) : Float :=
  let rest := x - (if x < 0 then x.ceil else x.floor)
  if rest == 0 then x * 0 else rest

/-- The number wrapped into the unit interval from zero on. -/
def wrapUnit (x : Float) : Float :=
  let rest := fraction x
  if rest < 0 then rest + 1 else rest

end Patchbay.Double
