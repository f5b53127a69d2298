import Patchbay.Number.Power

/-
Binary floating-point numbers, taken apart and put together exactly.

A finite binary number is a whole significand times a power of two, so everything
the library has to know about one — its decimal text, the whole number nearest to
it, whether it lies below a count — is arithmetic on natural numbers.  This file
holds the two directions: `decode` reads a bit pattern as such a number, and
`encodeRatio` finds the bit pattern nearest to a quotient of two naturals.

Both widths in use, single and double precision, are the one record
`BinaryFormat`.  The bit patterns of nonnegative numbers are in the order of the
numbers themselves, which is why `encodeRatio` needs no case for a rounding that
carries into the next power of two, and none for the step from the smallest
numbers to the ordinary ones.
-/

namespace Patchbay

/-- How many bits a binary number spends on its stored fraction and on its exponent. -/
structure BinaryFormat where
  fractionBits : Nat
  exponentBits : Nat

/-- A binary number: a significand times two to the `scale`, or one of the values that are
not finite. -/
inductive BinaryValue where
  | nan
  | infinite (negative : Bool)
  | finite (negative : Bool) (significand : Nat) (scale : Int)
  deriving DecidableEq

/-- The whole number nearest to `n / d`; of two equally near ones, the even one. -/
def roundQuotient (n d : Nat) : Nat :=
  let q := n / d
  let r := n % d
  if 2 * r < d then q
  else if d < 2 * r then q + 1
  else q + q % 2

namespace BinaryFormat

def single : BinaryFormat := ⟨23, 8⟩

def double : BinaryFormat := ⟨52, 11⟩

/-- The scale of the smallest positive number: every finite number is a whole multiple of two
to this power. -/
def lowest (f : BinaryFormat) : Int :=
  2 - twoTo (f.exponentBits - 1) - f.fractionBits

/-- The bit pattern of positive infinity, one above that of the largest finite number. -/
def infinityBits (f : BinaryFormat) : Nat :=
  (twoTo f.exponentBits - 1) * twoTo f.fractionBits

/-- The weight of the sign bit. -/
def signBit (f : BinaryFormat) : Nat :=
  twoTo (f.fractionBits + f.exponentBits)

/-- The number that a bit pattern stands for. -/
def decode (f : BinaryFormat) (bits : Nat) : BinaryValue :=
  let negative := f.signBit ≤ bits
  let magnitude := bits % f.signBit
  let field := magnitude / twoTo f.fractionBits
  let fraction := magnitude % twoTo f.fractionBits
  if field = twoTo f.exponentBits - 1 then
    if fraction = 0 then .infinite negative else .nan
  else if field = 0 then .finite negative fraction f.lowest
  else .finite negative (fraction + twoTo f.fractionBits) (f.lowest + (field - 1))

/-- The scale at which `num / den` has a significand of full width, or the lowest scale if
that one is larger. -/
def scaleOf (f : BinaryFormat) (num den : Nat) : Int :=
  let e : Int := (num.log2 : Int) - den.log2
  let reached := den * twoTo e.toNat ≤ num * twoTo (-e).toNat
  max f.lowest ((if reached then e else e - 1) - f.fractionBits)

/-- The bit pattern of the number nearest to `num / den`, infinity's if that number is too
large. -/
def encodeRatio (f : BinaryFormat) (num den : Nat) : Nat :=
  if num = 0 then 0
  else
    let scale := f.scaleOf num den
    let significand := roundQuotient (num * twoTo (-scale).toNat) (den * twoTo scale.toNat)
    min f.infinityBits ((scale - f.lowest).toNat * twoTo f.fractionBits + significand)

@[simp] theorem encodeRatio_zero (f : BinaryFormat) (den : Nat) : f.encodeRatio 0 den = 0 := by
  simp [encodeRatio]

end BinaryFormat

namespace BinaryValue

/-- The whole part of a number, without its sign and fraction. -/
def wholePart (significand : Nat) (scale : Int) : Nat :=
  significand * twoTo scale.toNat / twoTo (-scale).toNat

/-- The whole number nearest to a nonnegative number; a half goes up. -/
def nearestWhole (significand : Nat) (scale : Int) : Nat :=
  (2 * (significand * twoTo scale.toNat) + twoTo (-scale).toNat) / (2 * twoTo (-scale).toNat)

/-- Whether a number is at most `n`, compared exactly.  No infinity above and no number that
is not one is at most anything. -/
def atMost (v : BinaryValue) (n : Int) : Bool :=
  match v with
  | .nan => false
  | .infinite negative => negative
  | .finite negative significand scale =>
    let size : Int := significand * twoTo scale.toNat
    let bound := n * twoTo (-scale).toNat
    decide ((if negative then -size else size) ≤ bound)

/-- The number without its fraction, held between `low` and `high`; zero for what is not a
number. -/
def truncateWithin (v : BinaryValue) (low high : Int) : Int :=
  match v with
  | .nan => 0
  | .infinite negative => if negative then low else high
  | .finite negative significand scale =>
    let whole : Int := wholePart significand scale
    max low (min high (if negative then -whole else whole))

end BinaryValue

end Patchbay
