import Patchbay.Number.Binary

/-
Decimal numerals: reading them, and writing a binary number with as few digits as
identify it.

A binary number owns the interval of reals that round to it.  The digits written
for it are those of the shortest decimal in that interval, and of the shortest ones
the nearest to the number.  `shortest` looks for it on the grids of one digit, two
digits, and so on: if any point of a grid lies in the interval then one of the two
points next to the number does, so only those two are tried.  All comparisons are
between natural numbers over one common denominator.

How digits are laid out is a separate matter.  `plainText` never uses an exponent;
`markedText` writes whole numbers with a fraction of zero and changes to an
exponent for very small and very large numbers.
-/

namespace Patchbay

/-- A positive decimal: the digits as one number, times ten to the `exponent`. -/
structure Numeral where
  digits : Nat
  exponent : Int
  deriving DecidableEq

namespace Numeral

/-- Drop zeros at the end of the digits, at most `fuel` of them. -/
def trimWithin : Nat → Numeral → Numeral
  | 0, n => n
  | fuel + 1, n =>
    if n.digits % 10 = 0 then trimWithin fuel ⟨n.digits / 10, n.exponent + 1⟩ else n

/-- The digits as text. -/
def digitText (n : Numeral) : List Char :=
  (toString n.digits).toList

/-- How many digits stand before the decimal point, negative if zeros follow it. -/
def point (n : Numeral) : Int :=
  n.digitText.length + n.exponent

/-- The digits around a decimal point, filled with zeros and without an exponent. -/
def positional (n : Numeral) : List Char :=
  let ds := n.digitText
  let p := n.point
  if p ≤ 0 then '0' :: '.' :: (List.replicate (-p).toNat '0' ++ ds)
  else if ds.length ≤ p.toNat then ds ++ List.replicate (p.toNat - ds.length) '0'
  else ds.take p.toNat ++ '.' :: ds.drop p.toNat

/-- One digit, the others behind a point, and an exponent. -/
def exponential (n : Numeral) : List Char :=
  let tail := match n.digitText with
    | [] => []
    | [d] => [d]
    | d :: ds => d :: '.' :: ds
  tail ++ 'e' :: (toString (n.point - 1)).toList

end Numeral

/-- The interval of reals that round to a number, and the number itself, over one
denominator. -/
structure RoundingInterval where
  low : Nat
  value : Nat
  high : Nat
  denominator : Nat
  /-- Whether the two ends themselves round to the number. -/
  closed : Bool

namespace RoundingInterval

/-- The interval around the positive number with this significand and scale.  Below a power of
two the numbers lie twice as dense, so the interval is shorter there. -/
def around (f : BinaryFormat) (significand : Nat) (scale : Int) : RoundingInterval :=
  let below := if significand = twoTo f.fractionBits ∧ f.lowest < scale then 1 else 2
  let up := twoTo (scale - 2).toNat
  { low := (4 * significand - below) * up
    value := 4 * significand * up
    high := (4 * significand + 2) * up
    denominator := twoTo (2 - scale).toNat
    closed := significand % 2 = 0 }

/-- The least power of ten above the value, searched upwards from `start`. -/
def magnitudeFrom (i : RoundingInterval) : Nat → Int → Int
  | 0, start => start
  | fuel + 1, start =>
    if i.value * tenTo (-start).toNat < i.denominator * tenTo start.toNat then start
    else i.magnitudeFrom fuel (start + 1)

/-- The exponent of the least power of ten above the value.  The search begins just below the
estimate that the binary lengths give. -/
def magnitude (i : RoundingInterval) : Int :=
  let binary : Int := (i.value.log2 : Int) - i.denominator.log2 - 1
  i.magnitudeFrom 5 (binary * 30103 / 100000 - 1)

/-- The decimal with `n` digits that lies in the interval and is nearest to the value, if
there is one.  Of two equally near ones it is the larger. -/
def withDigits (i : RoundingInterval) (n : Nat) : Option Numeral :=
  let exponent := i.magnitude - n
  let unit := i.denominator * tenTo exponent.toNat
  let shift := tenTo (-exponent).toNat
  let value := i.value * shift
  let under := value / unit
  let fits (a b : Nat) : Bool := a < b || (i.closed && a == b)
  let underFits := fits (i.low * shift) (under * unit)
  let overFits := fits ((under + 1) * unit) (i.high * shift)
  let overNearer := (under + 1) * unit - value ≤ value - under * unit
  if overFits && (!underFits || overNearer) then some ⟨under + 1, exponent⟩
  else if underFits then some ⟨under, exponent⟩
  else none

/-- The first of the grids with `n`, `n + 1`, … digits that has a decimal in the interval. -/
def shortestFrom (i : RoundingInterval) : Nat → Nat → Numeral
  | 0, n =>
    ⟨i.value * tenTo (n - i.magnitude).toNat / (i.denominator * tenTo (i.magnitude - n).toNat),
      i.magnitude - n⟩
  | fuel + 1, n =>
    match i.withDigits n with
    | some d => d
    | none => i.shortestFrom fuel (n + 1)

/-- Where a grid has no decimal in the interval, the search goes on. -/
theorem shortestFrom_succ (i : RoundingInterval) (fuel n : Nat) :
    i.shortestFrom (fuel + 1) n = (i.withDigits n).getD (i.shortestFrom fuel (n + 1)) := by
  change (match i.withDigits n with
    | some d => d
    | none => i.shortestFrom fuel (n + 1)) = _
  cases i.withDigits n <;> rfl

end RoundingInterval

/-- The shortest decimal that rounds to a positive number.  Seventeen digits always suffice. -/
def BinaryFormat.shortest (f : BinaryFormat) (significand : Nat) (scale : Int) : Numeral :=
  ((RoundingInterval.around f significand scale).shortestFrom 17 1).trimWithin 17

private def signed (negative : Bool) (text : List Char) : String :=
  String.ofList (if negative then '-' :: text else text)

/-- The text of a number without an exponent: the fewest digits that read back, no point in
whole numbers, and the sign of a zero. -/
def BinaryFormat.plainText (f : BinaryFormat) (v : BinaryValue) : String :=
  match v with
  | .nan => "NaN"
  | .infinite negative => signed negative "inf".toList
  | .finite negative significand scale =>
    if significand = 0 then signed negative ['0']
    else signed negative (f.shortest significand scale).positional

/-- The text of a number that shows it is not a whole count: `.0` ends a whole number, and an
exponent replaces zeros below a ten-thousandth and from ten to the sixteenth on. -/
def BinaryFormat.markedText (f : BinaryFormat) (v : BinaryValue) : String :=
  match v with
  | .nan => "NaN"
  | .infinite negative => signed negative "inf".toList
  | .finite negative significand scale =>
    if significand = 0 then signed negative "0.0".toList
    else
      let n := f.shortest significand scale
      if -4 < n.point ∧ n.point ≤ 16 then
        signed negative (if n.exponent < 0 then n.positional else n.positional ++ ".0".toList)
      else signed negative n.exponential

/-! ### Reading -/

/-- What a token says when it is read as a number. -/
inductive NumberToken where
  | nan
  | infinite (negative : Bool)
  | decimal (negative : Bool) (digits : Nat) (exponent : Int)
  deriving DecidableEq

/-- The number that a run of digits writes. -/
def digitsValue (ds : List Char) : Nat :=
  ds.foldl (fun n d => n * 10 + (d.toNat - '0'.toNat)) 0

/-- Split off one leading sign; the flag is set for a minus. -/
def readSign : List Char → Bool × List Char
  | '+' :: rest => (false, rest)
  | '-' :: rest => (true, rest)
  | cs => (false, cs)

/-- The exponent that ends a numeral: nothing at all, or a letter, a sign and digits. -/
def readExponent : List Char → Option Int
  | [] => some 0
  | c :: cs =>
    if c = 'e' ∨ c = 'E' then
      let (negative, ds) := readSign cs
      if ds ≠ [] ∧ ds.all Char.isDigit then
        some (if negative then -(digitsValue ds : Int) else digitsValue ds)
      else none
    else none

/-- Digits with at most one point among or around them, and an exponent. -/
def readDecimal (cs : List Char) : Option (Nat × Int) :=
  let whole := cs.takeWhile Char.isDigit
  let afterWhole := cs.dropWhile Char.isDigit
  let (fraction, rest) := match afterWhole with
    | '.' :: more => (more.takeWhile Char.isDigit, more.dropWhile Char.isDigit)
    | _ => ([], afterWhole)
  if whole.isEmpty ∧ fraction.isEmpty then none
  else (readExponent rest).map fun e => (digitsValue (whole ++ fraction), e - fraction.length)

/-- Read a token as a number: an optional sign, then a decimal or one of the words for what is
not finite, in any case of letters. -/
def NumberToken.read? (token : List Char) : Option NumberToken :=
  let (negative, body) := readSign token
  match readDecimal body with
  | some (digits, exponent) => some (.decimal negative digits exponent)
  | none =>
    let word := body.map Char.toLower
    if word = "nan".toList then some .nan
    else if word = "inf".toList ∨ word = "infinity".toList then some (.infinite negative)
    else none

/-- Exponents beyond this size decide the result by themselves in every format in use. -/
private def farExponent : Int := 400

/-- The magnitude bits of the number nearest to `digits * 10 ^ exponent`.  A decimal that is
far out of range is replaced by one just as far out, so that no huge power is formed. -/
def BinaryFormat.encodeDecimal (f : BinaryFormat) (digits : Nat) (exponent : Int) : Nat :=
  if digits = 0 then 0
  else
    let length : Int := (toString digits).length
    if farExponent < length + exponent then f.infinityBits
    else if length + exponent < -farExponent then 0
    else f.encodeRatio (digits * tenTo exponent.toNat) (tenTo (-exponent).toNat)

/-- The bit pattern of the number that a token writes. -/
def BinaryFormat.encodeToken (f : BinaryFormat) : NumberToken → Nat
  | .nan => f.infinityBits + twoTo (f.fractionBits - 1)
  | .infinite negative => f.infinityBits + (if negative then f.signBit else 0)
  | .decimal negative digits exponent =>
    f.encodeDecimal digits exponent + (if negative then f.signBit else 0)

end Patchbay
