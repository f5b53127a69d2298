import Mathlib
import Patchbay.Number.Single
import Patchbay.Proofs.Rounding
import Patchbay.Proofs.Times

/-
What machine numbers stand for.

The library takes a number apart by its bits, the machine compares numbers that it has unpacked.
Both read the same fields, of whatever widths, and `decode_toNat` says that they read the same
there.  So every number stands somewhere among the rationals and two infinities, and what is not
a number stands nowhere.

The machine compares exponents first and mantissas after them.  That this is the order of what
the numbers stand for takes one fact: a mantissa is full unless its exponent is the least, so a
larger exponent is a larger number, whatever the mantissas are.
-/

namespace Patchbay

open Float.Model

/-- A number from its sign and its size. -/
def withSign (negative : Bool) (size : ℚ) : ℚ :=
  if negative then -size else size

/-- Where a number stands, if it is one. -/
def BinaryValue.extent : BinaryValue → Option (WithBotTop ℚ)
  | .nan => none
  | .infinite true => some ⊥
  | .infinite false => some ⊤
  | .finite negative significand scale =>
    some (withSign negative (significand * 2 ^ scale) : ℚ)

namespace BinaryFormat

/-! ### What is unpacked -/

/-- The widths of a format of the machine. -/
def ofFormat (spec : Format) : BinaryFormat :=
  ⟨spec.mantissaBitsWithoutImplicit, spec.exponentBits⟩

def isNegative : UnpackedFloat.Sign → Bool
  | .negative => true
  | .positive => false

/-- What an unpacked number stands for. -/
def valueOf (f : BinaryFormat) : UnpackedFloat → BinaryValue
  | .notANumber => .nan
  | .infinity sign => .infinite (isNegative sign)
  | .zero sign => .finite (isNegative sign) 0 f.lowest
  | .finite sign mantissa exponent _ => .finite (isNegative sign) mantissa exponent

variable {spec : Format} (b : BitVec spec.numBits)

theorem toNat_unpackMantissa : (UnpackedFloat.unpackMantissa b).toNat =
    b.toNat % (ofFormat spec).signBit % twoTo (ofFormat spec).fractionBits := by
  rw [UnpackedFloat.unpackMantissa_def, BitVec.extractLsb'_toNat, Nat.shiftRight_zero, signBit_eq,
    Nat.mod_mul_left_mod]
  rfl

theorem toNat_unpackExponent : (UnpackedFloat.unpackExponent b).toNat =
    b.toNat % (ofFormat spec).signBit / twoTo (ofFormat spec).fractionBits := by
  rw [UnpackedFloat.unpackExponent_def, BitVec.extractLsb'_toNat, Nat.shiftRight_eq_div_pow,
    signBit_eq, Nat.mod_mul_left_div_self]
  rfl

theorem toNat_lt_signBit : b.toNat < 2 * (ofFormat spec).signBit := by
  have hWidth : 2 ^ spec.numBits = 2 * (ofFormat spec).signBit := by
    have hPower : 2 ^ spec.numBits = 2 ^ (spec.mantissaBitsWithoutImplicit + spec.exponentBits + 1) :=
      congrArg (2 ^ ·) (by unfold Format.numBits; omega)
    rw [hPower, Nat.pow_succ']
    rfl
  exact hWidth ▸ b.isLt

theorem isNegative_unpackSign : isNegative (.ofBitVec (UnpackedFloat.unpackSign b)) =
    decide ((ofFormat spec).signBit ≤ b.toNat) := by
  have hPos : 0 < (ofFormat spec).signBit := twoTo_pos _
  have hSign : (UnpackedFloat.unpackSign b).toNat = b.toNat / (ofFormat spec).signBit := by
    rw [UnpackedFloat.unpackSign_def, BitVec.extractLsb'_toNat, Nat.shiftRight_eq_div_pow]
    exact Nat.mod_eq_of_lt (Nat.div_lt_of_lt_mul (Nat.mul_comm 2 _ ▸ toNat_lt_signBit b))
  by_cases hNegative : (ofFormat spec).signBit ≤ b.toNat
  · have hOne : UnpackedFloat.unpackSign b ≠ 0#1 := fun hZero => by
      rw [hZero] at hSign
      exact (Nat.div_pos hNegative hPos).ne hSign
    rw [UnpackedFloat.Sign.ofBitVec, if_neg hOne, decide_eq_true hNegative]
    rfl
  · have hZero : UnpackedFloat.unpackSign b = 0#1 :=
      BitVec.eq_of_toNat_eq (hSign.trans (Nat.div_eq_of_lt (Nat.lt_of_not_le hNegative)))
    rw [UnpackedFloat.Sign.ofBitVec, if_pos hZero, decide_eq_false hNegative]
    rfl

/-- **Bits say the same when they are taken apart and when they are unpacked.** -/
theorem decode_toNat : (ofFormat spec).decode b.toNat =
    (ofFormat spec).valueOf (UnpackedFloat.unpack spec b) := by
  have hLast : (UnpackedFloat.unpackExponent b).toNat = twoTo (ofFormat spec).exponentBits - 1 ↔
      UnpackedFloat.unpackExponent b = -1#_ := by
    rw [← BitVec.toNat_inj, BitVec.neg_one_eq_allOnes, BitVec.toNat_allOnes]
    rfl
  have hFirst : (UnpackedFloat.unpackExponent b).toNat = 0 ↔
      UnpackedFloat.unpackExponent b = 0#_ := by
    rw [← BitVec.toNat_inj, BitVec.toNat_ofNat, Nat.zero_mod]
  have hEmpty : (UnpackedFloat.unpackMantissa b).toNat = 0 ↔
      UnpackedFloat.unpackMantissa b = 0#_ := by
    rw [← BitVec.toNat_inj, BitVec.toNat_ofNat, Nat.zero_mod]
  have hLowest : (ofFormat spec).lowest =
      1 - (spec.exponentBias + spec.mantissaBitsWithoutImplicit : Int) := by
    have hPos : 0 < twoTo (spec.exponentBits - 1) := twoTo_pos _
    have hBias : spec.exponentBias = twoTo (spec.exponentBits - 1) - 1 := rfl
    rw [lowest, hBias]
    change (2 : Int) - twoTo (spec.exponentBits - 1) - spec.mantissaBitsWithoutImplicit = _
    omega
  unfold decode UnpackedFloat.unpack
  simp only [← toNat_unpackMantissa, ← toNat_unpackExponent, ← isNegative_unpackSign, hLast,
    hFirst, hEmpty]
  split
  · split <;> rfl
  · split
    · split
      · rename_i hZero
        rw [valueOf, hEmpty.mpr hZero]
      · rename_i hLeast _
        rw [valueOf, hLowest, hFirst.mpr hLeast]
        congr 1
        omega
    · have hFull : (1#1 ++ UnpackedFloat.unpackMantissa b).toNat =
          (UnpackedFloat.unpackMantissa b).toNat + twoTo (ofFormat spec).fractionBits := by
        rw [BitVec.toNat_append, ← Nat.shiftLeft_add_eq_or_of_lt (BitVec.isLt _), Nat.shiftLeft_eq,
          Nat.add_comm]
        exact congrArg (_ + ·) (Nat.one_mul _)
      rw [valueOf, hFull, hLowest]
      congr 1
      omega

/-! ### Order -/

variable {f : BinaryFormat} {m m' : Nat} {e e' : Int}

/-- A full mantissa reaches the next power of two, and no mantissa passes it. -/
theorem Regular.lt_of_scale_lt (h : f.Regular m e) (h' : f.Regular m' e') (hLt : e < e') :
    (m : ℚ) * 2 ^ e < m' * 2 ^ e' := by
  have hShort : (m : ℚ) < 2 * 2 ^ f.fractionBits := by
    rw [← cast_twoTo, ← cast_twoTo_succ]
    exact_mod_cast h.lt
  have hFull : (2 : ℚ) ^ f.fractionBits ≤ m' := by
    rw [← cast_twoTo]
    exact_mod_cast h'.full.resolve_left (h.lowest.trans_lt hLt).ne'
  calc (m : ℚ) * 2 ^ e < 2 * 2 ^ f.fractionBits * 2 ^ e := by gcongr
    _ = 2 ^ f.fractionBits * 2 ^ (e + 1) := by rw [zpow_add_one₀ two_ne_zero]; ring
    _ ≤ 2 ^ f.fractionBits * 2 ^ e' := by gcongr <;> [norm_num; omega]
    _ ≤ m' * 2 ^ e' := by gcongr

/-- Exponents first and mantissas after them is the order of the numbers. -/
theorem Regular.lex_lt_iff (h : f.Regular m e) (h' : f.Regular m' e') :
    (e < e' ∨ e = e' ∧ m < m') ↔ (m : ℚ) * 2 ^ e < m' * 2 ^ e' := by
  rcases lt_trichotomy e e' with hLt | rfl | hGt
  · exact iff_of_true (.inl hLt) (h.lt_of_scale_lt h' hLt)
  · have hPower : (0 : ℚ) < 2 ^ e := zpow_pos two_pos e
    simp [mul_lt_mul_iff_left₀ hPower]
  · exact iff_of_false (by omega) (h'.lt_of_scale_lt h hGt).not_gt

/-- A finite number whose mantissa is full or whose exponent is the least. -/
def Canonical (f : BinaryFormat) (u : UnpackedFloat) : Prop :=
  ∀ sign mantissa exponent hPos, u = .finite sign mantissa exponent hPos →
    f.Regular mantissa exponent

theorem canonical_unpack : (ofFormat spec).Canonical (UnpackedFloat.unpack spec b) := by
  intro sign mantissa exponent hPos hUnpack
  have hDecode := decode_toNat b
  rw [hUnpack, valueOf] at hDecode
  exact (regular_of_decode (toNat_lt_signBit b) hDecode).1

/-- **The order of unpacked numbers is the order of what they stand for.** -/
theorem placeOf_lt_iff {u v : UnpackedFloat} (hu : f.Canonical u) (hv : f.Canonical v)
    {p q : WithBotTop ℚ} (hp : (f.valueOf u).extent = some p) (hq : (f.valueOf v).extent = some q) :
    Time.placeOf u < Time.placeOf v ↔ p < q := by
  have hSize : ∀ {m : Nat} (e : Int), 0 < m → (0 : ℚ) < m * 2 ^ e := fun e hPos => by positivity
  have hApart : ∀ {m m' : Nat} (e e' : Int), 0 < m → -((m : ℚ) * 2 ^ e) < m' * 2 ^ e' :=
    fun e e' hPos => (neg_lt_zero.mpr (hSize e hPos)).trans_le (by positivity)
  rcases u with ⟨_ | _⟩ | _ | ⟨_ | _⟩ | ⟨_ | _, m, e, hPos⟩ <;>
    simp [valueOf, isNegative, BinaryValue.extent, withSign] at hp <;>
    rcases v with ⟨_ | _⟩ | _ | ⟨_ | _⟩ | ⟨_ | _, m', e', hPos'⟩ <;>
    simp [valueOf, isNegative, BinaryValue.extent, withSign] at hq <;>
    subst hp <;> subst hq <;>
    simp [Time.placeOf, Prod.Lex.toLex_lt_toLex, bot_lt_iff_ne_bot, lt_top_iff_ne_top,
      (hSize _ _).le, (hApart _ _ _).le, *]
  -- Numbers of the same sign are left.
  case finite.negative.finite.negative =>
    rw [eq_comm]
    exact (hv _ _ _ _ rfl).lex_lt_iff (hu _ _ _ _ rfl)
  case finite.positive.finite.positive => exact (hu _ _ _ _ rfl).lex_lt_iff (hv _ _ _ _ rfl)

theorem placeOf_le_iff {u v : UnpackedFloat} (hu : f.Canonical u) (hv : f.Canonical v)
    {p q : WithBotTop ℚ} (hp : (f.valueOf u).extent = some p) (hq : (f.valueOf v).extent = some q) :
    Time.placeOf u ≤ Time.placeOf v ↔ p ≤ q := by
  rw [← not_lt, ← not_lt, placeOf_lt_iff hv hu hq hp]

theorem extent_valueOf_eq_none_iff {u : UnpackedFloat} :
    (f.valueOf u).extent = none ↔ u.isNaN = true := by
  rcases u with ⟨_ | _⟩ | _ | _ | _ <;>
    simp [valueOf, isNegative, BinaryValue.extent, UnpackedFloat.isNaN]

theorem isNaN_of_extent_valueOf {u : UnpackedFloat} {p : WithBotTop ℚ}
    (h : (f.valueOf u).extent = some p) : u.isNaN = false := by
  rw [Bool.eq_false_iff, Ne, ← extent_valueOf_eq_none_iff, h]
  exact Option.some_ne_none p

end BinaryFormat

/-! ### The two widths -/

namespace Single

variable {x y : Float32} {p q : WithBotTop ℚ}

/-- The bits of a number that is finite. -/
theorem bits_of_value {negative : Bool} {significand : Nat} {scale : Int}
    (h : value x = .finite negative significand scale) :
    BinaryFormat.single.Regular significand scale ∧
      x = ofPattern (BinaryFormat.single.pattern significand scale +
        if negative then BinaryFormat.single.signBit else 0) := by
  have hBits : x.toBits.toNat < 2 * BinaryFormat.single.signBit := x.toBits.toNat_lt
  obtain ⟨hRegular, hPattern⟩ := BinaryFormat.regular_of_decode hBits h
  refine ⟨hRegular, ?_⟩
  rw [← hPattern, ofPattern, UInt32.ofNat_toNat, Float32.ofBits_toBits]

/-- A bit pattern that is that of a finite number stays as it is. -/
theorem toBits_ofBits {bits : UInt32} (h : bits.toNat % 2 ^ 31 < 255 * 2 ^ 23) :
    (Float32.ofBits bits).toBits = bits := by
  have hNumber : @UnpackedFloat.isNaNBits .binary32 bits.toBitVec = false := by
    rw [UnpackedFloat.isNaNBits, decide_eq_false_iff_not]
    rintro ⟨hExponent, -⟩
    have hField := congrArg BitVec.toNat hExponent
    rw [UnpackedFloat.unpackExponent_def, BitVec.extractLsb'_toNat,
      Nat.shiftRight_eq_div_pow] at hField
    change bits.toNat / 2 ^ 23 % 2 ^ 8 = 255 at hField
    omega
  have hPack := @UnpackedFloat.pack_unpack .binary32 bits.toBitVec (by decide)
  rw [hNumber, if_neg Bool.false_ne_true] at hPack
  exact UInt32.toBitVec_inj.mp hPack

/-- The number with the bits of a finite number is that number. -/
theorem value_ofPattern {significand : Nat} {scale : Int}
    (h : BinaryFormat.single.Regular significand scale) (negative : Bool) :
    value (ofPattern (BinaryFormat.single.pattern significand scale +
      if negative then BinaryFormat.single.signBit else 0)) =
        .finite negative significand scale := by
  have hFinite : BinaryFormat.single.pattern significand scale < 2139095040 := h.finite
  have hSign : BinaryFormat.single.signBit = 2147483648 := by decide
  have hDecode := BinaryFormat.decode_pattern h negative
  generalize hBits : BinaryFormat.single.pattern significand scale +
    (if negative then BinaryFormat.single.signBit else 0) = bits at *
  have hRange : bits < 2 ^ 32 ∧ bits % 2 ^ 31 < 255 * 2 ^ 23 := by
    rw [← hBits, hSign]
    cases negative <;> simp <;> omega
  have hNat : (UInt32.ofNat bits).toNat = bits := UInt32.toNat_ofNat_of_lt' hRange.1
  rw [value, ofPattern, toBits_ofBits (hNat.symm ▸ hRange.2), hNat, hDecode]


theorem value_eq (x : Float32) : value x = BinaryFormat.single.valueOf x.toModel.unpack :=
  @BinaryFormat.decode_toNat .binary32 x.toBits.toBitVec

theorem extent_eq_none_iff : (value x).extent = none ↔ x.isNaN = true := by
  rw [value_eq]
  exact BinaryFormat.extent_valueOf_eq_none_iff

theorem isNaN_of_extent (h : (value x).extent = some p) : x.isNaN = false :=
  BinaryFormat.isNaN_of_extent_valueOf (value_eq x ▸ h)

theorem lt_iff_placeOf : x < y ↔ x.isNaN = false ∧ y.isNaN = false ∧
    Time.placeOf x.toModel.unpack < Time.placeOf y.toModel.unpack := by
  refine Iff.trans ?_ (Time.compare_eq_lt_iff x.toModel.unpack y.toModel.unpack)
  change decide (UnpackedFloat.lt _ _ = true) = true ↔ _
  simp [UnpackedFloat.lt]

/-- **Numbers are compared as what they stand for.** -/
theorem lt_iff (hp : (value x).extent = some p) (hq : (value y).extent = some q) :
    x < y ↔ p < q := by
  rw [lt_iff_placeOf, isNaN_of_extent hp, isNaN_of_extent hq]
  rw [value_eq] at hp hq
  simp only [true_and]
  exact BinaryFormat.placeOf_lt_iff (@BinaryFormat.canonical_unpack .binary32 _)
    (@BinaryFormat.canonical_unpack .binary32 _) hp hq

theorem le_iff (hp : (value x).extent = some p) (hq : (value y).extent = some q) :
    x ≤ y ↔ p ≤ q := by
  have hPlace : x ≤ y ↔ x.isNaN = false ∧ y.isNaN = false ∧
      Time.placeOf x.toModel.unpack ≤ Time.placeOf y.toModel.unpack := by
    refine Iff.trans ?_ (Time.le_eq_true_iff x.toModel.unpack y.toModel.unpack)
    change decide (UnpackedFloat.le _ _ = true) = true ↔ _
    rw [decide_eq_true_iff]
  rw [hPlace, isNaN_of_extent hp, isNaN_of_extent hq]
  rw [value_eq] at hp hq
  simp only [true_and]
  exact BinaryFormat.placeOf_le_iff (@BinaryFormat.canonical_unpack .binary32 _)
    (@BinaryFormat.canonical_unpack .binary32 _) hp hq

end Single

namespace Double

variable {x y : Float} {p q : WithBotTop ℚ}

theorem value_eq (x : Float) : value x = BinaryFormat.double.valueOf x.toModel.unpack :=
  @BinaryFormat.decode_toNat .binary64 x.toBits.toBitVec

theorem isNaN_of_extent (h : (value x).extent = some p) : x.isNaN = false :=
  BinaryFormat.isNaN_of_extent_valueOf (value_eq x ▸ h)

/-- Numbers are compared as what they stand for. -/
theorem le_iff (hp : (value x).extent = some p) (hq : (value y).extent = some q) :
    x ≤ y ↔ p ≤ q := by
  rw [Time.le_iff, isNaN_of_extent hp, isNaN_of_extent hq]
  rw [value_eq] at hp hq
  simp only [true_and]
  exact BinaryFormat.placeOf_le_iff (@BinaryFormat.canonical_unpack .binary64 _)
    (@BinaryFormat.canonical_unpack .binary64 _) hp hq

end Double

end Patchbay
