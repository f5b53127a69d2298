import Patchbay.Proofs.Exact

/-
Whole numbers as floating point numbers.

A whole number below two to the fifty-third has all its digits in a double, so arithmetic on such
numbers is exact as long as the results are again such numbers.  `form` is the one way in which
such a number is written with a full mantissa; what a conversion or a subtraction computes
has the value of a whole number, and rounding gives its form, whatever mantissa and exponent the
value came with.

Comparing a number with a whole one is then comparing it with what the form stands for.
-/

namespace Patchbay

namespace Whole

open Float.Model Float.Model.UnpackedFloat

/-! ### Full mantissas -/

/-- How far the digits of a number are from being as many as there is room for. -/
def room (k : Nat) : Nat := 52 - k.log2

theorem full_mul_room {k : Nat} (hPos : 0 < k) (hSmall : k < twoTo 53) :
    twoTo 52 ≤ k * 2 ^ room k ∧ k * 2 ^ room k < twoTo 53 :=
  full_mul_two_pow hPos hSmall

/-- Zeros that are shifted out leave no trace. -/
theorem shiftRight_mul_two_pow (d : Nat) : ∀ c : Nat,
    (ExtendedMantissa.mk (c * 2 ^ d) false false) >>> d = ⟨c, false, false⟩ := by
  induction d with
  | zero => intro c; rw [Nat.pow_zero, Nat.mul_one]; rfl
  | succ d ih =>
      intro c
      change ExtendedMantissa.shiftRightOne ((ExtendedMantissa.mk _ false false) >>> d) = _
      rw [Nat.pow_succ', ← Nat.mul_assoc, ih, ExtendedMantissa.shiftRightOne]
      simp

theorem log2_mul_two_pow {c : Nat} (hMin : twoTo 52 ≤ c) (hMax : c < twoTo 53) (d : Nat) :
    (c * 2 ^ d).log2 = 52 + d := by
  have hc : c ≠ 0 := Nat.ne_of_gt (Nat.lt_of_lt_of_le (twoTo_pos 52) hMin)
  refine (Nat.log2_eq_iff (Nat.mul_ne_zero hc (Nat.two_pow_pos d).ne')).mpr ⟨?_, ?_⟩
  · rw [Nat.pow_add]
    exact Nat.mul_le_mul_right _ hMin
  · rw [Nat.add_right_comm, Nat.pow_add]
    exact Nat.mul_lt_mul_of_pos_right hMax (Nat.two_pow_pos d)

theorem shiftToTargetExponent_full {c : Nat} (hMin : twoTo 52 ≤ c) (hMax : c < twoTo 53) (d : Nat)
    {e : Int} (hLow : -1074 ≤ e + d) : shiftToTargetExponent .binary64 (c * 2 ^ d) e .exact =
      (⟨c, false, false⟩, e + d) := by
  have hTarget : Format.binary64.targetExponent (totalExponent (c * 2 ^ d) e) = e + d := by
    rw [totalExponent, log2_mul_two_pow hMin hMax]
    change max ((((52 + d : Nat) : Int) + 1 + e) - 53) (-1074) = _
    omega
  have hShift : (e + d - e).toNat = d := by omega
  unfold shiftToTargetExponent shiftToExponent
  simp only [hTarget, hShift]
  exact Prod.ext (shiftRight_mul_two_pow d c) rfl

/-- **Rounding a full mantissa with zeros behind it drops the zeros.** -/
theorem roundWithAccuracy_full {c : Nat} (hMin : twoTo 52 ≤ c) (hMax : c < twoTo 53) (d : Nat)
    {e : Int} (hLow : -1074 ≤ e + d) (sign : Sign) :
    roundWithAccuracy .binary64 sign (c * 2 ^ d) e .exact =
      .finite sign c (e + d) (Nat.lt_of_lt_of_le (twoTo_pos 52) hMin) := by
  have hc : c ≠ 0 := Nat.ne_of_gt (Nat.lt_of_lt_of_le (twoTo_pos 52) hMin)
  have hAgain := shiftToTargetExponent_full hMin hMax 0 (e := e + d) (by simpa using hLow)
  rw [Nat.pow_zero, Nat.mul_one, Int.natCast_zero, Int.add_zero] at hAgain
  have hRounded : (ExtendedMantissa.mk c false false).roundedMantissa = c := rfl
  unfold roundWithAccuracy
  simp only [shiftToTargetExponent_full hMin hMax d hLow, hRounded, hAgain]
  exact dif_neg hc

/-! ### The form of a whole number -/

/-- A positive number with a full mantissa. -/
def formOf (sign : Sign) (k : Nat) (hPos : 0 < k) : UnpackedFloat :=
  .finite sign (k * 2 ^ room k) (-(room k : Int)) (Nat.mul_pos hPos (Nat.two_pow_pos _))

/-- A whole number with a full mantissa. -/
def form : Int → UnpackedFloat
  | .ofNat 0 => .zero .positive
  | .ofNat (k + 1) => formOf .positive (k + 1) k.succ_pos
  | .negSucc k => formOf .negative (k + 1) k.succ_pos

theorem form_pos {k : Nat} (hPos : 0 < k) : form k = formOf .positive k hPos := by
  obtain ⟨k, rfl⟩ := Nat.exists_eq_add_one_of_ne_zero hPos.ne'
  rfl

theorem form_neg {k : Nat} (hPos : 0 < k) : form (-(k : Int)) = formOf .negative k hPos := by
  obtain ⟨k, rfl⟩ := Nat.exists_eq_add_one_of_ne_zero hPos.ne'
  rfl

theorem neg_form {k : Nat} (hPos : 0 < k) : (form k).neg = form (-(k : Int)) := by
  rw [form_pos hPos, form_neg hPos]
  rfl

/-- **A value is rounded to its form**, however many of its digits are behind the point. -/
theorem round_whole {k : Nat} (hPos : 0 < k) (hSmall : k < twoTo 53) (j : Nat) (sign : Sign) :
    UnpackedFloat.round .binary64 sign (k * 2 ^ j) (-(j : Int)) = formOf sign k hPos := by
  obtain ⟨hMin, hMax⟩ := full_mul_room hPos hSmall
  have hDigits : k.log2 < 53 := (Nat.log2_lt hPos.ne').mpr hSmall
  have hLog : (k * 2 ^ j).log2 = k.log2 + j := by
    refine (Nat.log2_eq_iff (Nat.mul_pos hPos (Nat.two_pow_pos j)).ne').mpr ⟨?_, ?_⟩
    · rw [Nat.pow_add]
      exact Nat.mul_le_mul_right _ (Nat.log2_self_le hPos.ne')
    · rw [Nat.add_right_comm, Nat.pow_add]
      exact Nat.mul_lt_mul_of_pos_right Nat.lt_log2_self (Nat.two_pow_pos j)
  have hTarget : Format.binary64.targetExponent (totalExponent (k * 2 ^ j) (-(j : Int))) =
      -(room k : Int) := by
    rw [totalExponent, hLog]
    change max ((((k.log2 + j : Nat) : Int) + 1 + -(j : Int)) - 53) (-1074) = _
    rw [room]
    omega
  have hShift : (-(j : Int) - -(room k : Int)).toNat = room k - j := by omega
  unfold UnpackedFloat.round decreaseExponent
  simp only [hTarget, hShift, Nat.shiftLeft_eq]
  -- Either the mantissa is made longer until it is full, or it is full with zeros behind it.
  have hSplit : k * 2 ^ j * 2 ^ (room k - j) = k * 2 ^ room k * 2 ^ (j - room k) := by
    rw [Nat.mul_assoc, Nat.mul_assoc, ← Nat.pow_add, ← Nat.pow_add]
    congr 2
    omega
  rw [hSplit, roundWithAccuracy_full hMin hMax _ (by unfold room; omega)]
  unfold formOf
  congr 1
  omega

theorem normalize_whole {n : Int} (hSmall : n.natAbs < twoTo 53) (j : Nat) :
    UnpackedFloat.normalize .binary64 (n * 2 ^ j) (-(j : Int)) .positive = form n := by
  have hDown : (0 : Int) < 2 ^ j := Int.pow_pos (by decide)
  rcases Int.lt_trichotomy n 0 with hNeg | rfl | hPos
  · obtain ⟨k, rfl⟩ : ∃ k : Nat, n = -(k : Int) := ⟨n.natAbs, by omega⟩
    have hk : 0 < k := by omega
    have hSign : compare (-(k : Int) * 2 ^ j) 0 = .lt :=
      compare_lt_iff_lt.mpr (Int.mul_neg_of_neg_of_pos hNeg hDown)
    have hSize : (-(-(k : Int) * 2 ^ j)).toNat = k * 2 ^ j := by
      rw [Int.neg_mul, Int.neg_neg]
      exact_mod_cast Int.toNat_natCast (k * 2 ^ j)
    unfold UnpackedFloat.normalize
    rw [hSign, hSize, form_neg hk]
    exact round_whole hk (by simpa using hSmall) j .negative
  · rw [Int.zero_mul]
    rfl
  · obtain ⟨k, rfl⟩ : ∃ k : Nat, n = (k : Int) := ⟨n.natAbs, by omega⟩
    have hk : 0 < k := by omega
    have hSign : compare ((k : Int) * 2 ^ j) 0 = .gt :=
      compare_gt_iff_gt.mpr (Int.mul_pos hPos hDown)
    have hSize : ((k : Int) * 2 ^ j).toNat = k * 2 ^ j := by
      exact_mod_cast Int.toNat_natCast (k * 2 ^ j)
    unfold UnpackedFloat.normalize
    rw [hSign, hSize, form_pos hk]
    exact round_whole hk (by simpa using hSmall) j .positive

/-! ### Arithmetic -/

/-- Subtracting forms is subtracting whole numbers. -/
theorem sub_form {a b : Nat} (ha : a < twoTo 53) (hb : b < twoTo 53) :
    UnpackedFloat.sub .binary64 (form a) (form b) = form (a - b) := by
  rcases Nat.eq_zero_or_pos a with rfl | hPosA
  · rcases Nat.eq_zero_or_pos b with rfl | hPosB
    · rfl
    · rw [Int.natCast_zero, Int.zero_sub, ← neg_form hPosB, form_pos hPosB]
      rfl
  · rcases Nat.eq_zero_or_pos b with rfl | hPosB
    · rw [Int.natCast_zero, Int.sub_zero, form_pos hPosA]
      rfl
    · have hLess : min (-(room a : Int)) (-(room b : Int)) =
          -((max (room a) (room b) : Nat) : Int) := by
        omega
      have hShift : ∀ r : Nat, (-(r : Int) - -((max (room a) (room b) : Nat) : Int)).toNat =
          max (room a) (room b) - r := by
        intro r
        omega
      have hScaled : ∀ k : Nat, room k ≤ max (room a) (room b) →
          k * 2 ^ room k * 2 ^ (max (room a) (room b) - room k) =
            k * 2 ^ max (room a) (room b) := by
        intro k hk
        rw [Nat.mul_assoc, ← Nat.pow_add, Nat.add_sub_cancel' hk]
      have hDifference : ((a : Int) - b).natAbs < twoTo 53 := by omega
      rw [form_pos hPosA, form_pos hPosB,
        ← normalize_whole hDifference (max (room a) (room b))]
      unfold formOf UnpackedFloat.sub decreaseExponent
      simp only [hLess, hShift, Nat.shiftLeft_eq, hScaled a (Nat.le_max_left _ _),
        hScaled b (Nat.le_max_right _ _), Sign.apply]
      push_cast
      rw [Int.sub_mul]

/-! ### Reading what was computed -/

theorem unpackSign_packComponents {spec : Format} {sign : Sign} {exponent mantissa} :
    unpackSign (packComponents spec sign exponent mantissa) = sign.toBitVec := by
  ext i hi
  obtain rfl : i = 0 := by omega
  simp [unpackSign, packComponents, BitVec.getLsbD_append, BitVec.getElem_append]

/-- A full mantissa and a moderate exponent survive packing. -/
theorem unpack_pack_full {m : Nat} {e : Int} (hPos : 0 < m) (hMin : twoTo 52 ≤ m)
    (hMax : m < twoTo 53) (hLow : -1074 ≤ e) (hHigh : e ≤ 971) (sign : Sign) :
    UnpackedFloat.unpack .binary64 (UnpackedFloat.pack .binary64 (.finite sign m e hPos)) =
      .finite sign m e hPos := by
  have hBiased : (e + Format.binary64.exponentBias + (52 : Nat)).toNat = (e + 1075).toNat := by
    change (e + 1023 + 52).toNat = _
    omega
  have hDigits : m.log2 = 52 := (Nat.log2_eq_iff (by omega)).mpr ⟨hMin, hMax⟩
  have hFits : ¬2 ^ Format.binary64.exponentBits ≤ (e + 1075).toNat + 1 := by
    change ¬2048 ≤ (e + 1075).toNat + 1
    omega
  have hExponent : (BitVec.ofNat 11 (e + 1075).toNat).toNat = (e + 1075).toNat := by
    rw [BitVec.toNat_ofNat]
    change _ % 2048 = _
    omega
  have hPack : UnpackedFloat.pack .binary64 (.finite sign m e hPos) =
      packComponents .binary64 sign (BitVec.ofNat 11 (e + 1075).toNat) (BitVec.ofNat 52 m) := by
    unfold UnpackedFloat.pack
    simp only [hBiased, if_neg hFits]
    rw [if_pos (by rw [hDigits]; rfl)]
  have hNotLast : BitVec.ofNat 11 (e + 1075).toNat ≠ -1#11 := fun hLast => by
    have hSame := congrArg BitVec.toNat hLast
    rw [hExponent] at hSame
    change _ = 2047 at hSame
    omega
  have hNotFirst : BitVec.ofNat 11 (e + 1075).toNat ≠ 0#11 := fun hFirst => by
    have hSame := congrArg BitVec.toNat hFirst
    rw [hExponent] at hSame
    change _ = 0 at hSame
    omega
  have hMantissa : (1#1 ++ BitVec.ofNat 52 m).toNat = m := by
    rw [BitVec.toNat_append, ← Nat.shiftLeft_add_eq_or_of_lt (BitVec.isLt _)]
    change 2 ^ 52 + m % 2 ^ 52 = m
    change 2 ^ 52 ≤ m at hMin
    change m < 2 ^ 53 at hMax
    omega
  rw [hPack]
  unfold UnpackedFloat.unpack
  simp only [unpackExponent_packComponents, unpackMantissa_packComponents,
    unpackSign_packComponents, Sign.ofBitVec_toBitVec, if_neg hNotLast, if_neg hNotFirst,
    hExponent]
  congr 1
  change ((e + 1075).toNat : Int) - (1023 + 52) = e
  omega

theorem unpack_pack_form {n : Int} (hSmall : n.natAbs < twoTo 53) :
    UnpackedFloat.unpack .binary64 (UnpackedFloat.pack .binary64 (form n)) = form n := by
  have hFull : ∀ {k : Nat} (hPos : 0 < k) (sign : Sign), k < twoTo 53 →
      UnpackedFloat.unpack .binary64 (UnpackedFloat.pack .binary64 (formOf sign k hPos)) =
        formOf sign k hPos := by
    intro k hPos sign hk
    obtain ⟨hMin, hMax⟩ := full_mul_room hPos hk
    exact unpack_pack_full _ hMin hMax (by unfold room; omega) (by omega) sign
  rcases n with (_ | k) | k
  · rfl
  · exact hFull k.succ_pos .positive hSmall
  · exact hFull k.succ_pos .negative hSmall

theorem unpack_toFloat (n : UInt64) : n.toFloat.toModel.unpack =
    UnpackedFloat.unpack .binary64 (UnpackedFloat.pack .binary64
      (UnpackedFloat.ofNat .binary64 n.toNat)) := rfl

theorem ofNat_small {k : Nat} (h : k < twoTo 53) : Float.ofNat k =
    k.toUInt64.toFloat * Float.exactlyRepresentablePowersOfTen[0] := by
  unfold Float.ofNat OfScientific.ofScientific instOfScientificFloat
  simp only
  unfold Float.ofScientific
  rw [dif_pos ⟨h, by decide⟩]
  rfl

theorem one : Float.exactlyRepresentablePowersOfTen[0].toModel.unpack =
    .finite .positive (twoTo 52) (-52) (by decide) := by
  rfl

/-- **A whole number is converted to its form.** -/
theorem toModel_ofNat {k : Nat} (hSmall : k < twoTo 53) :
    (Float.ofNat k).toModel = Float.Model.pack (form k) := by
  rcases Nat.eq_zero_or_pos k with rfl | hPos
  · rfl
  have hWord : k.toUInt64.toNat = k :=
    UInt64.toNat_ofNat_of_lt (Nat.lt_trans hSmall (by decide))
  have hConverted : UnpackedFloat.ofNat .binary64 k = form k := by
    have hWhole := normalize_whole (n := k) hSmall 0
    rwa [Int.pow_zero, Int.mul_one] at hWhole
  have hFloat : k.toUInt64.toFloat.toModel.unpack = form k := by
    rw [unpack_toFloat, hWord, hConverted, unpack_pack_form (n := k) hSmall]
  -- The conversion ends with a multiplication by one.
  have hOne : UnpackedFloat.mul .binary64 (form k) (.finite .positive (twoTo 52) (-52) (by decide)) =
      form k := by
    obtain ⟨hMin, hMax⟩ := full_mul_room hPos hSmall
    rw [form_pos hPos]
    have hRounded := roundWithAccuracy_full hMin hMax 52 (e := -(room k : Int) + -52)
      (by unfold room; omega) .positive
    refine hRounded.trans ?_
    unfold formOf
    congr 1
    omega
  rw [ofNat_small hSmall]
  change Float.Model.pack (UnpackedFloat.mul .binary64 k.toUInt64.toFloat.toModel.unpack
    Float.exactlyRepresentablePowersOfTen[0].toModel.unpack) = _
  rw [one, hFloat, hOne]

theorem unpack_ofNat {k : Nat} (hSmall : k < twoTo 53) :
    (Float.ofNat k).toModel.unpack = form k := by
  rw [toModel_ofNat hSmall]
  exact unpack_pack_form (n := k) hSmall

theorem toModel_ofInt {n : Int} (hSmall : n.natAbs < twoTo 53) :
    (Float.ofInt n).toModel = Float.Model.pack (form n) := by
  cases n with
  | ofNat k => exact toModel_ofNat hSmall
  | negSucc k =>
      change Float.Model.pack (Float.ofNat (k + 1)).toModel.unpack.neg = _
      rw [unpack_ofNat (k := k + 1) hSmall, neg_form k.succ_pos]
      rfl

/-- **The difference of two sample counts is exact.** -/
theorem ofNat_sub_ofNat {a b : Nat} (ha : a < twoTo 53) (hb : b < twoTo 53) :
    Float.ofNat a - Float.ofNat b = Float.ofInt (a - b) := by
  have hDifference : ((a : Int) - b).natAbs < twoTo 53 := by omega
  have hModel : (Float.ofNat a - Float.ofNat b).toModel = (Float.ofInt (a - b)).toModel := by
    change Float.Model.pack (UnpackedFloat.sub .binary64 (Float.ofNat a).toModel.unpack
      (Float.ofNat b).toModel.unpack) = _
    rw [unpack_ofNat ha, unpack_ofNat hb, sub_form ha hb, toModel_ofInt hDifference]
  exact congrArg Float.ofModel hModel

/-! ### Comparing with whole numbers -/

theorem extent_form (n : Int) :
    (BinaryFormat.double.valueOf (form n)).extent = some ((n : ℚ) : WithBotTop ℚ) := by
  rcases n with (_ | k) | k
  · simp [form, BinaryFormat.valueOf, BinaryFormat.isNegative, BinaryValue.extent, withSign]
  · simp only [form, formOf, BinaryFormat.valueOf, BinaryFormat.isNegative, BinaryValue.extent,
      withSign, cast_mul_two_pow]
    rfl
  · simp only [form, formOf, BinaryFormat.valueOf, BinaryFormat.isNegative, BinaryValue.extent,
      withSign, cast_mul_two_pow]
    rfl

/-- **A number without a sign is at most a whole one exactly if its value is.** -/
theorem le_ofInt_iff {x : Float} {m : Nat} {e : Int} (h : Double.value x = .finite false m e)
    {n : Int} (hSmall : n.natAbs < twoTo 53) : x ≤ Float.ofInt n ↔ (m : ℚ) * 2 ^ e ≤ n := by
  have hWhole : (Double.value (Float.ofInt n)).extent = some ((n : ℚ) : WithBotTop ℚ) := by
    rw [Double.value_eq, toModel_ofInt hSmall, ← extent_form n]
    exact congrArg (fun u => (BinaryFormat.double.valueOf u).extent) (unpack_pack_form hSmall)
  rw [Double.le_iff (congrArg BinaryValue.extent h) hWhole, WithBotTop.coe_le_coe]
  exact Iff.rfl

end Whole

end Patchbay
