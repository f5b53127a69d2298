import Patchbay.Proofs.Whole
import Patchbay.Settings

/-
The clock does not run before zero.

The time of a frame is its number times the buffer size, divided by the sample rate, all of them
floating point numbers.  None of that is negative, but whether there is a time at all is not
plain: zero times an infinity and zero divided by zero are not numbers.  So more has to be known
of the frame number and the sample rate than their signs.  They are `Normal`, which is to
say positive and neither too small nor too large to have all their digits, and this is where
rounding comes in: a normal number is the product of rounding a mantissa that is long enough at
an exponent of moderate size.  A count below two to the fifty-third is not rounded at all and has
its full form; a larger one is.
-/

namespace Patchbay

namespace Time

open Float.Model Float.Model.UnpackedFloat

/-- A number that is not negative, as far as its sign tells. -/
def NonNegative : UnpackedFloat → Prop
  | .zero s => s = .positive
  | .finite s .. => s = .positive
  | .infinity s => s = .positive
  | .notANumber => False

/-- A positive number with all its digits, and an exponent between these. -/
def Normal (low high : Int) (u : UnpackedFloat) : Prop :=
  ∃ mantissa exponent h, u = .finite .positive mantissa exponent h ∧
    twoTo 52 ≤ mantissa ∧ mantissa < twoTo 53 ∧ low ≤ exponent ∧ exponent ≤ high

theorem Normal.nonNegative {low high : Int} {u : UnpackedFloat} (h : Normal low high u) :
    NonNegative u := by
  obtain ⟨mantissa, exponent, hPos, rfl, -⟩ := h
  rfl

theorem Normal.mono {low high low' high' : Int} {u : UnpackedFloat} (h : Normal low high u)
    (hLow : low' ≤ low) (hHigh : high ≤ high') : Normal low' high' u := by
  obtain ⟨mantissa, exponent, hPos, hEq, hMin, hMax, hLe, hGe⟩ := h
  exact ⟨mantissa, exponent, hPos, hEq, hMin, hMax, hLow.trans hLe, hGe.trans hHigh⟩

/-! ### Packing -/

/-- A positive sign survives packing. -/
theorem nonNegative_components {exponent : BitVec 11} {mantissa : BitVec 52}
    (h : exponent = -1#_ → mantissa = 0#_) : NonNegative (UnpackedFloat.unpack .binary64
      (packComponents .binary64 .positive exponent mantissa)) := by
  have hSign : Sign.ofBitVec Sign.positive.toBitVec = .positive := rfl
  unfold UnpackedFloat.unpack
  simp only [unpackExponent_packComponents, unpackMantissa_packComponents,
    Whole.unpackSign_packComponents, hSign]
  split
  · rename_i hLast
    rw [if_pos (h hLast)]
    rfl
  · split
    · split <;> rfl
    · rfl

/-- What is not negative when it is computed is not negative when it is read. -/
theorem nonNegative_pack {u : UnpackedFloat} (h : NonNegative u) :
    NonNegative (UnpackedFloat.unpack .binary64 (UnpackedFloat.pack .binary64 u)) := by
  cases u with
  | notANumber => exact h.elim
  | infinity s =>
      obtain rfl := h
      exact nonNegative_components fun _ => rfl
  | zero s =>
      obtain rfl := h
      exact nonNegative_components fun _ => rfl
  | finite s m e hPos =>
      obtain rfl := h
      unfold UnpackedFloat.pack
      simp only
      split
      · exact nonNegative_components fun _ => rfl
      · rename_i hSmall
        split
        · refine nonNegative_components fun hLast => absurd (congrArg BitVec.toNat hLast) ?_
          rw [BitVec.toNat_ofNat, Nat.mod_eq_of_lt (Nat.lt_of_succ_lt (Nat.lt_of_not_le hSmall))]
          change _ ≠ 2047
          change ¬2048 ≤ _ at hSmall
          omega
        · exact nonNegative_components fun hLast => by simp at hLast

/-- A normal number of moderate size is read as it is written. -/
theorem normal_pack {low high : Int} {u : UnpackedFloat} (h : Normal low high u)
    (hLow : -1074 ≤ low) (hHigh : high ≤ 971) :
    Normal low high (UnpackedFloat.unpack .binary64 (UnpackedFloat.pack .binary64 u)) := by
  obtain ⟨m, e, hPos, rfl, hMin, hMax, hLe, hGe⟩ := h
  rw [Whole.unpack_pack_full hPos hMin hMax (hLow.trans hLe) (hGe.trans hHigh)]
  exact ⟨m, e, hPos, rfl, hMin, hMax, hLe, hGe⟩

/-! ### Rounding -/

theorem mantissa_shiftRight (n : Nat) (em : ExtendedMantissa) :
    (em >>> n).mantissa = em.mantissa / 2 ^ n := by
  induction n with
  | zero => exact (Nat.div_one _).symm
  | succ n ih =>
      change (em >>> n).mantissa / 2 = _
      rw [ih, Nat.div_div_eq_div_mul, Nat.pow_succ]

theorem mantissa_ofMantissaAndAccuracy (m : Nat) (acc : Accuracy) :
    (ExtendedMantissa.ofMantissaAndAccuracy m acc).mantissa = m := by
  cases acc with
  | exact => rfl
  | inexact order => cases order <;> rfl

theorem roundedMantissa_between (em : ExtendedMantissa) :
    em.mantissa ≤ em.roundedMantissa ∧ em.roundedMantissa ≤ em.mantissa + 1 := by
  unfold ExtendedMantissa.roundedMantissa
  cases em.accuracy with
  | exact => exact ⟨Nat.le_refl _, Nat.le_succ _⟩
  | inexact order =>
      cases order <;> simp only [Accuracy.roundToNearestEven] <;> omega

/-- Shifting a mantissa that is long enough leaves all the digits that there is room for. -/
theorem shiftToTargetExponent_long {m : Nat} {e : Int} (acc : Accuracy) (hm : twoTo 52 ≤ m)
    (hLow : -1021 ≤ totalExponent m e) :
    twoTo 52 ≤ (shiftToTargetExponent .binary64 m e acc).1.mantissa ∧
      (shiftToTargetExponent .binary64 m e acc).1.mantissa < twoTo 53 ∧
      (shiftToTargetExponent .binary64 m e acc).2 = totalExponent m e - 53 := by
  have hPos : m ≠ 0 := by
    rintro rfl
    exact absurd hm (by decide)
  have hLong : 52 ≤ m.log2 := (Nat.le_log2 hPos).mpr hm
  have hTarget : Format.binary64.targetExponent (totalExponent m e) = totalExponent m e - 53 := by
    change max (totalExponent m e - 53) (-1074) = _
    omega
  have hShift : (totalExponent m e - 53 - e).toNat = m.log2 - 52 := by
    unfold totalExponent
    omega
  unfold shiftToTargetExponent shiftToExponent
  simp only [hTarget, hShift, mantissa_shiftRight, mantissa_ofMantissaAndAccuracy]
  have hSplit : ∀ n, 52 ≤ n → 2 ^ n = 2 ^ 52 * 2 ^ (n - 52) := by
    intro n hn
    rw [← Nat.pow_add, Nat.add_sub_cancel' hn]
  refine ⟨?_, ?_, ?_⟩
  · rw [Nat.le_div_iff_mul_le (Nat.two_pow_pos _)]
    exact (hSplit _ hLong).symm ▸ Nat.log2_self_le hPos
  · rw [Nat.div_lt_iff_lt_mul (Nat.two_pow_pos _)]
    have hLt := Nat.lt_log2_self (n := m)
    rw [Nat.pow_succ, hSplit _ hLong] at hLt
    change m < 2 ^ 52 * 2 * 2 ^ (m.log2 - 52)
    rwa [Nat.mul_right_comm] at hLt
  · unfold totalExponent
    omega

/-- Rounding a mantissa that is long enough gives a normal number. -/
theorem normal_roundWithAccuracy {m : Nat} {e : Int} (acc : Accuracy) (hm : twoTo 52 ≤ m)
    (hLow : -1021 ≤ totalExponent m e) :
    Normal (totalExponent m e - 53) (totalExponent m e - 52)
      (roundWithAccuracy .binary64 .positive m e acc) := by
  obtain ⟨hMin, hMax, hExponent⟩ := shiftToTargetExponent_long acc hm hLow
  unfold roundWithAccuracy
  generalize shiftToTargetExponent .binary64 m e acc = first at hMin hMax hExponent
  obtain ⟨em, e₁⟩ := first
  simp only at hMin hMax hExponent ⊢
  obtain ⟨hLe, hGe⟩ := roundedMantissa_between em
  have hTotal : totalExponent em.roundedMantissa e₁ = 53 + e₁ ∨
      totalExponent em.roundedMantissa e₁ = 54 + e₁ := by
    have hPos : em.roundedMantissa ≠ 0 := by
      intro hZero
      rw [hZero] at hLe
      exact absurd (hMin.trans hLe) (by decide)
    have hAtLeast : 52 ≤ em.roundedMantissa.log2 := (Nat.le_log2 hPos).mpr (hMin.trans hLe)
    have hLess : em.roundedMantissa.log2 < 54 :=
      (Nat.log2_lt hPos).mpr (Nat.lt_of_le_of_lt (hGe.trans hMax) (by decide))
    unfold totalExponent
    omega
  obtain ⟨hMin', hMax', hExponent'⟩ :=
    shiftToTargetExponent_long (e := e₁) .exact (hMin.trans hLe) (by omega)
  generalize shiftToTargetExponent .binary64 em.roundedMantissa e₁ .exact = second
    at hMin' hMax' hExponent'
  obtain ⟨em', e₂⟩ := second
  simp only at hMin' hMax' hExponent' ⊢
  rw [dif_neg fun hZero => absurd (hZero ▸ hMin') (by decide)]
  exact ⟨_, _, _, rfl, hMin', hMax', by omega, by omega⟩

theorem nonNegative_roundWithAccuracy (m : Nat) (e : Int) (acc : Accuracy) :
    NonNegative (roundWithAccuracy .binary64 .positive m e acc) := by
  unfold roundWithAccuracy
  simp only
  split <;> rfl

/-! ### Arithmetic -/

theorem nonNegative_mul {low high : Int} {u v : UnpackedFloat} (hu : Normal low high u)
    (hv : NonNegative v) : NonNegative (UnpackedFloat.mul .binary64 u v) := by
  obtain ⟨m, e, hPos, rfl, -⟩ := hu
  cases v with
  | notANumber => exact hv.elim
  | zero s =>
      obtain rfl := hv
      rfl
  | infinity s =>
      obtain rfl := hv
      rfl
  | finite s m' e' hPos' =>
      obtain rfl := hv
      exact nonNegative_roundWithAccuracy _ _ _

theorem nonNegative_div {low high : Int} {u v : UnpackedFloat} (hu : NonNegative u)
    (hv : Normal low high v) : NonNegative (UnpackedFloat.div .binary64 u v) := by
  obtain ⟨m, e, hPos, rfl, -⟩ := hv
  cases u with
  | notANumber => exact hu.elim
  | zero s =>
      obtain rfl := hu
      rfl
  | infinity s =>
      obtain rfl := hu
      rfl
  | finite s m' e' hPos' =>
      obtain rfl := hu
      exact nonNegative_roundWithAccuracy _ _ _

theorem unpack_mul (x y : Float) : (x * y).toModel.unpack =
    UnpackedFloat.unpack .binary64 (UnpackedFloat.pack .binary64
      (UnpackedFloat.mul .binary64 x.toModel.unpack y.toModel.unpack)) := rfl

theorem unpack_div (x y : Float) : (x / y).toModel.unpack =
    UnpackedFloat.unpack .binary64 (UnpackedFloat.pack .binary64
      (UnpackedFloat.div .binary64 x.toModel.unpack y.toModel.unpack)) := rfl

/-! ### Whole numbers -/

theorem ofNat_large {k : Nat} (h : twoTo 53 ≤ k) : Float.ofNat k =
    Float.ofModel (Float.Model.ofScientific k 0) := by
  unfold Float.ofNat OfScientific.ofScientific instOfScientificFloat
  simp only
  unfold Float.ofScientific
  rw [dif_neg fun hSmall => Nat.not_lt_of_le h hSmall.1]
  rfl

/-- A small whole number has all its digits. -/
theorem normal_form {k : Nat} (hPos : 0 < k) (hSmall : k < twoTo 53) :
    Normal (-52) 0 (Whole.form k) := by
  obtain ⟨hMin, hMax⟩ := Whole.full_mul_room hPos hSmall
  rw [Whole.form_pos hPos]
  exact ⟨_, _, _, rfl, hMin, hMax, by unfold Whole.room; omega, by omega⟩

/-- A large whole number is computed as such and rounded once. -/
theorem ofScientific_zero {k : Nat} (hPos : 0 < k) : UnpackedFloat.ofScientific .binary64 k 0 =
    roundWithAccuracy .binary64 .positive (k * twoTo 53) (-53) .exact := by
  have hNotTiny : ¬(0 : Int) < -((2 ^ Format.binary64.exponentBits : Int) + k.log2) := by
    change ¬(0 : Int) < -(2048 + (k.log2 : Int))
    omega
  unfold UnpackedFloat.ofScientific
  rw [dif_neg hPos.ne', if_neg (by decide), if_neg hNotTiny, if_pos (by decide)]
  change roundWithAccuracy .binary64 .positive (k <<< 53 * 1) (-53 + 0) .exact = _
  rw [Nat.mul_one, Nat.shiftLeft_eq]
  rfl

/-- A positive whole number of sixty-four bits is normal. -/
theorem normal_ofNat {k : Nat} (hPos : 0 < k) (hFits : k < twoTo 64) :
    Normal (-52) 13 (Float.ofNat k).toModel.unpack := by
  rcases Nat.lt_or_ge k (twoTo 53) with hSmall | hLarge
  · rw [Whole.unpack_ofNat hSmall]
    exact (normal_form hPos hSmall).mono (by omega) (by omega)
  · have hScaled : 0 < k * twoTo 53 := Nat.mul_pos hPos (by decide)
    have hAtLeast : 53 ≤ (k * twoTo 53).log2 :=
      (Nat.le_log2 hScaled.ne').mpr (Nat.le_mul_of_pos_left _ hPos)
    have hLess : (k * twoTo 53).log2 < 117 :=
      (Nat.log2_lt hScaled.ne').mpr
        (Nat.lt_of_lt_of_le (Nat.mul_lt_mul_of_pos_right hFits (twoTo_pos 53)) (by decide))
    have hTotal : totalExponent (k * twoTo 53) (-53) = (k * twoTo 53).log2 - 52 := by
      unfold totalExponent
      omega
    have hRounded : Normal (-52) 13 (UnpackedFloat.ofScientific .binary64 k 0) := by
      have hLong : twoTo 52 ≤ k * twoTo 53 :=
        Nat.le_trans (by decide) (Nat.le_mul_of_pos_left _ hPos)
      rw [ofScientific_zero hPos]
      exact (normal_roundWithAccuracy .exact hLong (by omega)).mono (by omega) (by omega)
    rw [ofNat_large hLarge]
    exact normal_pack hRounded (by omega) (by omega)

/-- No whole number is negative, however large. -/
theorem nonNegative_ofNat (k : Nat) : NonNegative (Float.ofNat k).toModel.unpack := by
  rcases Nat.eq_zero_or_pos k with rfl | hPos
  · rfl
  · rcases Nat.lt_or_ge k (twoTo 53) with hSmall | hLarge
    · exact (normal_ofNat hPos (Nat.lt_trans hSmall (by decide))).nonNegative
    · rw [ofNat_large hLarge]
      refine nonNegative_pack (u := UnpackedFloat.ofScientific .binary64 k 0) ?_
      rw [ofScientific_zero hPos]
      exact nonNegative_roundWithAccuracy _ _ _

/-- What is not negative is not before zero. -/
theorem zero_le_of_nonNegative {x : Float} (h : NonNegative x.toModel.unpack) : 0 ≤ x := by
  have hZero : place 0 = toLex (0, toLex (0, 0)) := rfl
  have hPlace : toLex ((0 : Int), toLex ((0 : Int), (0 : Int))) ≤ place x := by
    unfold place
    revert h
    cases x.toModel.unpack with
    | notANumber => exact False.elim
    | infinity s =>
        rintro rfl
        decide
    | zero s => exact fun _ => le_refl _
    | finite s m e hPos =>
        rintro rfl
        exact Prod.Lex.toLex_le_toLex.mpr (.inl Int.zero_lt_one)
  have hNumber : x.isNaN = false := by
    change x.toModel.unpack.isNaN = false
    revert h
    cases x.toModel.unpack with
    | notANumber => exact False.elim
    | _ => exact fun _ => rfl
  exact le_iff.mpr ⟨rfl, hNumber, hZero ▸ hPlace⟩

end Time

/-- **No frame after the first instant is before it**, as long as there is a sample rate and the
frames can be counted in sixty-four bits. -/
theorem Settings.zero_le_frameTime (s : Settings) (hRate : s.sampleRate ≠ 0)
    (hWord : s.sampleRate < twoTo 64) {frame : Nat} (hPos : 0 < frame)
    (hCount : frame < twoTo 64) : 0 ≤ s.frameTime frame := by
  have hSamples : Time.NonNegative
      (Float.ofNat frame * Float.ofNat s.bufferSize).toModel.unpack := by
    rw [Time.unpack_mul]
    exact Time.nonNegative_pack
      (Time.nonNegative_mul (Time.normal_ofNat hPos hCount) (Time.nonNegative_ofNat _))
  apply Time.zero_le_of_nonNegative
  rw [frameTime, Time.unpack_div]
  exact Time.nonNegative_pack
    (Time.nonNegative_div hSamples (Time.normal_ofNat (Nat.pos_of_ne_zero hRate) hWord))

end Patchbay
