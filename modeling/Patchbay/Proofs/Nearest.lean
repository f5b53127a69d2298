import Mathlib
import Patchbay.Proofs.Exact

/-
Whole numbers in single precision.

A number of single precision has twenty-four digits, so up to two to the twenty-fourth every
whole number is one, and beyond that some are.  Those that are pass through a conversion as they
are, and this is what `Held` collects.  A number is rounded to one of them whatever its size is:
a small one has a small whole number next to it, and a large one is whole already.

What rounding, clamping and counting do is then said of where the numbers stand.
-/

namespace Patchbay

/-! ### Rounding to whole numbers -/

/-- The whole number nearest to a rational; a half goes away from zero. -/
def roundAway (q : ℚ) : ℤ :=
  if q < 0 then -round (-q) else round q

/-- No whole number is nearer, and of two that are equally near the one farther from zero is
taken. -/
theorem roundAway_nearest (q : ℚ) : |q - roundAway q| ≤ 1 / 2 ∧
    (|q - roundAway q| = 1 / 2 → |q| < |(roundAway q : ℚ)|) := by
  have hUp : ∀ x : ℚ, 0 ≤ x → |x - round x| ≤ 1 / 2 ∧
      (|x - round x| = 1 / 2 → |x| < |(round x : ℚ)|) := by
    intro x hx
    refine ⟨abs_sub_round x, fun hHalf => ?_⟩
    have hLess : x - 1 / 2 < round x := by
      rw [round_eq]
      linarith [Int.lt_floor_add_one (x + 1 / 2)]
    rcases abs_eq (by norm_num) |>.mp hHalf with hBelow | hAbove
    · linarith
    · rw [abs_of_nonneg hx, abs_of_nonneg (by linarith)]
      linarith
  unfold roundAway
  split
  · rename_i hNeg
    have hTurned : |q - ((-round (-q) : ℤ) : ℚ)| = |-q - round (-q)| := by
      rw [← abs_neg]
      push_cast
      ring_nf
    rw [hTurned, Int.cast_neg, abs_neg, ← abs_neg q]
    exact hUp (-q) (by linarith)
  · rename_i hNonneg
    exact hUp q (not_lt.mp hNonneg)

namespace BinaryValue

theorem cast_wholePart (significand : Nat) (scale : Int) :
    (wholePart significand scale : ℤ) = ⌊(significand : ℚ) * 2 ^ scale⌋ := by
  rw [← twoTo_div_twoTo, ← mul_div_assoc, ← Nat.cast_mul, Rat.floor_natCast_div_natCast,
    wholePart, Int.natCast_div]

theorem wholePart_eq {significand n : Nat} {scale : Int}
    (h : (significand : ℚ) * 2 ^ scale = n) : wholePart significand scale = n := by
  have hFloor := cast_wholePart significand scale
  rw [h, Int.floor_natCast] at hFloor
  exact_mod_cast hFloor

theorem cast_nearestWhole (significand : Nat) (scale : Int) :
    (nearestWhole significand scale : ℤ) = round ((significand : ℚ) * 2 ^ scale) := by
  have hDown := cast_twoTo_pos (-scale).toNat
  have hHalf : (significand : ℚ) * 2 ^ scale + 1 / 2 =
      (2 * (significand * twoTo scale.toNat) + twoTo (-scale).toNat : Nat) /
        (2 * twoTo (-scale).toNat : Nat) := by
    rw [← twoTo_div_twoTo]
    push_cast
    field_simp
  rw [round_eq, hHalf, Rat.floor_natCast_div_natCast, nearestWhole, Int.natCast_div]

/-- The nearest whole number is found without the sign. -/
theorem roundAway_withSign (negative : Bool) (significand : Nat) (scale : Int) :
    (roundAway (withSign negative (significand * 2 ^ scale)) : ℚ) =
      withSign negative (nearestWhole significand scale) := by
  have hNearest : (nearestWhole significand scale : ℚ) =
      (round ((significand : ℚ) * 2 ^ scale) : ℤ) := by
    exact_mod_cast cast_nearestWhole significand scale
  have hSize : (0 : ℚ) ≤ significand * 2 ^ scale := by positivity
  rw [hNearest]
  generalize (significand : ℚ) * 2 ^ scale = size at hSize ⊢
  cases negative with
  | false => simp [withSign, roundAway, hSize]
  | true =>
      rcases hSize.lt_or_eq with hPos | rfl
      · simp [withSign, roundAway, hPos]
      · simp [withSign, roundAway]

end BinaryValue

namespace Single

open BinaryFormat BinaryValue

/-! ### Whole numbers that are held -/

/-- A whole number that is a number of single precision. -/
def Held (n : Nat) : Prop :=
  ∃ significand scale, single.Regular significand scale ∧ (significand : ℚ) * 2 ^ scale = n

/-- Up to two to the twenty-fourth there is a number of single precision for every whole number. -/
theorem held_of_le {n : Nat} (hSmall : n ≤ 2 ^ 24) : Held n := by
  rcases Nat.eq_zero_or_pos n with rfl | hPos
  · exact ⟨0, -149, ⟨by decide, by decide, .inl (by decide), by decide⟩, by simp⟩
  rcases Nat.lt_or_eq_of_le hSmall with hLt | rfl
  · obtain ⟨hLow, hHigh⟩ := full_mul_two_pow (w := 23) hPos hLt
    have hFinite : (-((23 - n.log2 : Nat) : Int) - -149).toNat * 8388608 +
        n * 2 ^ (23 - n.log2) < 2139095040 := by
      change _ < 16777216 at hHigh
      omega
    have hLowest : (-149 : Int) ≤ -((23 - n.log2 : Nat) : Int) := by omega
    exact ⟨_, _, ⟨hHigh, hLowest, .inr hLow, hFinite⟩, cast_mul_two_pow n _⟩
  · exact ⟨2 ^ 23, 1, ⟨by decide, by decide, .inr (by decide), by decide⟩, by norm_num⟩

/-- The whole number next to a number is held. -/
theorem held_nearestWhole {significand : Nat} {scale : Int}
    (h : single.Regular significand scale) : Held (nearestWhole significand scale) := by
  have hNearest := cast_nearestWhole significand scale
  rcases Int.lt_or_le scale 0 with hFraction | hWhole
  · -- It has digits behind the point, so it is small.
    have hPower : (2 : ℚ) ^ scale ≤ 1 := zpow_le_one_of_nonpos₀ one_le_two hFraction.le
    have hSignificand : (significand : ℚ) < 2 ^ 24 := by exact_mod_cast h.lt
    have hValue : (significand : ℚ) * 2 ^ scale ≤ significand :=
      mul_le_of_le_one_right (Nat.cast_nonneg _) hPower
    have hRound : (nearestWhole significand scale : ℤ) < 2 ^ 24 + 1 := by
      rw [hNearest, round_eq, Int.floor_lt]
      push_cast
      linarith
    exact held_of_le (by omega)
  · -- It is whole as it is.
    obtain ⟨k, rfl⟩ := Int.eq_ofNat_of_zero_le hWhole
    have hSame : (significand : ℚ) * 2 ^ (k : ℤ) = ((significand * 2 ^ k : ℕ) : ℚ) := by
      rw [zpow_natCast]
      push_cast
      rfl
    rw [hSame, round_natCast] at hNearest
    have hKept : nearestWhole significand k = significand * 2 ^ k := by exact_mod_cast hNearest
    exact ⟨significand, k, h, hSame.trans (congrArg Nat.cast hKept.symm)⟩

/-- **A whole number that is held is converted exactly.** -/
theorem value_ofWhole {n : Nat} (h : Held n) (negative : Bool) : ∃ significand scale,
    value (ofWhole negative n) = .finite negative significand scale ∧
      (significand : ℚ) * 2 ^ scale = n := by
  obtain ⟨significand, scale, hRegular, hExact⟩ := h
  have hBits : single.encodeRatio n 1 = single.pattern significand scale :=
    encodeRatio_exact hRegular Nat.one_pos (by rw [Nat.cast_one, div_one, hExact])
  refine ⟨significand, scale, ?_, hExact⟩
  rw [ofWhole, hBits, value_ofPattern hRegular negative]

theorem extent_ofWhole {n : Nat} (h : Held n) (negative : Bool) :
    (value (ofWhole negative n)).extent = some ((withSign negative n : ℚ) : WithBotTop ℚ) := by
  obtain ⟨significand, scale, hValue, hExact⟩ := value_ofWhole h negative
  rw [hValue, extent, hExact]

theorem extent_ofInt {n : Nat} (h : Held n) :
    (value (ofInt n)).extent = some ((n : ℚ) : WithBotTop ℚ) := by
  rw [ofInt, decide_eq_false (Int.not_lt.mpr (Int.natCast_nonneg n)), Int.natAbs_natCast]
  exact extent_ofWhole h false

theorem extent_zero : (value 0).extent = some ((0 : ℚ) : WithBotTop ℚ) := by
  have hZero : value 0 = .finite false 0 (-149) := by decide +kernel
  simp [hZero, extent, withSign]

/-! ### Where results stand -/

variable {x low high : Float32} {p a b : WithBotTop ℚ} {q : ℚ}

/-- A number that stands at a rational is finite. -/
theorem finite_of_extent (h : (value x).extent = some (q : WithBotTop ℚ)) :
    ∃ negative significand scale, value x = .finite negative significand scale ∧
      q = withSign negative (significand * 2 ^ scale) := by
  cases hValue : value x with
  | nan => simp [hValue, extent] at h
  | infinite negative =>
      rw [hValue] at h
      cases negative with
      | true => exact absurd (Option.some.inj h).symm (WithBotTop.coe_ne_bot q)
      | false => exact absurd (Option.some.inj h).symm (WithBotTop.coe_ne_top q)
  | finite negative significand scale =>
      rw [hValue, extent] at h
      exact ⟨_, _, _, rfl, (WithBotTop.coe_injective (Option.some.inj h)).symm⟩

/-- What stands nowhere is not a number. -/
theorem value_of_isNaN (h : x.isNaN = true) : value x = .nan := by
  have hNone := extent_eq_none_iff.mpr h
  cases hValue : value x with
  | nan => rfl
  | infinite negative => cases negative <;> simp [hValue, extent] at hNone
  | finite => simp [hValue, extent] at hNone

/-- **Rounding moves a number to the nearest whole one.** -/
theorem extent_round (h : (value x).extent = some (q : WithBotTop ℚ)) :
    (value (round x)).extent = some ((roundAway q : ℚ) : WithBotTop ℚ) := by
  obtain ⟨negative, significand, scale, hValue, rfl⟩ := finite_of_extent h
  rw [round, hValue, roundAway_withSign]
  exact extent_ofWhole (held_nearestWhole (bits_of_value hValue).1) negative

theorem round_of_infinite {negative : Bool} (h : value x = .infinite negative) : round x = x := by
  rw [round, h]

theorem round_of_isNaN (h : x.isNaN = true) : round x = x := by
  rw [round, value_of_isNaN h]

/-- **A number is moved to the nearer bound**, if it is not between the two. -/
theorem extent_clamp (hx : (value x).extent = some p) (hLow : (value low).extent = some a)
    (hHigh : (value high).extent = some b) (hab : a ≤ b) :
    (value (clamp x low high)).extent = some (max a (min b p)) := by
  unfold clamp
  simp only
  by_cases hBelow : x < low
  · have hLess : p < a := (lt_iff hx hLow).mp hBelow
    have hNot : ¬high < low := by rw [lt_iff hHigh hLow]; exact hab.not_gt
    rw [if_pos hBelow, if_neg hNot, hLow, max_eq_left (min_le_of_right_le hLess.le)]
  · have hMore : a ≤ p := le_of_not_gt (mt (lt_iff hx hLow).mpr hBelow)
    rw [if_neg hBelow]
    by_cases hAbove : high < x
    · have hGreater : b < p := (lt_iff hHigh hx).mp hAbove
      rw [if_pos hAbove, hHigh, min_eq_left hGreater.le, max_eq_right hab]
    · have hWithin : p ≤ b := le_of_not_gt (mt (lt_iff hHigh hx).mpr hAbove)
      rw [if_neg hAbove, hx, min_eq_right hWithin, max_eq_right hMore]

theorem clamp_of_isNaN (h : x.isNaN = true) : clamp x low high = x := by
  have hNot : ∀ y : Float32, ¬x < y ∧ ¬y < x := by
    intro y
    rw [lt_iff_placeOf, lt_iff_placeOf, h]
    simp
  rw [clamp, if_neg (hNot low).1, if_neg (hNot high).2]

/-- **A count comes through as it is.** -/
theorem toCount_of_extent {n : Nat} (hn : n < twoTo 64)
    (h : (value x).extent = some ((n : ℚ) : WithBotTop ℚ)) : toCount x = n := by
  obtain ⟨negative, significand, scale, hValue, hSigned⟩ := finite_of_extent h
  have hNonneg : (0 : ℚ) ≤ n := Nat.cast_nonneg n
  have hSize : (significand : ℚ) * 2 ^ scale = n := by
    have hPositive : (0 : ℚ) ≤ significand * 2 ^ scale := by positivity
    cases negative with
    | false => exact hSigned.symm
    | true =>
        simp only [withSign, if_true] at hSigned
        linarith
  -- Only zero is a count with a sign.
  have hSign : (if negative = true then -(n : Int) else n) = n := by
    cases negative with
    | false => rfl
    | true =>
        simp only [withSign, if_true, hSize] at hSigned
        have hZero : (n : ℚ) = 0 := by linarith
        rw [Nat.cast_eq_zero.mp hZero]
        rfl
  rw [toCount, truncateWithin, hValue, BinaryValue.truncateWithin, wholePart_eq hSize]
  simp only [hSign]
  omega

theorem toCount_of_isNaN (h : x.isNaN = true) : toCount x = 0 := by
  rw [toCount, truncateWithin, value_of_isNaN h]
  rfl

end Single

end Patchbay
