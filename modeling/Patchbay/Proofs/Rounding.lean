import Mathlib
import Patchbay.Number.Decimal

/-
Rounding to a binary number.

Every binary number owns an interval of reals, and what lies in that interval is rounded to
the number.  `encodeRatio` works on two natural numbers and shifts them into place; here a
quotient is a rational, and a shift is a power of two with any whole exponent.

Within the interval a quotient has the scale of the number, so it is rounded at the right
place, with one exception.  Just below a power of two it has the next smaller scale, but
then it is rounded up, and that gives the same bits.
-/

namespace Patchbay

/-! ### Powers as rationals -/

theorem cast_twoTo (n : Nat) : (twoTo n : ℚ) = 2 ^ n := by
  rw [twoTo, Nat.pow_eq]
  push_cast
  rfl

theorem cast_tenTo (n : Nat) : (tenTo n : ℚ) = 10 ^ n := by
  rw [tenTo, Nat.pow_eq]
  push_cast
  rfl

theorem twoTo_div_twoTo (e : Int) : (twoTo e.toNat : ℚ) / twoTo (-e).toNat = 2 ^ e := by
  rw [cast_twoTo, cast_twoTo]
  obtain ⟨n, rfl | rfl⟩ := e.eq_nat_or_neg <;> simp

theorem tenTo_div_tenTo (e : Int) : (tenTo e.toNat : ℚ) / tenTo (-e).toNat = 10 ^ e := by
  rw [cast_tenTo, cast_tenTo]
  obtain ⟨n, rfl | rfl⟩ := e.eq_nat_or_neg <;> simp

theorem cast_twoTo_pos (n : Nat) : (0 : ℚ) < twoTo n :=
  Nat.cast_pos.mpr (twoTo_pos n)

theorem cast_tenTo_pos (n : Nat) : (0 : ℚ) < tenTo n :=
  Nat.cast_pos.mpr (tenTo_pos n)

/-! ### Full significands -/

/-- A whole number that is not too long can be written with as many digits as there is room for. -/
theorem full_mul_two_pow {n w : Nat} (hPos : 0 < n) (hSmall : n < twoTo (w + 1)) :
    twoTo w ≤ n * 2 ^ (w - n.log2) ∧ n * 2 ^ (w - n.log2) < twoTo (w + 1) := by
  have hDigits : n.log2 < w + 1 := (Nat.log2_lt hPos.ne').mpr hSmall
  have hJoin : 2 ^ n.log2 * 2 ^ (w - n.log2) = 2 ^ w := by
    rw [← Nat.pow_add, Nat.add_sub_cancel' (Nat.le_of_lt_succ hDigits)]
  constructor
  · exact Nat.le_trans (Nat.le_of_eq hJoin.symm)
      (Nat.mul_le_mul_right _ (Nat.log2_self_le hPos.ne'))
  · have hLt := Nat.mul_lt_mul_of_pos_right (Nat.lt_log2_self (n := n))
      (Nat.two_pow_pos (w - n.log2))
    rwa [Nat.pow_succ, Nat.mul_right_comm, hJoin] at hLt

/-- It stands for the same number, however many of its digits are behind the point. -/
theorem cast_mul_two_pow (n k : Nat) : ((n * 2 ^ k : Nat) : ℚ) * 2 ^ (-(k : Int)) = n := by
  push_cast
  rw [zpow_neg, zpow_natCast, mul_assoc, mul_inv_cancel₀ (by positivity), mul_one]

/-! ### The nearest whole number -/

/-- Between two halves a quotient is rounded to the whole number there, and at an end if that number
is even. -/
theorem roundQuotient_eq_of_bounds {n d m : Nat} (hBelow : 2 * (m * d) ≤ 2 * n + d)
    (hAbove : 2 * n ≤ 2 * (m * d) + d)
    (hStrict : m % 2 = 1 → 2 * (m * d) < 2 * n + d ∧ 2 * n < 2 * (m * d) + d) (hd : 0 < d) :
    roundQuotient n d = m := by
  have hSplit : n / d * d + n % d = n := by rw [Nat.mul_comm, Nat.div_add_mod]
  have hRest : n % d < d := Nat.mod_lt n hd
  unfold roundQuotient
  simp only
  generalize n / d = q at *
  generalize n % d = r at *
  have hUp : q ≤ m := by
    by_contra hLt
    have hMul := Nat.mul_le_mul_right d (show m + 1 ≤ q by omega)
    rw [Nat.add_mul, Nat.one_mul] at hMul
    omega
  have hDown : m ≤ q + 1 := by
    by_contra hLt
    have hMul := Nat.mul_le_mul_right d (show q + 2 ≤ m by omega)
    rw [Nat.add_mul] at hMul
    omega
  obtain rfl | rfl : m = q ∨ m = q + 1 := by omega
  · split
    · rfl
    · split <;> omega
  · rw [Nat.add_mul, Nat.one_mul] at hBelow hAbove hStrict
    split
    · omega
    · split <;> omega

/-- What is no farther than a half from a whole number is rounded to it, if that number is even
or the distance is smaller. -/
theorem roundQuotient_eq {n d m : Nat} (hd : 0 < d) (hLow : (m : ℚ) - 1 / 2 ≤ n / d)
    (hHigh : (n : ℚ) / d ≤ m + 1 / 2)
    (hTie : m % 2 = 1 → (m : ℚ) - 1 / 2 < n / d ∧ (n : ℚ) / d < m + 1 / 2) :
    roundQuotient n d = m := by
  have hd' : (0 : ℚ) < d := Nat.cast_pos.mpr hd
  rw [le_div_iff₀ hd'] at hLow
  rw [div_le_iff₀ hd'] at hHigh
  rw [lt_div_iff₀ hd', div_lt_iff₀ hd'] at hTie
  refine roundQuotient_eq_of_bounds ?_ ?_ (fun hOdd => ⟨?_, ?_⟩) hd
  · have hCast : (2 : ℚ) * (m * d) ≤ 2 * n + d := by linarith
    exact_mod_cast hCast
  · have hCast : (2 : ℚ) * n ≤ 2 * (m * d) + d := by linarith
    exact_mod_cast hCast
  · have hCast : (2 : ℚ) * (m * d) < 2 * n + d := by linarith [(hTie hOdd).1]
    exact_mod_cast hCast
  · have hCast : (2 : ℚ) * n < 2 * (m * d) + d := by linarith [(hTie hOdd).2]
    exact_mod_cast hCast

/-! ### The scale of a quotient -/

theorem two_zpow_le_iff {x : ℚ} (hx : 0 < x) {e : Int} : (2 : ℚ) ^ e ≤ x ↔ e ≤ Int.log 2 x := by
  exact_mod_cast Int.zpow_le_iff_le_log one_lt_two hx

theorem lt_two_zpow_iff {x : ℚ} (hx : 0 < x) {e : Int} : x < (2 : ℚ) ^ e ↔ Int.log 2 x < e := by
  exact_mod_cast Int.lt_zpow_iff_log_lt one_lt_two hx

/-- Shifting a quotient into place divides it by a power of two. -/
theorem ratio_shift (num den : Nat) (s : Int) :
    ((num * twoTo (-s).toNat : Nat) : ℚ) / (den * twoTo s.toNat : Nat) = num / den / 2 ^ s := by
  have hUp := (cast_twoTo_pos s.toNat).ne'
  have hDown := (cast_twoTo_pos (-s).toNat).ne'
  rw [← twoTo_div_twoTo s, Nat.cast_mul, Nat.cast_mul, div_div_eq_mul_div, div_mul_eq_mul_div,
    div_div]

namespace BinaryFormat

variable {f : BinaryFormat} {num den : Nat}

/-- The lengths of two numbers give the place of the first bit of their quotient. -/
theorem log_ratio (hNum : 0 < num) (hDen : 0 < den) : Int.log 2 ((num : ℚ) / den) =
    if den * twoTo ((num.log2 : Int) - den.log2).toNat ≤
        num * twoTo (-((num.log2 : Int) - den.log2)).toNat then
      (num.log2 : Int) - den.log2 else (num.log2 : Int) - den.log2 - 1 := by
  have hNum' : (0 : ℚ) < num := Nat.cast_pos.mpr hNum
  have hDen' : (0 : ℚ) < den := Nat.cast_pos.mpr hDen
  have hPos : (0 : ℚ) < num / den := div_pos hNum' hDen'
  generalize he : (num.log2 : Int) - den.log2 = e
  have hReached : den * twoTo e.toNat ≤ num * twoTo (-e).toNat ↔ (2 : ℚ) ^ e ≤ num / den := by
    rw [← twoTo_div_twoTo, div_le_div_iff₀ (cast_twoTo_pos _) hDen', ← Nat.cast_mul,
      ← Nat.cast_mul, Nat.cast_le, Nat.mul_comm den]
  have hNumLow : (2 : ℚ) ^ num.log2 ≤ num := by exact_mod_cast Nat.log2_self_le hNum.ne'
  have hNumHigh : (num : ℚ) < 2 ^ (num.log2 + 1) := by exact_mod_cast Nat.lt_log2_self
  have hDenLow : (2 : ℚ) ^ den.log2 ≤ den := by exact_mod_cast Nat.log2_self_le hDen.ne'
  have hDenHigh : (den : ℚ) < 2 ^ (den.log2 + 1) := by exact_mod_cast Nat.lt_log2_self
  have hAbove : (num : ℚ) / den < 2 ^ (e + 1) := by
    rw [← he, show (num.log2 : Int) - den.log2 + 1 = (num.log2 + 1 : Nat) - (den.log2 : Nat) by
      push_cast; ring, zpow_sub₀ two_ne_zero, zpow_natCast, zpow_natCast]
    exact div_lt_div₀ hNumHigh hDenLow (by positivity) (by positivity)
  have hBelow : (2 : ℚ) ^ (e - 1) ≤ num / den := by
    rw [← he, show (num.log2 : Int) - den.log2 - 1 = (num.log2 : Nat) - (den.log2 + 1 : Nat) by
      push_cast; ring, zpow_sub₀ two_ne_zero, zpow_natCast, zpow_natCast]
    exact div_le_div₀ hNum'.le hNumLow hDen' hDenHigh.le
  split
  · rename_i hFrom
    exact le_antisymm (Int.lt_add_one_iff.mp ((lt_two_zpow_iff hPos).mp hAbove))
      ((two_zpow_le_iff hPos).mp (hReached.mp hFrom))
  · rename_i hNot
    refine le_antisymm (Int.lt_add_one_iff.mp ?_) ((two_zpow_le_iff hPos).mp hBelow)
    rw [Int.sub_add_cancel]
    exact (lt_two_zpow_iff hPos).mp (lt_of_not_ge (mt hReached.mpr hNot))

theorem scaleOf_eq (f : BinaryFormat) (hNum : 0 < num) (hDen : 0 < den) :
    f.scaleOf num den = max f.lowest (Int.log 2 ((num : ℚ) / den) - f.fractionBits) := by
  rw [scaleOf, log_ratio hNum hDen]

/-- A scale is that of a quotient whose first bit is at its place, or is the lowest and the first bit
is not beyond its place. -/
theorem scaleOf_eq_of_bounds {s : Int} (hNum : 0 < num) (hDen : 0 < den) (hLowest : f.lowest ≤ s)
    (hBelow : s = f.lowest ∨ (2 : ℚ) ^ (f.fractionBits : Int) ≤ num / den / 2 ^ s)
    (hAbove : (num : ℚ) / den / 2 ^ s < 2 ^ (f.fractionBits + 1 : Int)) :
    f.scaleOf num den = s := by
  have hPos : (0 : ℚ) < num / den := div_pos (Nat.cast_pos.mpr hNum) (Nat.cast_pos.mpr hDen)
  have hPower : (0 : ℚ) < 2 ^ s := zpow_pos two_pos s
  rw [div_lt_iff₀ hPower, ← zpow_add₀ two_ne_zero, lt_two_zpow_iff hPos] at hAbove
  rw [le_div_iff₀ hPower, ← zpow_add₀ two_ne_zero, two_zpow_le_iff hPos] at hBelow
  rw [scaleOf_eq f hNum hDen]
  omega

end BinaryFormat

/-! ### The interval of a number -/

/-- A rational lies in the interval of a number. -/
structure RoundingInterval.Holds (i : RoundingInterval) (x : ℚ) : Prop where
  low : (i.low : ℚ) / i.denominator ≤ x
  high : x ≤ (i.high : ℚ) / i.denominator
  inner : i.closed = false → (i.low : ℚ) / i.denominator < x ∧ x < (i.high : ℚ) / i.denominator

namespace BinaryFormat

/-- The bits of a number without its sign. -/
def pattern (f : BinaryFormat) (significand : Nat) (scale : Int) : Nat :=
  (scale - f.lowest).toNat * twoTo f.fractionBits + significand

/-- A significand and a scale that are those of a finite number. -/
structure Regular (f : BinaryFormat) (significand : Nat) (scale : Int) : Prop where
  lt : significand < twoTo (f.fractionBits + 1)
  lowest : f.lowest ≤ scale
  full : scale = f.lowest ∨ twoTo f.fractionBits ≤ significand
  finite : f.pattern significand scale < f.infinityBits

variable {f : BinaryFormat} {significand num den : Nat} {scale : Int}

/-- How far below a number its interval begins, in units of the last place. -/
def margin (f : BinaryFormat) (significand : Nat) (scale : Int) : ℚ :=
  if significand = twoTo f.fractionBits ∧ f.lowest < scale then 1 / 4 else 1 / 2

theorem two_zpow_sub_two (scale : Int) : (2 : ℚ) ^ (scale - 2) = 2 ^ scale / 4 := by
  rw [zpow_sub₀ two_ne_zero]
  norm_num

/-- The ends of an interval are counted in quarters of the last place. -/
theorem quarters (k : Nat) (scale : Int) :
    ((k * twoTo (scale - 2).toNat : Nat) : ℚ) / twoTo (2 - scale).toNat = k / 4 * 2 ^ scale := by
  have hPower := twoTo_div_twoTo (scale - 2)
  rw [neg_sub, two_zpow_sub_two] at hPower
  rw [Nat.cast_mul, mul_div_assoc, hPower]
  ring

theorem low_around (f : BinaryFormat) (hPos : 0 < significand) (scale : Int) :
    ((RoundingInterval.around f significand scale).low : ℚ) /
      (RoundingInterval.around f significand scale).denominator =
        (significand - f.margin significand scale) * 2 ^ scale := by
  refine (quarters _ scale).trans ?_
  rw [margin, Nat.cast_sub (by split <;> omega)]
  split <;> (push_cast; ring)

theorem value_around (f : BinaryFormat) (significand : Nat) (scale : Int) :
    ((RoundingInterval.around f significand scale).value : ℚ) /
      (RoundingInterval.around f significand scale).denominator = significand * 2 ^ scale := by
  refine (quarters _ scale).trans ?_
  push_cast
  ring

theorem high_around (f : BinaryFormat) (significand : Nat) (scale : Int) :
    ((RoundingInterval.around f significand scale).high : ℚ) /
      (RoundingInterval.around f significand scale).denominator =
        (significand + 1 / 2) * 2 ^ scale := by
  refine (quarters _ scale).trans ?_
  push_cast
  ring

/-- What lies in the interval of a number, in units of the last place. -/
theorem holds_around_iff (hPos : 0 < significand) {x : ℚ} :
    (RoundingInterval.around f significand scale).Holds x ↔
      significand - f.margin significand scale ≤ x / 2 ^ scale ∧
        x / 2 ^ scale ≤ significand + 1 / 2 ∧
          (significand % 2 = 1 → significand - f.margin significand scale < x / 2 ^ scale ∧
            x / 2 ^ scale < significand + 1 / 2) := by
  have hPower : (0 : ℚ) < 2 ^ scale := zpow_pos two_pos scale
  have hClosed : (RoundingInterval.around f significand scale).closed = false ↔
      significand % 2 = 1 := by
    simp [RoundingInterval.around]
  rw [le_div_iff₀ hPower, div_le_iff₀ hPower, lt_div_iff₀ hPower, div_lt_iff₀ hPower,
    ← low_around f hPos, ← high_around, ← hClosed]
  exact ⟨fun h => ⟨h.low, h.high, h.inner⟩, fun h => ⟨h.1, h.2.1, h.2.2⟩⟩

theorem margin_le (f : BinaryFormat) (significand : Nat) (scale : Int) :
    f.margin significand scale ≤ 1 / 2 := by
  rw [margin]
  split <;> norm_num

/-- A number lies in its own interval. -/
theorem holds_around_self (hPos : 0 < significand) (scale : Int) :
    (RoundingInterval.around f significand scale).Holds (significand * 2 ^ scale) := by
  have hMargin : 0 < f.margin significand scale := by
    rw [margin]
    split <;> norm_num
  rw [holds_around_iff hPos, mul_div_cancel_right₀ _ (zpow_pos two_pos scale).ne']
  exact ⟨by linarith, by linarith, fun _ => ⟨by linarith, by linarith⟩⟩

theorem cast_twoTo_succ (n : Nat) : (twoTo (n + 1) : ℚ) = 2 * twoTo n := by
  rw [twoTo_succ]
  push_cast
  ring

/-- A quotient that has the scale of a number, and lies in its interval. -/
theorem encodeRatio_at_scale (h : f.Regular significand scale) (hNum : 0 < num) (hDen : 0 < den)
    (hHolds : (significand : ℚ) - 1 / 2 ≤ num / den / 2 ^ scale ∧
      (num : ℚ) / den / 2 ^ scale ≤ significand + 1 / 2)
    (hTie : significand % 2 = 1 → (significand : ℚ) - 1 / 2 < num / den / 2 ^ scale ∧
      (num : ℚ) / den / 2 ^ scale < significand + 1 / 2)
    (hHere : scale = f.lowest ∨ (twoTo f.fractionBits : ℚ) ≤ num / den / 2 ^ scale) :
    f.encodeRatio num den = f.pattern significand scale := by
  have hFits : (significand : ℚ) + 1 ≤ twoTo (f.fractionBits + 1) := by exact_mod_cast h.lt
  have hScale : f.scaleOf num den = scale := by
    refine scaleOf_eq_of_bounds hNum hDen h.lowest ?_ ?_
    · rw [zpow_natCast, ← cast_twoTo]
      exact hHere
    · rw [← Nat.cast_succ, zpow_natCast, ← cast_twoTo]
      linarith [hHolds.2]
  have hRound : roundQuotient (num * twoTo (-scale).toNat) (den * twoTo scale.toNat) =
      significand := by
    refine roundQuotient_eq (Nat.mul_pos hDen (twoTo_pos _)) ?_ ?_ fun hOdd => ?_
    · rw [ratio_shift]
      exact hHolds.1
    · rw [ratio_shift]
      exact hHolds.2
    · rw [ratio_shift]
      exact hTie hOdd
  simp only [encodeRatio, hNum.ne', if_false, hScale, hRound]
  exact Nat.min_eq_right h.finite.le

/-- A quotient just below a power of two has the next smaller scale, and is rounded up to the
power. -/
theorem encodeRatio_below_power (h : f.Regular (twoTo f.fractionBits) scale)
    (hLowest : f.lowest < scale) (hNum : 0 < num) (hDen : 0 < den)
    (hFrom : (twoTo f.fractionBits : ℚ) - 1 / 4 ≤ num / den / 2 ^ scale)
    (hBelow : (num : ℚ) / den / 2 ^ scale < twoTo f.fractionBits) :
    f.encodeRatio num den = f.pattern (twoTo f.fractionBits) scale := by
  have hOne : (1 : ℚ) ≤ twoTo f.fractionBits := Nat.one_le_cast.mpr (twoTo_pos _)
  have hDouble : (num : ℚ) / den / 2 ^ (scale - 1) = 2 * (num / den / 2 ^ scale) := by
    rw [zpow_sub_one₀ two_ne_zero]
    field_simp
  have hScale : f.scaleOf num den = scale - 1 := by
    refine scaleOf_eq_of_bounds hNum hDen (by omega) (.inr ?_) ?_
    · rw [zpow_natCast, ← cast_twoTo, hDouble]
      linarith
    · rw [← Nat.cast_succ, zpow_natCast, ← cast_twoTo, cast_twoTo_succ, hDouble]
      linarith
  have hRound : roundQuotient (num * twoTo (-(scale - 1)).toNat) (den * twoTo (scale - 1).toNat) =
      twoTo (f.fractionBits + 1) := by
    refine roundQuotient_eq (Nat.mul_pos hDen (twoTo_pos _)) ?_ ?_ fun hOdd => ?_
    · rw [ratio_shift, hDouble, cast_twoTo_succ]
      linarith
    · rw [ratio_shift, hDouble, cast_twoTo_succ]
      linarith
    · rw [twoTo_succ] at hOdd
      omega
  have hSame : (scale - 1 - f.lowest).toNat * twoTo f.fractionBits + twoTo (f.fractionBits + 1) =
      f.pattern (twoTo f.fractionBits) scale := by
    rw [pattern, twoTo_succ, show (scale - f.lowest).toNat = (scale - 1 - f.lowest).toNat + 1 by omega]
    ring
  simp only [encodeRatio, hNum.ne', if_false, hScale, hRound, hSame]
  exact Nat.min_eq_right h.finite.le

/-- **What lies in the interval of a number is rounded to that number.** -/
theorem encodeRatio_of_holds (h : f.Regular significand scale) (hPos : 0 < significand)
    (hDen : 0 < den)
    (hHolds : (RoundingInterval.around f significand scale).Holds ((num : ℚ) / den)) :
    f.encodeRatio num den = f.pattern significand scale := by
  obtain ⟨hLow, hHigh, hInner⟩ := (holds_around_iff hPos).mp hHolds
  have hMargin := f.margin_le significand scale
  have hOne : (1 : ℚ) ≤ significand := Nat.one_le_cast.mpr hPos
  have hNum : 0 < num := by
    rcases Nat.eq_zero_or_pos num with rfl | hNum
    · rw [Nat.cast_zero, zero_div, zero_div] at hLow
      linarith
    · exact hNum
  by_cases hHere : scale = f.lowest ∨ (twoTo f.fractionBits : ℚ) ≤ num / den / 2 ^ scale
  · exact encodeRatio_at_scale h hNum hDen ⟨by linarith, hHigh⟩
      (fun hOdd => ⟨by linarith [(hInner hOdd).1], (hInner hOdd).2⟩) hHere
  · obtain ⟨hNotLowest, hBelow⟩ := not_or.mp hHere
    have hLowest : f.lowest < scale := lt_of_le_of_ne h.lowest (Ne.symm hNotLowest)
    obtain rfl : significand = twoTo f.fractionBits := by
      refine le_antisymm (Nat.le_of_not_lt fun hMore => ?_) (h.full.resolve_left hNotLowest)
      have hCast : (twoTo f.fractionBits : ℚ) + 1 ≤ significand := by exact_mod_cast hMore
      linarith [not_le.mp hBelow]
    rw [margin, if_pos ⟨rfl, hLowest⟩] at hLow
    exact encodeRatio_below_power h hLowest hNum hDen hLow (not_le.mp hBelow)

/-- A quotient that is a number is rounded to that number. -/
theorem encodeRatio_exact (h : f.Regular significand scale) (hDen : 0 < den)
    (hExact : (num : ℚ) / den = significand * 2 ^ scale) :
    f.encodeRatio num den = f.pattern significand scale := by
  rcases Nat.eq_zero_or_pos significand with rfl | hPos
  · have hScale : scale = f.lowest :=
      h.full.resolve_right (Nat.not_le_of_lt (twoTo_pos _))
    have hNum : num = 0 := by
      have hDen' : (den : ℚ) ≠ 0 := Nat.cast_ne_zero.mpr hDen.ne'
      rw [Nat.cast_zero, zero_mul, div_eq_zero_iff, or_iff_left hDen'] at hExact
      exact_mod_cast hExact
    simp [hNum, hScale, pattern]
  · exact encodeRatio_of_holds h hPos hDen (hExact ▸ holds_around_self hPos scale)

/-! ### Bits of a number -/

/-- The exponent field and the fraction are the two digits of the bits without the sign. -/
theorem decode_eq (f : BinaryFormat) {magnitude : Nat} (negative : Bool)
    (hMagnitude : magnitude < f.signBit) :
    f.decode (magnitude + if negative then f.signBit else 0) =
      if magnitude / twoTo f.fractionBits = twoTo f.exponentBits - 1 then
        if magnitude % twoTo f.fractionBits = 0 then .infinite negative else .nan
      else if magnitude / twoTo f.fractionBits = 0 then
        .finite negative (magnitude % twoTo f.fractionBits) f.lowest
      else .finite negative (magnitude % twoTo f.fractionBits + twoTo f.fractionBits)
        (f.lowest + ((magnitude / twoTo f.fractionBits : Nat) - 1 : Int)) := by
  cases negative with
  | false => simp [decode, Nat.mod_eq_of_lt hMagnitude, Nat.not_le_of_lt hMagnitude]
  | true => simp [decode, Nat.mod_eq_of_lt hMagnitude]

theorem signBit_eq (f : BinaryFormat) :
    f.signBit = twoTo f.exponentBits * twoTo f.fractionBits := by
  rw [signBit, twoTo, twoTo, twoTo, Nat.pow_eq, Nat.pow_add, Nat.mul_comm]
  rfl

/-- The bits of a number say what the number is. -/
theorem decode_pattern (h : f.Regular significand scale) (negative : Bool) :
    f.decode (f.pattern significand scale + if negative then f.signBit else 0) =
      .finite negative significand scale := by
  have hPower := twoTo_pos f.fractionBits
  have hFinite := h.finite
  have hMagnitude : f.pattern significand scale < f.signBit := by
    rw [signBit_eq]
    exact Nat.lt_of_lt_of_le hFinite (Nat.mul_le_mul_right _ (Nat.sub_le _ _))
  rw [decode_eq f negative hMagnitude]
  rcases Nat.lt_or_ge significand (twoTo f.fractionBits) with hShort | hFull
  · have hScale : scale = f.lowest := h.full.resolve_right (Nat.not_le_of_lt hShort)
    have hPattern : f.pattern significand scale = significand := by
      rw [pattern, hScale]
      simp
    have hNotLast : ¬0 = twoTo f.exponentBits - 1 := fun hLast => by
      rw [infinityBits, ← hLast, Nat.zero_mul] at hFinite
      exact Nat.not_lt_zero _ hFinite
    rw [hPattern, Nat.div_eq_of_lt hShort, Nat.mod_eq_of_lt hShort, if_neg hNotLast, if_pos rfl,
      hScale]
  · obtain ⟨fraction, rfl⟩ := Nat.exists_eq_add_of_le' hFull
    have hFraction : fraction < twoTo f.fractionBits := by
      have hFits := h.lt
      rw [twoTo_succ] at hFits
      omega
    have hPattern : f.pattern (fraction + twoTo f.fractionBits) scale =
        fraction + twoTo f.fractionBits * ((scale - f.lowest).toNat + 1) := by
      rw [pattern]
      ring
    have hField : f.pattern (fraction + twoTo f.fractionBits) scale / twoTo f.fractionBits =
        (scale - f.lowest).toNat + 1 := by
      rw [hPattern, Nat.add_mul_div_left _ _ hPower, Nat.div_eq_of_lt hFraction, Nat.zero_add]
    have hRest : f.pattern (fraction + twoTo f.fractionBits) scale % twoTo f.fractionBits =
        fraction := by
      rw [hPattern, Nat.add_mul_mod_self_left, Nat.mod_eq_of_lt hFraction]
    have hBelow : (scale - f.lowest).toNat + 1 < twoTo f.exponentBits - 1 := by
      rw [← hField]
      exact (Nat.div_lt_iff_lt_mul hPower).mpr hFinite
    have hLowest := h.lowest
    rw [hField, hRest, if_neg hBelow.ne, if_neg (Nat.succ_ne_zero _)]
    congr 1
    omega

/-- What the bits of a finite number say gives them back. -/
theorem regular_of_decode {bits : Nat} {negative : Bool} (hBits : bits < 2 * f.signBit)
    (h : f.decode bits = .finite negative significand scale) :
    f.Regular significand scale ∧
      bits = f.pattern significand scale + if negative then f.signBit else 0 := by
  obtain ⟨magnitude, sign, hMagnitude, rfl⟩ : ∃ (magnitude : Nat) (sign : Bool),
      magnitude < f.signBit ∧ bits = magnitude + if sign then f.signBit else 0 := by
    rcases Nat.lt_or_ge bits f.signBit with hSmall | hLarge
    · exact ⟨bits, false, hSmall, rfl⟩
    · exact ⟨bits - f.signBit, true, by omega, by simp; omega⟩
  have hField : magnitude / twoTo f.fractionBits < twoTo f.exponentBits :=
    (Nat.div_lt_iff_lt_mul (twoTo_pos _)).mpr (f.signBit_eq ▸ hMagnitude)
  have hFraction : magnitude % twoTo f.fractionBits < twoTo f.fractionBits :=
    Nat.mod_lt _ (twoTo_pos _)
  have hSplit := Nat.div_add_mod' magnitude (twoTo f.fractionBits)
  rw [decode_eq f sign hMagnitude] at h
  generalize magnitude / twoTo f.fractionBits = field at *
  generalize magnitude % twoTo f.fractionBits = fraction at *
  split at h
  · split at h <;> simp at h
  · rename_i hNotLast
    -- The last field is that of infinity, so the others stay below it.
    have hFinite : magnitude < f.infinityBits := by
      have hNext : (field + 1) * twoTo f.fractionBits ≤
          (twoTo f.exponentBits - 1) * twoTo f.fractionBits :=
        Nat.mul_le_mul_right _ (by omega)
      rw [Nat.add_mul, Nat.one_mul] at hNext
      exact Nat.lt_of_lt_of_le (by omega) hNext
    split at h
    · rename_i hZero
      simp only [BinaryValue.finite.injEq] at h
      obtain ⟨rfl, rfl, rfl⟩ := h
      have hPattern : f.pattern fraction f.lowest = magnitude := by
        rw [pattern, ← hSplit, hZero]
        simp
      refine ⟨⟨?_, le_refl _, .inl rfl, hPattern ▸ hFinite⟩, by rw [hPattern]⟩
      rw [twoTo_succ]
      omega
    · rename_i hNotZero
      simp only [BinaryValue.finite.injEq] at h
      obtain ⟨rfl, rfl, rfl⟩ := h
      have hPattern : f.pattern (fraction + twoTo f.fractionBits) (f.lowest + (field - 1 : Int)) =
          magnitude := by
        rw [pattern, ← hSplit,
          show (f.lowest + (field - 1 : Int) - f.lowest).toNat = field - 1 by omega,
          Nat.sub_mul, Nat.one_mul]
        have hAtLeast : twoTo f.fractionBits ≤ field * twoTo f.fractionBits :=
          Nat.le_mul_of_pos_left _ (Nat.pos_of_ne_zero hNotZero)
        omega
      refine ⟨⟨?_, by omega, .inr (Nat.le_add_left _ _), hPattern ▸ hFinite⟩, by rw [hPattern]⟩
      rw [twoTo_succ]
      omega

end BinaryFormat

end Patchbay
