import Mathlib
import Patchbay.Proofs.Exact
import Patchbay.Proofs.Numerals

/-
The shortest numeral of a number reads back as the number.

What is written for a number is a decimal in its interval, so reading it rounds to the
number again.  That there is such a decimal with seventeen digits is a matter of size: the
grid of seventeen digits is finer than the interval, also if the power of ten above the
number is only estimated.  The estimate is good enough for the scales of single precision,
of which there are few.
-/

namespace Patchbay

/-! ### Decimals as rationals -/

namespace Numeral

/-- The number that a decimal stands for. -/
def value (n : Numeral) : ℚ :=
  n.digits * 10 ^ n.exponent

theorem value_shift (digits k : Nat) (exponent : Int) :
    (⟨digits * tenTo k, exponent - k⟩ : Numeral).value = (⟨digits, exponent⟩ : Numeral).value := by
  have hPower : (10 : ℚ) ^ k ≠ 0 := by positivity
  simp only [value]
  rw [Nat.cast_mul, cast_tenTo, zpow_sub₀ (by norm_num), zpow_natCast]
  field_simp

/-- Dropping zeros at the end changes nothing. -/
theorem value_trimWithin (fuel : Nat) : ∀ n : Numeral, (n.trimWithin fuel).value = n.value := by
  induction fuel with
  | zero => exact fun _ => rfl
  | succ fuel ih =>
      intro n
      rw [trimWithin]
      split
      · rename_i hZero
        have hDigits : n.digits = n.digits / 10 * tenTo 1 := by
          rw [show tenTo 1 = 10 from rfl]
          omega
        have hShift := value_shift (n.digits / 10) 1 (n.exponent + 1)
        rw [← hDigits, Nat.cast_one, Int.add_sub_cancel] at hShift
        rw [ih, ← hShift]
      · rfl

theorem div_lt_value_iff {a d : Nat} (hd : 0 < d) (n : Numeral) : (a : ℚ) / d < n.value ↔
    a * tenTo (-n.exponent).toNat < n.digits * (d * tenTo n.exponent.toNat) := by
  have hd' : (0 : ℚ) < d := Nat.cast_pos.mpr hd
  rw [value, ← tenTo_div_tenTo, ← mul_div_assoc, div_lt_div_iff₀ hd' (cast_tenTo_pos _),
    mul_assoc, mul_comm _ (d : ℚ)]
  exact_mod_cast Iff.rfl

theorem value_lt_div_iff {a d : Nat} (hd : 0 < d) (n : Numeral) : n.value < (a : ℚ) / d ↔
    n.digits * (d * tenTo n.exponent.toNat) < a * tenTo (-n.exponent).toNat := by
  have hd' : (0 : ℚ) < d := Nat.cast_pos.mpr hd
  rw [value, ← tenTo_div_tenTo, ← mul_div_assoc, div_lt_div_iff₀ (cast_tenTo_pos _) hd',
    mul_assoc, mul_comm _ (d : ℚ)]
  exact_mod_cast Iff.rfl

end Numeral

/-! ### Decimals in an interval -/

namespace RoundingInterval

/-- The value of an interval lies strictly inside it. -/
structure Proper (i : RoundingInterval) : Prop where
  denominator : 0 < i.denominator
  low : i.low < i.value
  high : i.value < i.high

theorem proper_around (f : BinaryFormat) {significand : Nat} (hPos : 0 < significand)
    (scale : Int) : (around f significand scale).Proper := by
  have hUp := twoTo_pos (scale - 2).toNat
  refine ⟨twoTo_pos _, Nat.mul_lt_mul_of_pos_right ?_ hUp, Nat.mul_lt_mul_of_pos_right ?_ hUp⟩
  · split <;> omega
  · omega

variable {i : RoundingInterval}

/-- A decimal lies in the interval if it compares with the ends as the search for it does. -/
theorem Proper.holds (h : i.Proper) {n : Numeral}
    (hLow : i.low * tenTo (-n.exponent).toNat < n.digits * (i.denominator * tenTo n.exponent.toNat) ∨
      i.closed = true ∧
        i.low * tenTo (-n.exponent).toNat = n.digits * (i.denominator * tenTo n.exponent.toNat))
    (hHigh : n.digits * (i.denominator * tenTo n.exponent.toNat) < i.high * tenTo (-n.exponent).toNat ∨
      i.closed = true ∧
        n.digits * (i.denominator * tenTo n.exponent.toNat) = i.high * tenTo (-n.exponent).toNat) :
    i.Holds n.value := by
  refine ⟨?_, ?_, fun hOpen => ⟨?_, ?_⟩⟩
  · rw [← not_lt, Numeral.value_lt_div_iff h.denominator]
    omega
  · rw [← not_lt, Numeral.div_lt_value_iff h.denominator]
    omega
  · rw [Numeral.div_lt_value_iff h.denominator]
    exact hLow.resolve_right fun hClosed => by simp [hOpen] at hClosed
  · rw [Numeral.value_lt_div_iff h.denominator]
    exact hHigh.resolve_right fun hClosed => by simp [hOpen] at hClosed

/-- What the search finds lies in the interval. -/
theorem Proper.holds_of_withDigits (h : i.Proper) {k : Nat} {n : Numeral}
    (hFound : i.withDigits k = some n) : i.Holds n.value := by
  simp only [withDigits] at hFound
  generalize hExponent : i.magnitude - k = exponent at hFound
  have hUnit : 0 < i.denominator * tenTo exponent.toNat := Nat.mul_pos h.denominator (tenTo_pos _)
  have hShift := tenTo_pos (-exponent).toNat
  have hLow := Nat.mul_lt_mul_of_pos_right h.low hShift
  have hHigh := Nat.mul_lt_mul_of_pos_right h.high hShift
  have hUnder := Nat.div_mul_le_self (i.value * tenTo (-exponent).toNat)
    (i.denominator * tenTo exponent.toNat)
  have hOver := Nat.lt_div_mul_add hUnit (a := i.value * tenTo (-exponent).toNat)
  rw [← Nat.succ_mul] at hOver
  split at hFound
  · rename_i hFits
    obtain rfl := Option.some.inj hFound
    refine h.holds (.inl (Nat.lt_trans hLow hOver)) ?_
    simpa using (Bool.and_eq_true_iff.mp hFits).1
  · split at hFound
    · rename_i hFits
      obtain rfl := Option.some.inj hFound
      refine h.holds ?_ (.inl (Nat.lt_of_le_of_lt hUnder hHigh))
      simpa using hFits
    · simp at hFound

/-- A grid that is finer than the interval has a decimal in it. -/
theorem Proper.isSome_withDigits (h : i.Proper) {k : Nat}
    (hFine : (i.low : ℚ) / i.denominator + 10 ^ (i.magnitude - k) ≤ i.value / i.denominator) :
    (i.withDigits k).isSome := by
  simp only [withDigits]
  generalize hExponent : i.magnitude - k = exponent at *
  have hUnit : 0 < i.denominator * tenTo exponent.toNat := Nat.mul_pos h.denominator (tenTo_pos _)
  have hOver := Nat.lt_div_mul_add hUnit (a := i.value * tenTo (-exponent).toNat)
  have hGrid : i.low * tenTo (-exponent).toNat + i.denominator * tenTo exponent.toNat ≤
      i.value * tenTo (-exponent).toNat := by
    have hDenominator : (0 : ℚ) < i.denominator := Nat.cast_pos.mpr h.denominator
    rw [← tenTo_div_tenTo, div_add' _ _ _ hDenominator.ne',
      div_le_div_iff_of_pos_right hDenominator, div_mul_eq_mul_div, ← le_sub_iff_add_le',
      div_le_iff₀ (cast_tenTo_pos _), sub_mul] at hFine
    have hCast : (i.low * tenTo (-exponent).toNat + i.denominator * tenTo exponent.toNat : ℚ) ≤
        i.value * tenTo (-exponent).toNat := by
      linarith
    exact_mod_cast hCast
  have hUnderFits : i.low * tenTo (-exponent).toNat <
      i.value * tenTo (-exponent).toNat / (i.denominator * tenTo exponent.toNat) *
        (i.denominator * tenTo exponent.toNat) := by
    omega
  split
  · rfl
  · split
    · rfl
    · rename_i hNot
      simp [hUnderFits] at hNot

/-- The search ends at a grid that has a decimal in the interval, if it comes to one. -/
theorem Proper.holds_shortestFrom (h : i.Proper) (fuel : Nat) : ∀ k : Nat,
    (∃ m, k ≤ m ∧ m < k + fuel ∧ (i.withDigits m).isSome) →
      i.Holds (i.shortestFrom fuel k).value := by
  induction fuel with
  | zero =>
      rintro k ⟨m, hFrom, hTo, -⟩
      exact absurd hTo (Nat.not_lt_of_le hFrom)
  | succ fuel ih =>
      rintro k ⟨m, hFrom, hTo, hSome⟩
      rw [shortestFrom_succ]
      cases hHere : i.withDigits k with
      | some n => exact h.holds_of_withDigits hHere
      | none =>
          refine ih (k + 1) ⟨m, ?_, by omega, hSome⟩
          rcases Nat.eq_or_lt_of_le hFrom with rfl | hLt
          · simp [hHere] at hSome
          · exact hLt

theorem magnitudeFrom_le (i : RoundingInterval) (fuel : Nat) : ∀ start : Int,
    i.magnitudeFrom fuel start ≤ start + fuel := by
  induction fuel with
  | zero => exact fun start => Int.le_add_of_nonneg_right (Int.natCast_nonneg _)
  | succ fuel ih =>
      intro start
      rw [magnitudeFrom]
      split
      · omega
      · have hRest := ih (start + 1)
        omega

end RoundingInterval

/-! ### Numbers of single precision -/

namespace BinaryFormat

variable {significand : Nat} {scale : Int}

/-- The scale of the largest numbers of single precision. -/
theorem Regular.scale_le (h : single.Regular significand scale) : scale ≤ 104 := by
  have hFinite : (scale - -149).toNat * 8388608 + significand < 2139095040 := h.finite
  have hFull : scale = -149 ∨ 8388608 ≤ significand := h.full
  omega

/-- Seventeen digits are fine enough for every scale of single precision, with room for an
estimate that is a few powers of ten too high. -/
theorem grid_fine (hLow : single.lowest ≤ scale) (hHigh : scale ≤ 104) :
    (10 : ℚ) ^ ((scale + 22) * 30103 / 100000 - 13) ≤ 2 ^ (scale - 2) := by
  have hAll : ∀ k : Nat, k < 254 → tenTo (((k : Int) - 149 + 22) * 30103 / 100000 - 13).toNat *
      twoTo (-((k : Int) - 149 - 2)).toNat ≤ twoTo ((k : Int) - 149 - 2).toNat *
        tenTo (-(((k : Int) - 149 + 22) * 30103 / 100000 - 13)).toNat := by
    decide +kernel
  have hLowest : single.lowest = -149 := by decide
  have hScale : ((scale + 149).toNat : Int) - 149 = scale := by omega
  have hFine := hAll (scale + 149).toNat (by omega)
  rw [hScale] at hFine
  rw [← tenTo_div_tenTo, ← twoTo_div_twoTo, div_le_div_iff₀ (cast_tenTo_pos _) (cast_twoTo_pos _)]
  exact_mod_cast hFine

/-- The power of ten above a number is not estimated much too high. -/
theorem magnitude_le (h : single.Regular significand scale) (hPos : 0 < significand) :
    (RoundingInterval.around single significand scale).magnitude ≤
      (scale + 22) * 30103 / 100000 + 4 := by
  have hValue : (RoundingInterval.around single significand scale).value.log2 <
      26 + (scale - 2).toNat := by
    have hUp := twoTo_pos (scale - 2).toNat
    have hLt : 4 * significand < 2 ^ 26 := by
      have hFits : significand < 16777216 := h.lt
      omega
    refine (Nat.log2_lt (Nat.mul_pos (Nat.mul_pos (by decide) hPos) hUp).ne').mpr ?_
    rw [Nat.pow_add]
    exact Nat.mul_lt_mul_of_pos_right hLt hUp
  have hDenominator : (RoundingInterval.around single significand scale).denominator.log2 =
      (2 - scale).toNat :=
    Nat.log2_two_pow
  have hFrom := (RoundingInterval.around single significand scale).magnitudeFrom_le 5
    ((((RoundingInterval.around single significand scale).value.log2 : Int) -
      (RoundingInterval.around single significand scale).denominator.log2 - 1) * 30103 / 100000 - 1)
  refine hFrom.trans ?_
  rw [hDenominator]
  have hBinary : ((RoundingInterval.around single significand scale).value.log2 : Int) -
      (2 - scale).toNat - 1 ≤ scale + 22 := by
    omega
  have hMono := Int.ediv_le_ediv (show (0 : Int) < 100000 by decide)
    (Int.mul_le_mul_of_nonneg_right hBinary (show (0 : Int) ≤ 30103 by decide))
  omega

/-- **The shortest decimal for a number lies in its interval.** -/
theorem holds_shortest (h : single.Regular significand scale) (hPos : 0 < significand) :
    (RoundingInterval.around single significand scale).Holds
      (single.shortest significand scale).value := by
  have hProper := RoundingInterval.proper_around single hPos scale
  rw [shortest, Numeral.value_trimWithin]
  refine hProper.holds_shortestFrom 17 1 ⟨17, by decide, by decide, hProper.isSome_withDigits ?_⟩
  have hMagnitude := magnitude_le h hPos
  have hGrid : (10 : ℚ) ^ ((RoundingInterval.around single significand scale).magnitude - (17 : Nat)) ≤
      2 ^ (scale - 2) :=
    (zpow_le_zpow_right₀ (by norm_num) (by omega)).trans (grid_fine h.lowest h.scale_le)
  have hMargin : (1 : ℚ) / 4 ≤ single.margin significand scale := by
    rw [margin]
    split <;> norm_num
  rw [two_zpow_sub_two] at hGrid
  rw [low_around single hPos, value_around]
  have hBelow := mul_le_mul_of_nonneg_right hMargin (zpow_pos two_pos scale).le
  refine (add_le_add (le_refl _) hGrid).trans ?_
  linarith

/-- What lies in the interval of a number is neither huge nor tiny. -/
theorem bounds_of_holds (h : single.Regular significand scale) (hPos : 0 < significand) {x : ℚ}
    (hHolds : (RoundingInterval.around single significand scale).Holds x) :
    (2 : ℚ) ^ (-150 : Int) ≤ x ∧ x < 2 ^ (129 : Int) := by
  obtain ⟨hLow, hHigh, -⟩ := (holds_around_iff hPos).mp hHolds
  have hPower : (0 : ℚ) < 2 ^ scale := zpow_pos two_pos scale
  have hMargin := single.margin_le significand scale
  have hOne : (1 : ℚ) ≤ significand := Nat.one_le_cast.mpr hPos
  have hFits : (significand : ℚ) + 1 ≤ 2 ^ 24 := by exact_mod_cast h.lt
  have hLowest : (-149 : Int) ≤ scale := h.lowest
  rw [le_div_iff₀ hPower] at hLow
  rw [div_le_iff₀ hPower] at hHigh
  constructor
  · calc (2 : ℚ) ^ (-150 : Int) ≤ 2 ^ (scale - 1) := zpow_le_zpow_right₀ one_le_two (by omega)
      _ = 1 / 2 * 2 ^ scale := by rw [zpow_sub_one₀ two_ne_zero]; ring
      _ ≤ (significand - single.margin significand scale) * 2 ^ scale :=
        mul_le_mul_of_nonneg_right (by linarith) hPower.le
      _ ≤ x := hLow
  · calc x ≤ (significand + 1 / 2) * 2 ^ scale := hHigh
      _ < 2 ^ (24 : Int) * 2 ^ scale := mul_lt_mul_of_pos_right (by norm_num at hFits ⊢; linarith) hPower
      _ = 2 ^ (24 + scale) := (zpow_add₀ two_ne_zero _ _).symm
      _ ≤ 2 ^ (129 : Int) := zpow_le_zpow_right₀ one_le_two (by have := h.scale_le; omega)

theorem length_toString_bounds {n : Nat} (hPos : 0 < n) :
    (10 : ℚ) ^ (((toString n).length : Int) - 1) ≤ n ∧ (n : ℚ) < 10 ^ ((toString n).length : Int) := by
  have hLength : (toString n).length = (Nat.toDigits 10 n).length := by
    rw [← toList_toString, String.length_toList]
  have hLengthPos : 0 < (Nat.toDigits 10 n).length := List.length_pos_of_ne_nil Nat.toDigits_ne_nil
  rw [hLength]
  generalize hk : (Nat.toDigits 10 n).length = k at *
  obtain ⟨k, rfl⟩ := Nat.exists_eq_succ_of_ne_zero hLengthPos.ne'
  have hUpper : n < 10 ^ (k + 1) :=
    (Nat.length_toDigits_le_iff (by decide) (Nat.succ_pos k)).mp hk.le
  have hLower : 10 ^ k ≤ n := by
    rcases Nat.eq_zero_or_pos k with rfl | hk'
    · exact hPos
    · by_contra hLt
      have hShort := (Nat.length_toDigits_le_iff (by decide) hk').mpr (Nat.lt_of_not_le hLt)
      omega
  constructor
  · rw [Nat.cast_succ, add_sub_cancel_right, zpow_natCast]
    exact_mod_cast hLower
  · rw [zpow_natCast]
    exact_mod_cast hUpper

/-- So many digits before the point would make a decimal huge, and so few would make it tiny. -/
theorem length_add_exponent_bounds {digits : Nat} {exponent : Int} (hPos : 0 < digits)
    (hLow : (2 : ℚ) ^ (-150 : Int) ≤ digits * 10 ^ exponent)
    (hHigh : (digits : ℚ) * 10 ^ exponent < 2 ^ (129 : Int)) :
    -400 ≤ ((toString digits).length : Int) + exponent ∧
      ((toString digits).length : Int) + exponent ≤ 400 := by
  obtain ⟨hAtLeast, hLess⟩ := length_toString_bounds hPos
  have hTen : (0 : ℚ) < 10 ^ exponent := zpow_pos (by norm_num) exponent
  constructor
  · by_contra hFar
    have hTiny : (digits : ℚ) * 10 ^ exponent < 10 ^ (-50 : Int) := by
      calc (digits : ℚ) * 10 ^ exponent < 10 ^ ((toString digits).length : Int) * 10 ^ exponent :=
            mul_lt_mul_of_pos_right hLess hTen
        _ = 10 ^ (((toString digits).length : Int) + exponent) :=
            (zpow_add₀ (by norm_num) _ _).symm
        _ ≤ 10 ^ (-50 : Int) := zpow_le_zpow_right₀ (by norm_num) (by omega)
    have hOrder : (10 : ℚ) ^ (-50 : Int) < 2 ^ (-150 : Int) := by norm_num
    exact lt_irrefl _ ((hLow.trans_lt hTiny).trans hOrder)
  · by_contra hFar
    have hHuge : (10 : ℚ) ^ (40 : Int) ≤ digits * 10 ^ exponent := by
      calc (10 : ℚ) ^ (40 : Int) ≤ 10 ^ (((toString digits).length : Int) - 1 + exponent) :=
            zpow_le_zpow_right₀ (by norm_num) (by omega)
        _ = 10 ^ (((toString digits).length : Int) - 1) * 10 ^ exponent :=
            zpow_add₀ (by norm_num) _ _
        _ ≤ digits * 10 ^ exponent := mul_le_mul_of_nonneg_right hAtLeast hTen.le
    have hOrder : (2 : ℚ) ^ (129 : Int) < 10 ^ (40 : Int) := by norm_num
    exact lt_irrefl _ ((hHuge.trans_lt hHigh).trans hOrder)

/-- **A decimal in the interval of a number is read as the number.** -/
theorem encodeDecimal_of_holds (h : single.Regular significand scale) (hPos : 0 < significand)
    {digits : Nat} {exponent : Int}
    (hHolds : (RoundingInterval.around single significand scale).Holds
      (⟨digits, exponent⟩ : Numeral).value) :
    single.encodeDecimal digits exponent = single.pattern significand scale := by
  obtain ⟨hLow, hHigh⟩ := bounds_of_holds h hPos hHolds
  simp only [Numeral.value] at hLow hHigh
  have hDigits : 0 < digits := by
    rcases Nat.eq_zero_or_pos digits with rfl | hDigits
    · rw [Nat.cast_zero, zero_mul] at hLow
      exact absurd (zpow_pos two_pos _) (not_lt_of_ge hLow)
    · exact hDigits
  obtain ⟨hNotTiny, hNotFar⟩ := length_add_exponent_bounds hDigits hLow hHigh
  have hRatio : ((digits * tenTo exponent.toNat : Nat) : ℚ) / (tenTo (-exponent).toNat : Nat) =
      (⟨digits, exponent⟩ : Numeral).value := by
    rw [Nat.cast_mul, mul_div_assoc, tenTo_div_tenTo]
    rfl
  have hEncode := encodeRatio_of_holds h hPos (tenTo_pos (-exponent).toNat) (hRatio ▸ hHolds)
  rw [← hEncode]
  change (if digits = 0 then 0
    else if (400 : Int) < ((toString digits).length : Int) + exponent then single.infinityBits
    else if ((toString digits).length : Int) + exponent < -400 then 0
    else single.encodeRatio (digits * tenTo exponent.toNat) (tenTo (-exponent).toNat)) = _
  rw [if_neg hDigits.ne', if_neg (not_lt_of_ge hNotFar), if_neg (not_lt_of_ge hNotTiny)]

end BinaryFormat

/-! ### Text of a number -/

/-- The text of a magnitude, without its sign. -/
def BinaryFormat.magnitudeText (f : BinaryFormat) (significand : Nat) (scale : Int) : List Char :=
  if significand = 0 then ['0'] else (f.shortest significand scale).positional

theorem BinaryFormat.toList_plainText (f : BinaryFormat) (negative : Bool) (significand : Nat)
    (scale : Int) : (f.plainText (.finite negative significand scale)).toList =
      if negative then '-' :: f.magnitudeText significand scale
      else f.magnitudeText significand scale := by
  have hText : f.plainText (.finite negative significand scale) =
      if significand = 0 then String.ofList (if negative then '-' :: ['0'] else ['0'])
      else String.ofList (if negative then '-' :: (f.shortest significand scale).positional
        else (f.shortest significand scale).positional) := rfl
  rw [hText, magnitudeText]
  split <;> split <;> exact String.toList_ofList

/-- The text of a magnitude reads as a decimal that is rounded to it. -/
theorem BinaryFormat.read_magnitudeText {significand : Nat} {scale : Int}
    (h : single.Regular significand scale) : ∃ digits exponent,
      readDecimal (single.magnitudeText significand scale) = some (digits, exponent) ∧
        single.encodeDecimal digits exponent = single.pattern significand scale ∧
          (∀ c ∈ (single.magnitudeText significand scale).head?, c.isDigit = true) ∧
            single.magnitudeText significand scale ≠ [] ∧
              ∀ c ∈ single.magnitudeText significand scale, isNumeric c = true := by
  rw [magnitudeText]
  split
  · rename_i hZero
    have hScale : scale = single.lowest := h.full.resolve_right fun hFull => by
      rw [hZero] at hFull
      exact absurd (twoTo_pos _) (Nat.not_lt_of_le hFull)
    have hPattern : single.pattern significand scale = 0 := by
      rw [pattern, hScale, hZero]
      simp
    exact ⟨0, 0, by decide, hPattern.symm ▸ rfl, by simp, by simp, by simp [isNumeric]⟩
  · rename_i hNotZero
    have hPos := Nat.pos_of_ne_zero hNotZero
    obtain ⟨k, hRead, hHead, hNe, hNumeric⟩ :=
      (single.shortest significand scale).read_positional
    refine ⟨_, _, hRead, encodeDecimal_of_holds h hPos ?_, hHead, hNe, hNumeric⟩
    rw [Numeral.value_shift]
    exact holds_shortest h hPos

namespace Single

variable {x : Float32}

theorem exists_of_isFinite (h : isFinite x = true) :
    ∃ negative significand scale, value x = .finite negative significand scale := by
  unfold isFinite at h
  split at h
  · rename_i negative significand scale hValue
    exact ⟨negative, significand, scale, hValue⟩
  · simp at h

/-- **The text of a finite number reads back as that number.** -/
theorem readFinite?_text (h : isFinite x = true) : readFinite? (text x).toList = some x := by
  obtain ⟨negative, significand, scale, hValue⟩ := exists_of_isFinite h
  obtain ⟨hRegular, hBits⟩ := bits_of_value hValue
  obtain ⟨digits, exponent, hRead, hEncode, hHead, -, -⟩ := BinaryFormat.read_magnitudeText hRegular
  obtain ⟨hPlain, hSigned⟩ := read?_unsigned hHead hRead
  have hToken : NumberToken.read? (text x).toList = some (.decimal negative digits exponent) := by
    rw [text, hValue, BinaryFormat.toList_plainText]
    cases negative
    · exact hPlain
    · exact hSigned
  have hNumber : read? (text x).toList = some x := by
    rw [read?, hToken, Option.map_some, BinaryFormat.encodeToken, hEncode, ← hBits]
  rw [readFinite?, hNumber, Option.filter_some, if_pos h]

/-- The text of a finite number can be a word. -/
theorem solid_text (h : isFinite x = true) : Solid (text x).toList := by
  obtain ⟨negative, significand, scale, hValue⟩ := exists_of_isFinite h
  obtain ⟨-, -, -, -, -, hNe, hNumeric⟩ :=
    BinaryFormat.read_magnitudeText (bits_of_value hValue).1
  rw [text, hValue, BinaryFormat.toList_plainText]
  cases negative with
  | false => exact solid_of_numeric hNe hNumeric
  | true => exact solid_of_numeric (List.cons_ne_nil _ _) (List.forall_mem_cons.mpr ⟨rfl, hNumeric⟩)

end Single

end Patchbay
