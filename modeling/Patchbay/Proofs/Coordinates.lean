import Mathlib
import Patchbay.Patch.Reader
import Patchbay.Proofs.Nearest
import Patchbay.Proofs.Shortest

/-
The numbers in a directive.

Indices are whole numbers and are read digit by digit.  A coordinate is read as a number of
single precision first, so it comes back as it was written only where single precision holds
every whole number, which is up to two to the twenty-fourth.
-/

namespace Patchbay

/-- A whole number that single precision holds is read exactly. -/
theorem Single.read?_whole {n : Nat} (hPos : 0 < n) (hSmall : n ≤ 2 ^ 24) {token : List Char}
    {negative : Bool} (hToken : NumberToken.read? token = some (.decimal negative n 0)) :
    ∃ x significand scale, readFinite? token = some x ∧
      value x = .finite negative significand scale ∧ (significand : ℚ) * 2 ^ scale = n := by
  obtain ⟨significand, scale, hRegular, hWhole⟩ := held_of_le hSmall
  have hSome : 0 < significand := by
    refine Nat.pos_of_ne_zero fun hZero => hPos.ne ?_
    rw [hZero, Nat.cast_zero, zero_mul] at hWhole
    exact_mod_cast hWhole
  have hHolds : (RoundingInterval.around .single significand scale).Holds
      (⟨n, 0⟩ : Numeral).value := by
    rw [Numeral.value, zpow_zero, mul_one, ← hWhole]
    exact BinaryFormat.holds_around_self hSome scale
  have hRead : read? token = some (ofPattern (BinaryFormat.single.pattern significand scale +
      if negative then BinaryFormat.single.signBit else 0)) := by
    rw [read?, hToken, Option.map_some, BinaryFormat.encodeToken,
      BinaryFormat.encodeDecimal_of_holds hRegular hSome hHolds]
  have hValue := value_ofPattern hRegular negative
  refine ⟨_, significand, scale, ?_, hValue, hWhole⟩
  rw [readFinite?, hRead, Option.filter_some, isFinite, hValue]
  rfl

/-! ### Reading what was written -/

theorem toList_toString_int (x : Int) : (toString x).toList =
    if x < 0 then '-' :: Nat.toDigits 10 x.natAbs else Nat.toDigits 10 x.natAbs := by
  rw [Int.toString_eq_repr, Int.repr_eq_if]
  split
  · rename_i hNonneg
    rw [if_neg (not_lt_of_ge hNonneg), Nat.repr_eq_ofList_toDigits, String.toList_ofList,
      show x.toNat = x.natAbs by omega]
  · rename_i hNegative
    rw [if_pos (lt_of_not_ge hNegative), String.toList_append, Nat.repr_eq_ofList_toDigits,
      show (-x).toNat = x.natAbs by omega]
    exact congrArg (List.cons '-') String.toList_ofList

theorem read?_toString_int (x : Int) : NumberToken.read? (toString x).toList =
    some (.decimal (decide (x < 0)) x.natAbs 0) := by
  have hDigits := allDigits_toDigits x.natAbs
  have hRead := readDecimal_whole hDigits Nat.toDigits_ne_nil
  rw [digitsValue_toDigits] at hRead
  obtain ⟨hPlain, hSigned⟩ :=
    read?_unsigned (fun c hc => hDigits c (List.mem_of_mem_head? hc)) hRead
  rw [toList_toString_int]
  split
  · rename_i hNegative
    rw [decide_eq_true hNegative]
    exact hSigned
  · rename_i hNonneg
    rw [decide_eq_false hNonneg]
    exact hPlain

namespace Patch

/-- **A coordinate comes back as it was written, as far as single precision is exact.** -/
theorem coordinate_toString (line : Nat) {x : Int} (hSmall : x.natAbs ≤ 2 ^ 24) :
    coordinate line (toString x) = .ok x := by
  obtain ⟨y, hRead, hWhole⟩ : ∃ y, Single.readFinite? (toString x).toList = some y ∧
      Single.truncateWithin y lowestCoordinate highestCoordinate = x := by
    rcases Nat.eq_zero_or_pos x.natAbs with hZero | hPos
    · obtain rfl := Int.natAbs_eq_zero.mp hZero
      have hText : (Single.readFinite? (toString (0 : Int)).toList).any fun y =>
          Single.truncateWithin y lowestCoordinate highestCoordinate == 0 := by
        decide +kernel
      obtain ⟨y, hy, hTruncated⟩ := (Option.any_eq_true _ _).mp hText
      exact ⟨y, hy, beq_iff_eq.mp hTruncated⟩
    · obtain ⟨y, significand, scale, hRead, hValue, hWhole⟩ :=
        Single.read?_whole hPos hSmall (read?_toString_int x)
      have hLow : lowestCoordinate = -2147483648 := by decide
      have hHigh : highestCoordinate = 2147483647 := by decide
      refine ⟨y, hRead, ?_⟩
      rw [Single.truncateWithin, hValue, BinaryValue.truncateWithin,
        BinaryValue.wholePart_eq hWhole, hLow, hHigh]
      simp only [decide_eq_true_eq]
      split <;> omega
  rw [coordinate, hRead]
  exact congrArg Except.ok hWhole

/-- An index comes back as it was written. -/
theorem index_toString (line : Nat) {n : Nat} (hSmall : n < indexLimit) :
    index line (toString n) = .ok n := by
  have hDigits := allDigits_toDigits n
  have hPlain : ∀ rest, Nat.toDigits 10 n ≠ '+' :: rest := by
    intro rest hPlus
    exact absurd (hDigits '+' (hPlus ▸ List.mem_cons_self)) (by decide)
  have hRead : readIndex? (toString n) = some n := by
    unfold readIndex?
    rw [toList_toString]
    split
    · rename_i rest hText
      exact absurd hText (hPlain rest)
    · have hAll : (Nat.toDigits 10 n).all Char.isDigit = true := List.all_eq_true.mpr hDigits
      simp [hAll, Nat.toDigits_ne_nil, hSmall]
  rw [index, hRead]

theorem tableValue_text (line : Nat) {x : Float32} (h : Single.isFinite x = true) :
    tableValue line (Single.text x) = .ok x := by
  rw [tableValue, Single.readFinite?_text h]

end Patch

end Patchbay
