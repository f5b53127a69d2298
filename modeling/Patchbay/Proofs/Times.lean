import Mathlib
import Patchbay.Number.Double

/-
Times in order.

A due time is a floating point number, and those are ordered only as far as they are
numbers: a comparison with something that is not a number fails, and the two zeros are
the same time.  Every number has a `place` in a linear order, and comparing two numbers
is comparing their places.  That is all that is known about times elsewhere.
-/

namespace Patchbay

namespace Time

open Float.Model

/-- Where a number stands: first by its kind, then by exponent, then by mantissa. -/
def placeOf : UnpackedFloat → Int ×ₗ Int ×ₗ Int
  | .infinity .negative => toLex (-2, toLex (0, 0))
  | .finite .negative mantissa exponent _ => toLex (-1, toLex (-exponent, -(mantissa : Int)))
  | .zero _ => toLex (0, toLex (0, 0))
  | .finite .positive mantissa exponent _ => toLex (1, toLex (exponent, (mantissa : Int)))
  | .infinity .positive => toLex (2, toLex (0, 0))
  | .notANumber => toLex (3, toLex (0, 0))

/-- The place of a time. -/
def place (x : Float) : Int ×ₗ Int ×ₗ Int :=
  placeOf x.toModel.unpack

@[simp] theorem compareSign (s t : UnpackedFloat.Sign) : compare s t =
    match s, t with
    | .negative, .positive => .lt
    | .positive, .negative => .gt
    | _, _ => .eq := by
  cases s <;> cases t <;> rfl

theorem compare_eq_lt_iff (a b : UnpackedFloat) :
    a.compare b = some .lt ↔ a.isNaN = false ∧ b.isNaN = false ∧ placeOf a < placeOf b := by
  rcases a with ⟨_ | _⟩ | _ | _ | ⟨_ | _, m₁, e₁, _⟩ <;>
    rcases b with ⟨_ | _⟩ | _ | _ | ⟨_ | _, m₂, e₂, _⟩ <;>
    simp [UnpackedFloat.compare, UnpackedFloat.isNaN, placeOf, Prod.Lex.toLex_lt_toLex,
      Ordering.then_eq_lt, Ordering.swap_eq_lt, Ordering.then_eq_gt, compare_lt_iff_lt,
      compare_gt_iff_gt]

theorem compare_eq_eq_iff (a b : UnpackedFloat) :
    a.compare b = some .eq ↔ a.isNaN = false ∧ b.isNaN = false ∧ placeOf a = placeOf b := by
  rcases a with ⟨_ | _⟩ | _ | _ | ⟨_ | _, m₁, e₁, _⟩ <;>
    rcases b with ⟨_ | _⟩ | _ | _ | ⟨_ | _, m₂, e₂, _⟩ <;>
    simp [UnpackedFloat.compare, UnpackedFloat.isNaN, placeOf, Ordering.then_eq_eq,
      Ordering.swap_eq_eq]

theorem le_eq_true_iff (a b : UnpackedFloat) :
    a.le b = true ↔ a.isNaN = false ∧ b.isNaN = false ∧ placeOf a ≤ placeOf b := by
  have hEither : a.le b = true ↔ a.compare b = some .lt ∨ a.compare b = some .eq := by
    rw [UnpackedFloat.le]
    cases a.compare b with
    | none => simp
    | some order => cases order <;> simp
  rw [hEither, compare_eq_lt_iff, compare_eq_eq_iff, le_iff_lt_or_eq]
  tauto

/-! ### Comparing times -/

variable {a b c : Float}

theorem lt_iff : a < b ↔ a.isNaN = false ∧ b.isNaN = false ∧ place a < place b := by
  refine Iff.trans ?_ (compare_eq_lt_iff a.toModel.unpack b.toModel.unpack)
  change decide (UnpackedFloat.lt _ _ = true) = true ↔ _
  simp [UnpackedFloat.lt]

theorem beq_iff : (a == b) = true ↔ a.isNaN = false ∧ b.isNaN = false ∧ place a = place b := by
  refine Iff.trans ?_ (compare_eq_eq_iff a.toModel.unpack b.toModel.unpack)
  change UnpackedFloat.beq _ _ = true ↔ _
  simp [UnpackedFloat.beq]

theorem le_iff : a ≤ b ↔ a.isNaN = false ∧ b.isNaN = false ∧ place a ≤ place b := by
  refine Iff.trans ?_ (le_eq_true_iff a.toModel.unpack b.toModel.unpack)
  change decide (UnpackedFloat.le _ _ = true) = true ↔ _
  rw [decide_eq_true_iff]

theorem le_iff_lt_or_beq : a ≤ b ↔ a < b ∨ (a == b) = true := by
  rw [le_iff, lt_iff, beq_iff, le_iff_lt_or_eq]
  tauto

/-- Of two times that are numbers one comes first, or they are the same. -/
theorem lt_or_beq_or_gt (ha : a.isNaN = false) (hb : b.isNaN = false) :
    a < b ∨ (a == b) = true ∨ b < a := by
  rw [lt_iff, beq_iff, lt_iff]
  rcases lt_trichotomy (place a) (place b) with h | h | h
  · exact .inl ⟨ha, hb, h⟩
  · exact .inr (.inl ⟨ha, hb, h⟩)
  · exact .inr (.inr ⟨hb, ha, h⟩)

theorem lt_of_lt_of_le (hab : a < b) (hbc : b ≤ c) : a < c := by
  rw [lt_iff] at hab ⊢
  rw [le_iff] at hbc
  exact ⟨hab.1, hbc.2.1, hab.2.2.trans_le hbc.2.2⟩

theorem le_of_lt (h : a < b) : a ≤ b :=
  le_iff_lt_or_beq.mpr (.inl h)

theorem not_lt_of_le (h : a ≤ b) : ¬b < a := by
  rw [le_iff] at h
  rw [lt_iff]
  exact fun hLt => not_lt_of_ge h.2.2 hLt.2.2

/-- Times that are the same come before and after the same times. -/
theorem le_congr (h : (a == b) = true) : a ≤ c ↔ b ≤ c := by
  rw [beq_iff] at h
  rw [le_iff, le_iff, h.2.2]
  exact ⟨fun hLe => ⟨h.2.1, hLe.2⟩, fun hLe => ⟨h.1, hLe.2⟩⟩

theorem beq_symm (h : (a == b) = true) : (b == a) = true := by
  rw [beq_iff] at h ⊢
  exact ⟨h.2.1, h.1, h.2.2.symm⟩

theorem beq_trans (hab : (a == b) = true) (hbc : (b == c) = true) : (a == c) = true := by
  rw [beq_iff] at hab hbc ⊢
  exact ⟨hab.1, hbc.2.1, hab.2.2.trans hbc.2.2⟩

theorem lt_of_beq_of_lt (hab : (a == b) = true) (hbc : b < c) : a < c := by
  rw [beq_iff] at hab
  rw [lt_iff] at hbc ⊢
  exact ⟨hab.1, hbc.2.1, hab.2.2.trans_lt hbc.2.2⟩

theorem lt_of_lt_of_beq (hab : a < b) (hbc : (b == c) = true) : a < c :=
  lt_of_lt_of_le hab (le_iff_lt_or_beq.mpr (.inr hbc))

theorem beq_eq_false_of_lt (h : a < b) : (a == b) = false := by
  rw [lt_iff] at h
  rw [Bool.eq_false_iff]
  exact fun hSame => h.2.2.ne (beq_iff.mp hSame).2.2

theorem beq_eq_false_of_gt (h : b < a) : (a == b) = false := by
  rw [lt_iff] at h
  rw [Bool.eq_false_iff]
  exact fun hSame => h.2.2.ne' (beq_iff.mp hSame).2.2

/-! ### What is not a number -/

theorem not_isNaN_lt (h : a.isNaN = true) : ¬a < b := by
  rw [lt_iff, h]
  simp

theorem not_lt_isNaN (h : b.isNaN = true) : ¬a < b := by
  rw [lt_iff, h]
  simp

theorem not_isNaN_le (h : a.isNaN = true) : ¬a ≤ b := by
  rw [le_iff, h]
  simp

theorem isNaN_beq (h : a.isNaN = true) : (a == b) = false := by
  rw [Bool.eq_false_iff, Ne, beq_iff, h]
  simp

theorem beq_isNaN (h : b.isNaN = true) : (a == b) = false := by
  rw [Bool.eq_false_iff, Ne, beq_iff, h]
  simp

theorem isNaN_eq_of_beq (h : (a == b) = true) : a.isNaN = b.isNaN := by
  rw [beq_iff] at h
  rw [h.1, h.2.1]

end Time

end Patchbay
