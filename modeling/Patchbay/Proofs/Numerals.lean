import Mathlib.Data.List.TakeWhile
import Patchbay.Number.Decimal
import Patchbay.Patch.Reader
import Patchbay.Proofs.Words

/-
Numerals as text.

The digits of a number read back as that number.  A decimal is laid out around its point
with zeros where it has no digits, and reading it gives the same digits, perhaps with some
zeros more, and the exponent that makes up for them.  Nothing in a numeral is blank, so it
can be a word.
-/

namespace Patchbay

/-! ### Digits -/

theorem toList_toString (n : Nat) : (toString n).toList = Nat.toDigits 10 n := by
  rw [Nat.toString_eq_ofList_toDigits, String.toList_ofList]

theorem digitsValue_eq (ds : List Char) : digitsValue ds = Nat.ofDigitChars 10 ds 0 := by
  rw [Nat.ofDigitChars_eq_foldl, digitsValue]
  congr 1
  funext n d
  rw [Nat.mul_comm]

@[simp] theorem digitsValue_toDigits (n : Nat) : digitsValue (Nat.toDigits 10 n) = n := by
  rw [digitsValue_eq, Nat.ofDigitChars_ten_toDigits]

theorem digitsValue_concat (ds : List Char) (d : Char) :
    digitsValue (ds ++ [d]) = digitsValue ds * 10 + (d.toNat - '0'.toNat) := by
  rw [digitsValue, List.foldl_append]
  rfl

/-- Zeros behind digits. -/
theorem digitsValue_append_zeros (ds : List Char) (k : Nat) :
    digitsValue (ds ++ List.replicate k '0') = digitsValue ds * tenTo k := by
  induction k with
  | zero => simp
  | succ k ih =>
      rw [List.replicate_succ', ← List.append_assoc, digitsValue_concat, ih, tenTo_succ,
        Nat.mul_assoc]
      rfl

/-- Zeros before digits. -/
theorem digitsValue_zeros_append (ds : List Char) (k : Nat) :
    digitsValue (List.replicate k '0' ++ ds) = digitsValue ds := by
  induction k with
  | zero => rfl
  | succ k ih =>
      rw [← ih]
      rfl

/-- Text of nothing but digits. -/
def AllDigits (ds : List Char) : Prop :=
  ∀ d ∈ ds, d.isDigit = true

theorem allDigits_toDigits (n : Nat) : AllDigits (Nat.toDigits 10 n) :=
  fun _ hd => Nat.isDigit_of_mem_toDigits (by decide) (by decide) hd

theorem allDigits_zeros (k : Nat) : AllDigits (List.replicate k '0') := by
  intro d hd
  obtain rfl := List.eq_of_mem_replicate hd
  decide

theorem AllDigits.append {ds es : List Char} (hds : AllDigits ds) (hes : AllDigits es) :
    AllDigits (ds ++ es) := fun d hd => (List.mem_append.mp hd).elim (hds d) (hes d)

/-! ### Characters of numerals -/

/-- A character that numerals without an exponent are written with. -/
def isNumeric (c : Char) : Bool :=
  c.isDigit || c == '.' || c == '-'

theorem toNat_of_isNumeric {c : Char} (h : isNumeric c = true) : 45 ≤ c.toNat ∧ c.toNat ≤ 57 := by
  rw [isNumeric, Bool.or_eq_true, Bool.or_eq_true] at h
  rcases h with (hDigit | hPoint) | hMinus
  · have hBounds : 48 ≤ c.toNat ∧ c.toNat ≤ 57 := by
      simpa [Char.isDigit, UInt32.le_iff_toNat_le] using hDigit
    omega
  · rw [beq_iff_eq.mp hPoint]
    decide
  · rw [beq_iff_eq.mp hMinus]
    decide

/-- Text of numeric characters can be a word. -/
theorem solid_of_numeric {text : List Char} (hNe : text ≠ [])
    (h : ∀ c ∈ text, isNumeric c = true) : Solid text := by
  refine ⟨hNe, fun c hc => ?_⟩
  have hBounds := toNat_of_isNumeric (h c hc)
  simp only [isBlank, Bool.or_eq_false_iff, Bool.and_eq_false_iff, decide_eq_false_iff_not,
    beq_eq_false_iff_ne]
  omega

theorem AllDigits.numeric {ds : List Char} (h : AllDigits ds) : ∀ d ∈ ds, isNumeric d = true := by
  intro d hd
  rw [isNumeric, h d hd]
  rfl

/-! ### Reading decimals -/

theorem readDecimal_whole {ds : List Char} (h : AllDigits ds) (hNe : ds ≠ []) :
    readDecimal ds = some (digitsValue ds, 0) := by
  have hTake : ds.takeWhile Char.isDigit = ds := List.takeWhile_eq_self_iff.mpr h
  have hDrop : ds.dropWhile Char.isDigit = [] := List.dropWhile_eq_nil_iff.mpr h
  simp [readDecimal, hTake, hDrop, hNe, readExponent]

theorem readDecimal_fraction {whole fraction : List Char} (hWhole : AllDigits whole)
    (hNe : whole ≠ []) (hFraction : AllDigits fraction) :
    readDecimal (whole ++ '.' :: fraction) =
      some (digitsValue (whole ++ fraction), -(fraction.length : Int)) := by
  have hTake : (whole ++ '.' :: fraction).takeWhile Char.isDigit = whole := by
    rw [List.takeWhile_append_of_pos hWhole]
    simp [List.takeWhile]
  have hDrop : (whole ++ '.' :: fraction).dropWhile Char.isDigit = '.' :: fraction := by
    rw [List.dropWhile_append_of_pos hWhole]
    simp [List.dropWhile]
  have hTakeFraction : fraction.takeWhile Char.isDigit = fraction :=
    List.takeWhile_eq_self_iff.mpr hFraction
  have hDropFraction : fraction.dropWhile Char.isDigit = [] :=
    List.dropWhile_eq_nil_iff.mpr hFraction
  simp [readDecimal, hTake, hDrop, hTakeFraction, hDropFraction, hNe, readExponent]

/-- A token without a sign that reads as a decimal. -/
theorem read?_unsigned {body : List Char} {digits : Nat} {exponent : Int}
    (hHead : ∀ c ∈ body.head?, c.isDigit = true)
    (h : readDecimal body = some (digits, exponent)) :
    NumberToken.read? body = some (.decimal false digits exponent) ∧
      NumberToken.read? ('-' :: body) = some (.decimal true digits exponent) := by
  have hSign : readSign body = (false, body) := by
    unfold readSign
    split
    · exact absurd (hHead '+' rfl) (by decide)
    · exact absurd (hHead '-' rfl) (by decide)
    · rfl
  refine ⟨?_, ?_⟩
  · rw [NumberToken.read?, hSign]
    simp only [h]
  · rw [NumberToken.read?, readSign]
    simp only [h]

namespace Numeral

variable (n : Numeral)

theorem digitText_eq : n.digitText = Nat.toDigits 10 n.digits :=
  toList_toString n.digits

theorem digitText_ne_nil : n.digitText ≠ [] := by
  rw [digitText_eq]
  exact Nat.toDigits_ne_nil

theorem allDigits_digitText : AllDigits n.digitText := by
  rw [digitText_eq]
  exact allDigits_toDigits n.digits

theorem digitsValue_digitText : digitsValue n.digitText = n.digits := by
  rw [digitText_eq, digitsValue_toDigits]

/-- **A decimal laid out around its point reads as the same decimal.**  It begins with a digit
and holds nothing but numeric characters. -/
theorem read_positional : ∃ k : Nat,
    readDecimal n.positional = some (n.digits * tenTo k, n.exponent - k) ∧
      (∀ c ∈ n.positional.head?, c.isDigit = true) ∧ n.positional ≠ [] ∧
        ∀ c ∈ n.positional, isNumeric c = true := by
  have hDigits := n.allDigits_digitText
  have hNe := n.digitText_ne_nil
  have hPoint : n.point = n.digitText.length + n.exponent := rfl
  have hLength : 0 < n.digitText.length := List.length_pos_of_ne_nil hNe
  simp only [positional]
  split
  · rename_i hSmall
    -- A whole part of zero, and zeros between the point and the digits.
    have hFraction := (allDigits_zeros (-n.point).toNat).append hDigits
    have hZero : AllDigits ['0'] := by simp [AllDigits]
    have hRead := readDecimal_fraction hZero (by simp) hFraction
    have hValue : digitsValue (['0'] ++ (List.replicate (-n.point).toNat '0' ++ n.digitText)) =
        n.digits := by
      rw [← List.append_assoc, ← List.replicate_one, List.replicate_append_replicate,
        digitsValue_zeros_append, digitsValue_digitText]
    refine ⟨0, ?_, by simp, by simp, fun c hc => ?_⟩
    · rw [hValue, List.length_append, List.length_replicate] at hRead
      refine hRead.trans ?_
      simp only [tenTo_zero, Nat.mul_one, Option.some.injEq, Prod.mk.injEq, true_and]
      omega
    · rcases List.mem_cons.mp hc with rfl | hc
      · decide
      · rcases List.mem_cons.mp hc with rfl | hc
        · decide
        · exact hFraction.numeric c hc
  · rename_i hLarge
    split
    · rename_i hWhole
      -- Zeros stand in for the digits before the point that there are not.
      have hAll := hDigits.append (allDigits_zeros (n.point.toNat - n.digitText.length))
      refine ⟨n.point.toNat - n.digitText.length, ?_, fun c hc => ?_, by simp [hNe], hAll.numeric⟩
      · rw [readDecimal_whole hAll (by simp [hNe]), digitsValue_append_zeros,
          digitsValue_digitText]
        simp only [Option.some.injEq, Prod.mk.injEq, true_and]
        omega
      · exact hAll c (List.mem_of_mem_head? hc)
    · rename_i hBetween
      have hWhole : AllDigits (n.digitText.take n.point.toNat) :=
        fun d hd => hDigits d (List.mem_of_mem_take hd)
      have hFraction : AllDigits (n.digitText.drop n.point.toNat) :=
        fun d hd => hDigits d (List.mem_of_mem_drop hd)
      have hTake : n.digitText.take n.point.toNat ≠ [] := by
        rw [← List.length_pos_iff, List.length_take]
        omega
      refine ⟨0, ?_, fun c hc => ?_, by simp, fun c hc => ?_⟩
      · rw [readDecimal_fraction hWhole hTake hFraction, List.take_append_drop,
          digitsValue_digitText, List.length_drop]
        simp only [tenTo_zero, Nat.mul_one, Option.some.injEq, Prod.mk.injEq, true_and]
        omega
      · rw [List.head?_append_of_ne_nil _ hTake] at hc
        exact hWhole c (List.mem_of_mem_head? hc)
      · rcases List.mem_append.mp hc with hc | hc
        · exact hWhole.numeric c hc
        · rcases List.mem_cons.mp hc with rfl | hc
          · decide
          · exact hFraction.numeric c hc

end Numeral

end Patchbay
