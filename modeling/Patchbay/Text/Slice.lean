/-
Text by its bytes.

A text is kept in UTF-8, where a character takes up one byte or more.  A slice from one
byte to another is only there when both stand between characters.  Digits are single
bytes that no other character holds, so a run of digits can be measured in bytes.
-/

namespace Patchbay

/-- The text from one byte up to another.  There is none when they stand in the wrong order,
inside a character or past the end. -/
def slice? (text : String) (start stop : Nat) : Option String :=
  if h : start ≤ stop ∧ String.Pos.Raw.IsValid text ⟨start⟩ ∧ String.Pos.Raw.IsValid text ⟨stop⟩ then
    some (text.extract (text.pos ⟨start⟩ h.2.1) (text.pos ⟨stop⟩ h.2.2))
  else none

/-- Whether a byte is one of the ten digits. -/
def isDigitByte (b : UInt8) : Bool :=
  48 ≤ b.toNat && b.toNat ≤ 57

/-- How many bytes at the start of a text are digits. -/
def leadingDigits (text : String) : Nat :=
  (text.toByteArray.data.toList.takeWhile isDigitByte).length

/-! ### Slices -/

/-- A part of a text is the slice from the bytes before it to the bytes behind it. -/
theorem slice?_append (a b c : String) :
    slice? (a ++ b ++ c) a.utf8ByteSize (a.utf8ByteSize + b.utf8ByteSize) = some b := by
  have hStart : String.Pos.Raw.IsValid (a ++ b ++ c) ⟨a.utf8ByteSize⟩ :=
    String.Pos.Raw.isValid_iff_exists_append.mpr ⟨a, b ++ c, String.append_assoc, rfl⟩
  have hStop : String.Pos.Raw.IsValid (a ++ b ++ c) ⟨a.utf8ByteSize + b.utf8ByteSize⟩ :=
    String.Pos.Raw.isValid_iff_exists_append.mpr
      ⟨a ++ b, c, rfl, String.Pos.Raw.ext String.utf8ByteSize_append.symm⟩
  rw [slice?, dif_pos ⟨Nat.le_add_right _ _, hStart, hStop⟩]
  refine congrArg some (String.toByteArray_inj.mp ?_)
  rw [String.toByteArray_extract, String.offset_pos, String.offset_pos, String.append_assoc,
    String.toByteArray_append, String.toByteArray_append]
  show (a.toByteArray ++ (b.toByteArray ++ c.toByteArray)).extract (a.toByteArray.size + 0)
    (a.toByteArray.size + b.toByteArray.size) = b.toByteArray
  rw [ByteArray.extract_append_size_add, ByteArray.extract_append_eq_left rfl]

/-- What is left of a text is the slice to its end. -/
theorem slice?_end (a b : String) :
    slice? (a ++ b) a.utf8ByteSize (a ++ b).utf8ByteSize = some b := by
  have h := slice?_append a b ""
  rwa [String.append_empty, ← String.utf8ByteSize_append] at h

/-! ### Digits -/

theorem isDigit_iff {c : Char} : c.isDigit = true ↔ 48 ≤ c.val.toNat ∧ c.val.toNat ≤ 57 := by
  simp only [Char.isDigit, Bool.and_eq_true, decide_eq_true_eq, ge_iff_le, UInt32.le_iff_toNat_le]
  exact Iff.rfl

theorem isDigitByte_ofNat {n : Nat} :
    isDigitByte (UInt8.ofNat n) = true ↔ 48 ≤ n % 256 ∧ n % 256 ≤ 57 := by
  simp [isDigitByte]

/-- A digit is one byte, a digit's byte. -/
theorem utf8EncodeChar_of_isDigit {c : Char} (h : c.isDigit = true) :
    ∃ b, String.utf8EncodeChar c = [b] ∧ isDigitByte b = true := by
  obtain ⟨hLow, hHigh⟩ := isDigit_iff.mp h
  refine ⟨UInt8.ofNat c.val.toNat, ?_, isDigitByte_ofNat.mpr (by omega)⟩
  rw [String.utf8EncodeChar, if_pos (by omega)]

/-- The first byte of any other character is no digit's byte. -/
theorem utf8EncodeChar_of_not_isDigit {c : Char} (h : ¬ c.isDigit = true) :
    ∃ b bytes, String.utf8EncodeChar c = b :: bytes ∧ ¬ isDigitByte b = true := by
  rw [isDigit_iff] at h
  simp only [String.utf8EncodeChar]
  split
  · exact ⟨_, _, rfl, by rw [isDigitByte_ofNat]; omega⟩
  · split
    · exact ⟨_, _, rfl, by rw [isDigitByte_ofNat]; omega⟩
    · split
      · exact ⟨_, _, rfl, by rw [isDigitByte_ofNat]; omega⟩
      · exact ⟨_, _, rfl, by rw [isDigitByte_ofNat]; omega⟩

/-- Digits are as many bytes as they are characters. -/
theorem leadingDigits_ofList (text : List Char) :
    leadingDigits (String.ofList text) = (text.takeWhile Char.isDigit).length := by
  rw [leadingDigits, String.toByteArray_ofList]
  induction text with
  | nil => rfl
  | cons c text ih =>
    rw [List.utf8Encode_cons, List.utf8Encode_singleton, ByteArray.toList_data_append,
      List.toList_data_toByteArray]
    by_cases hDigit : c.isDigit = true
    · obtain ⟨b, hBytes, hb⟩ := utf8EncodeChar_of_isDigit hDigit
      simp [hBytes, hb, hDigit, ih]
    · obtain ⟨b, bytes, hBytes, hb⟩ := utf8EncodeChar_of_not_isDigit hDigit
      simp [hBytes, hb, hDigit]

/-- Digits take up one byte each. -/
theorem utf8ByteSize_of_isDigit {digits : List Char} (h : ∀ d ∈ digits, d.isDigit = true) :
    (String.ofList digits).utf8ByteSize = digits.length := by
  induction digits with
  | nil => rfl
  | cons d digits ih =>
    obtain ⟨b, hBytes, _⟩ := utf8EncodeChar_of_isDigit (h d List.mem_cons_self)
    have hRest := ih fun e he => h e (List.mem_cons_of_mem _ he)
    rw [← String.size_toByteArray, String.toByteArray_ofList] at hRest ⊢
    rw [List.utf8Encode_cons, List.utf8Encode_singleton, hBytes, ByteArray.size_append, hRest,
      List.length_cons, Nat.add_comm]
    rfl

end Patchbay
