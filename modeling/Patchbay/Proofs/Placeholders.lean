import Patchbay.Proofs.Numerals
import Patchbay.BoxText

/-
Which placeholders a text holds.

The scan of a box text counts bytes, and what a text holds is a matter of its characters.
`Cut` says the latter: a text is cut from left to right, at each place a placeholder if one
starts there, with all the digits that follow the dollar sign, and else a single character.
A text can be cut in one way only.

The scan is at the start of a piece in each of its rounds, and a round is done with exactly
the bytes of that piece.  So whatever it slices off starts and ends between characters, and
since a round looks at nothing but what is left of the text, what was put in is not looked
at.
-/

namespace Patchbay.BoxText

/-! ### Pieces -/

/-- A piece of box text. -/
inductive Piece where
  /-- A character that stands for itself. -/
  | plain (c : Char)
  /-- A dollar sign with or without a backslash before it, and digits. -/
  | placeholder (escaped : Bool) (digits : List Char)

/-- The dollar sign of a placeholder, with the backslash before it. -/
def sign (escaped : Bool) : List Char :=
  if escaped then ['\\', '$'] else ['$']

/-- Whether a placeholder starts a text. -/
def Opens (text : List Char) : Prop :=
  ∃ escaped d rest, text = sign escaped ++ d :: rest ∧ d.isDigit = true

/-- How a text is cut. -/
inductive Cut : List Char → List Piece → Prop
  | nil : Cut [] []
  | plain {c : Char} {rest : List Char} {ps : List Piece} (hOpens : ¬ Opens (c :: rest))
      (h : Cut rest ps) : Cut (c :: rest) (.plain c :: ps)
  /-- The digits go on for as long as they can. -/
  | placeholder {escaped : Bool} {digits rest : List Char} {ps : List Piece} (hSome : digits ≠ [])
      (hDigits : ∀ d ∈ digits, d.isDigit = true) (hLongest : ∀ d ∈ rest.head?, d.isDigit = false)
      (h : Cut rest ps) : Cut (sign escaped ++ (digits ++ rest)) (.placeholder escaped digits :: ps)

namespace Piece

/-- The characters of a piece. -/
def source : Piece → List Char
  | plain c => [c]
  | placeholder escaped digits => sign escaped ++ digits

/-- The number that the digits of a placeholder write; zero if 64 bits do not hold it. -/
def number (digits : List Char) : Nat :=
  if Nat.ofDigitChars 10 digits 0 < twoTo 64 then Nat.ofDigitChars 10 digits 0 else 0

/-- The atom that a placeholder stands for, counted from one. -/
def atom? (atoms : List Atom) (digits : List Char) : Option Atom :=
  if number digits = 0 then none else atoms[number digits - 1]?

/-- What is put out for a piece. -/
def filled (atoms : List Atom) : Piece → List Char
  | plain c => [c]
  | placeholder _ digits =>
    match atom? atoms digits with
    | some atom => atom.text.toList
    | none => ['0']

/-- The errors of a piece. -/
def faults (atoms : List Atom) : Piece → List Error
  | plain _ => []
  | placeholder _ digits =>
    if (atom? atoms digits).isSome then [] else [.argumentOutOfRange (number digits)]

end Piece

/-! ### There is one way to cut a text -/

theorem takeWhile_append_of_head? {p : Char → Bool} {l rest : List Char}
    (hAll : ∀ a ∈ l, p a = true)
    (hHead : ∀ a ∈ rest.head?, p a = false) : (l ++ rest).takeWhile p = l := by
  rw [List.takeWhile_append_of_pos hAll]
  cases rest with
  | nil => rw [List.takeWhile_nil, List.append_nil]
  | cons a rest => rw [List.takeWhile_cons, hHead a rfl, if_neg Bool.false_ne_true, List.append_nil]

/-- A text that starts with a sign and a digit is open. -/
theorem opens_sign {escaped : Bool} {digits rest : List Char} (hSome : digits ≠ [])
    (hDigits : ∀ d ∈ digits, d.isDigit = true) : Opens (sign escaped ++ (digits ++ rest)) := by
  cases digits with
  | nil => exact absurd rfl hSome
  | cons d digits => exact ⟨escaped, d, digits ++ rest, rfl, hDigits d List.mem_cons_self⟩

/-- A text starts with one sign. -/
theorem sign_inj {escaped escaped' : Bool} {l l' : List Char}
    (h : sign escaped ++ l = sign escaped' ++ l') : escaped = escaped' ∧ l = l' := by
  cases escaped <;> cases escaped' <;> simp_all [sign]

theorem Cut.unique {text : List Char} {ps qs : List Piece} (hp : Cut text ps) (hq : Cut text qs) :
    qs = ps := by
  induction hp generalizing qs with
  | nil =>
    generalize hText : ([] : List Char) = text at hq
    cases hq with
    | nil => rfl
    | plain => exact nomatch hText
    | @placeholder escaped => cases escaped <;> exact nomatch hText
  | @plain c rest ps hOpens _ ih =>
    generalize hText : c :: rest = text at hq
    cases hq with
    | nil => exact nomatch hText
    | plain _ hRest =>
      obtain ⟨rfl, rfl⟩ := List.cons.inj hText
      rw [ih hRest]
    | placeholder hSome hDigits => exact absurd (hText ▸ opens_sign hSome hDigits) hOpens
  | @placeholder escaped digits rest ps hSome hDigits hLongest _ ih =>
    generalize hText : sign escaped ++ (digits ++ rest) = text at hq
    cases hq with
    | nil => cases escaped <;> exact nomatch hText
    | plain hOpens => exact absurd (hText ▸ opens_sign hSome hDigits) hOpens
    | @placeholder escaped' digits' rest' qs _ hDigits' hLongest' hRest =>
      obtain ⟨rfl, hBehind⟩ := sign_inj hText
      have hSame : digits = digits' := by
        rw [← takeWhile_append_of_head? hDigits hLongest, hBehind,
          takeWhile_append_of_head? hDigits' hLongest']
      subst hSame
      obtain rfl := List.append_cancel_left hBehind
      rw [ih hRest]

/-- The digits at the start of a text and what comes behind them. -/
theorem exists_digits (text : List Char) : ∃ digits rest, text = digits ++ rest ∧
    (∀ d ∈ digits, d.isDigit = true) ∧ ∀ d ∈ rest.head?, d.isDigit = false := by
  refine ⟨text.takeWhile Char.isDigit, text.dropWhile Char.isDigit,
    (List.takeWhile_append_dropWhile ..).symm, fun d hd => List.mem_takeWhile_imp hd, ?_⟩
  intro d hd
  have hHead := List.head?_dropWhile_not Char.isDigit text
  rw [Option.mem_def.mp hd] at hHead
  simpa using hHead

theorem exists_cut : ∀ (n : Nat) (text : List Char), text.length ≤ n → ∃ ps, Cut text ps := by
  intro n
  induction n with
  | zero =>
    intro text hLength
    obtain rfl := List.length_eq_zero_iff.mp (Nat.le_zero.mp hLength)
    exact ⟨[], .nil⟩
  | succ n ih =>
    intro text hLength
    by_cases hOpens : Opens text
    · obtain ⟨escaped, d, behind, rfl, hd⟩ := hOpens
      obtain ⟨digits, rest, hBehind, hDigits, hLongest⟩ := exists_digits (d :: behind)
      have hSome : digits ≠ [] := by
        rintro rfl
        rw [List.nil_append] at hBehind
        rw [← hBehind] at hLongest
        exact absurd hd (by rw [hLongest d rfl]; exact Bool.false_ne_true)
      rw [hBehind] at hLength ⊢
      have hShorter : rest.length ≤ n := by
        have := List.length_pos_iff.mpr hSome
        simp only [List.length_append] at hLength
        omega
      obtain ⟨ps, hCut⟩ := ih rest hShorter
      exact ⟨_, .placeholder hSome hDigits hLongest hCut⟩
    · cases text with
      | nil => exact ⟨[], .nil⟩
      | cons c rest =>
        obtain ⟨ps, hCut⟩ := ih rest (Nat.le_of_succ_le_succ hLength)
        exact ⟨_, .plain hOpens hCut⟩

/-! ### Rounds -/

section Rounds

variable {atoms : List Atom}

theorem argument_eq (escaped : Bool) (digits : List Char) :
    argument atoms (argumentIndex digits) =
      (String.ofList ((Piece.placeholder escaped digits).filled atoms),
        (Piece.placeholder escaped digits).faults atoms) := by
  have hNumber : argumentIndex digits = Piece.number digits := by
    rw [argumentIndex, digitsValue_eq, Piece.number, argumentLimit]
  rw [hNumber]
  cases hIndex : Piece.number digits with
  | zero =>
    simp only [Piece.filled, Piece.faults, Piece.atom?, hIndex]
    rfl
  | succ k =>
    simp only [Piece.filled, Piece.faults, Piece.atom?, hIndex, Nat.succ_ne_zero, if_false,
      Nat.add_sub_cancel, argument]
    cases atoms[k]? with
    | none => rfl
    | some atom => simp

theorem markWidth_sign (escaped : Bool) (l : List Char) :
    markWidth (String.ofList (sign escaped ++ l)) =
      (String.ofList (sign escaped)).utf8ByteSize := by
  rw [markWidth, String.toList_ofList]
  cases escaped with
  | true => rfl
  | false => rfl

theorem exists_sign {text : List Char} (h : 0 < markWidth (String.ofList text)) :
    ∃ escaped l, text = sign escaped ++ l := by
  rw [markWidth, String.toList_ofList] at h
  split at h
  · rename_i hPrefix
    obtain ⟨l, rfl⟩ := List.isPrefixOf_iff_prefix.mp hPrefix
    exact ⟨true, l, rfl⟩
  · split at h
    · rename_i hPrefix
      obtain ⟨l, rfl⟩ := List.isPrefixOf_iff_prefix.mp hPrefix
      exact ⟨false, l, rfl⟩
    · exact absurd h (Nat.lt_irrefl 0)

/-- A round that is done with one piece. -/
structure Round.Does (atoms : List Atom) (r : Round) (p : Piece) : Prop where
  width : r.width = (String.ofList p.source).utf8ByteSize
  text : r.text = String.ofList (p.filled atoms)
  faults : r.faults = p.faults atoms

theorem exists_copy (atoms : List Atom) (c : Char) (rest : List Char) :
    ∃ r, copy? (String.ofList (c :: rest)) = some r ∧ r.Does atoms (.plain c) := by
  rw [copy?, String.toList_ofList]
  refine ⟨_, rfl, ?_, String.singleton_eq_ofList, rfl⟩
  rw [Piece.source, ← String.singleton_eq_ofList, String.utf8ByteSize_singleton]

/-- What follows a sign is sliced off behind it. -/
theorem slice?_sign (escaped : Bool) (l : List Char) :
    slice? (String.ofList (sign escaped ++ l)) (markWidth (String.ofList (sign escaped ++ l)))
      (String.ofList (sign escaped ++ l)).utf8ByteSize = some (String.ofList l) := by
  rw [markWidth_sign, String.ofList_append]
  exact slice?_end _ _

/-- Where no placeholder starts, a sign is as good as any other character. -/
theorem round?_of_not_opens {text : List Char} (hOpens : ¬ Opens text) :
    round? atoms (String.ofList text) = copy? (String.ofList text) := by
  rw [round?]
  by_cases hMark : 0 < markWidth (String.ofList text)
  · obtain ⟨escaped, l, rfl⟩ := exists_sign hMark
    have hNone : leadingDigits (String.ofList l) = 0 := by
      rw [leadingDigits_ofList]
      cases l with
      | nil => rfl
      | cons d l =>
        have hd : ¬ d.isDigit = true := fun hd => hOpens ⟨escaped, d, l, rfl, hd⟩
        rw [List.takeWhile_cons, if_neg hd]
        rfl
    rw [dif_pos hMark, slice?_sign]
    simp only [hNone, Nat.lt_irrefl, if_false]
  · rw [dif_neg hMark]

theorem exists_round_placeholder (atoms : List Atom) {escaped : Bool} {digits rest : List Char}
    (hSome : digits ≠ []) (hDigits : ∀ d ∈ digits, d.isDigit = true)
    (hLongest : ∀ d ∈ rest.head?, d.isDigit = false) :
    ∃ r, round? atoms (String.ofList (sign escaped ++ (digits ++ rest))) = some r ∧
      r.Does atoms (.placeholder escaped digits) := by
  have hSize : leadingDigits (String.ofList (digits ++ rest)) =
      (String.ofList digits).utf8ByteSize := by
    rw [leadingDigits_ofList, takeWhile_append_of_head? hDigits hLongest,
      utf8ByteSize_of_isDigit hDigits]
  have hPos : 0 < (String.ofList digits).utf8ByteSize := by
    rw [utf8ByteSize_of_isDigit hDigits]
    exact List.length_pos_iff.mpr hSome
  have hMark : 0 < markWidth (String.ofList (sign escaped ++ (digits ++ rest))) := by
    rw [markWidth_sign]
    cases escaped <;> decide
  have hNumeral : slice? (String.ofList (sign escaped ++ (digits ++ rest)))
      (String.ofList (sign escaped)).utf8ByteSize
      ((String.ofList (sign escaped)).utf8ByteSize + (String.ofList digits).utf8ByteSize) =
        some (String.ofList digits) := by
    rw [← List.append_assoc, String.ofList_append, String.ofList_append]
    exact slice?_append _ _ _
  rw [round?, dif_pos hMark, slice?_sign]
  simp only [hSize, if_pos hPos, markWidth_sign, hNumeral, String.toList_ofList,
    argument_eq escaped digits]
  refine ⟨_, rfl, ?_, rfl, rfl⟩
  show (String.ofList (sign escaped)).utf8ByteSize + (String.ofList digits).utf8ByteSize =
    (String.ofList (sign escaped ++ digits)).utf8ByteSize
  rw [String.ofList_append, String.utf8ByteSize_append]

/-- **A round is done with one piece.** -/
theorem exists_round (atoms : List Atom) {text : List Char} {p : Piece} {ps : List Piece}
    (h : Cut text (p :: ps)) :
    ∃ rest r, text = p.source ++ rest ∧ Cut rest ps ∧
      round? atoms (String.ofList text) = some r ∧ r.Does atoms p := by
  cases h with
  | @plain c rest _ hOpens hRest =>
    obtain ⟨r, hCopy, hDoes⟩ := exists_copy atoms c rest
    exact ⟨rest, r, rfl, hRest, (round?_of_not_opens hOpens).trans hCopy, hDoes⟩
  | @placeholder escaped digits rest _ hSome hDigits hLongest hRest =>
    obtain ⟨r, hRound, hDoes⟩ := exists_round_placeholder atoms hSome hDigits hLongest
    exact ⟨rest, r, (List.append_assoc ..).symm, hRest, hRound, hDoes⟩

/-- **The scan goes on from a place between characters as what is left is cut.** -/
theorem scan_eq (atoms : List Atom) : ∀ (ps : List Piece) (front : String) (text : List Char)
    (out : String) (faults : List Error), Cut text ps →
      scan atoms (front ++ String.ofList text) front.utf8ByteSize out faults =
        some (out ++ String.ofList (ps.flatMap (Piece.filled atoms)),
          faults ++ ps.flatMap (Piece.faults atoms)) := by
  intro ps
  induction ps with
  | nil =>
    intro front text out faults hCut
    cases hCut
    have hEnd : ¬ front.utf8ByteSize < (front ++ String.ofList []).utf8ByteSize := by
      rw [String.ofList_nil, String.append_empty]
      exact Nat.lt_irrefl _
    rw [scan, dif_neg hEnd, List.flatMap_nil, List.flatMap_nil, String.ofList_nil,
      String.append_empty, List.append_nil]
  | cons p ps ih =>
    intro front text out faults hCut
    obtain ⟨rest, r, rfl, hRest, hRound, hDoes⟩ := exists_round atoms hCut
    have hMore : front.utf8ByteSize <
        (front ++ String.ofList (p.source ++ rest)).utf8ByteSize := by
      have hWidth := r.width_pos
      rw [hDoes.width] at hWidth
      rw [String.ofList_append, String.utf8ByteSize_append, String.utf8ByteSize_append]
      omega
    have hNext := ih (front ++ String.ofList p.source) rest (out ++ r.text)
      (faults ++ r.faults) hRest
    rw [String.utf8ByteSize_append, ← hDoes.width, String.append_assoc,
      ← String.ofList_append] at hNext
    rw [scan, dif_pos hMore, slice?_end]
    simp only [hRound]
    rw [hNext, hDoes.text, hDoes.faults, String.append_assoc, ← String.ofList_append,
      List.append_assoc]
    rfl

/-- What is put in for a text that is cut into these pieces. -/
theorem substitute_of_cut {text : String} {ps : List Piece} (h : Cut text.toList ps)
    (inbound : Message) : substitute text inbound =
      (String.ofList (ps.flatMap (Piece.filled inbound.elements)),
        ps.flatMap (Piece.faults inbound.elements)) := by
  have hScan := scan_eq inbound.elements ps "" text.toList "" [] h
  rw [String.ofList_toList, String.empty_append, String.empty_append, List.nil_append] at hScan
  show (scan inbound.elements text "".utf8ByteSize "" []).getD ("", []) = _
  rw [hScan, Option.getD_some]

end Rounds

/--
**Every placeholder of a text is replaced by what it stands for, and everything else is copied.**
The scan comes to an end without a slice inside a character, for any text.  What it puts out,
and what it complains of, are those of the pieces of the text in their order.
-/
theorem substitute_fills_placeholders (text : String) (inbound : Message) :
    ∃ ps, (Cut text.toList ps ∧ ∀ qs, Cut text.toList qs → qs = ps) ∧
      scan inbound.elements text 0 "" [] = some (substitute text inbound) ∧
      substitute text inbound =
        (String.ofList (ps.flatMap (Piece.filled inbound.elements)),
          ps.flatMap (Piece.faults inbound.elements)) := by
  obtain ⟨ps, hCut⟩ := exists_cut _ text.toList (Nat.le_refl _)
  have hScan := scan_eq inbound.elements ps "" text.toList "" [] hCut
  rw [String.ofList_toList, String.empty_append, String.empty_append, List.nil_append] at hScan
  have hSubstitute : substitute text inbound =
      (String.ofList (ps.flatMap (Piece.filled inbound.elements)),
        ps.flatMap (Piece.faults inbound.elements)) := by
    show (scan inbound.elements text "".utf8ByteSize "" []).getD ("", []) = _
    rw [hScan, Option.getD_some]
  refine ⟨ps, ⟨hCut, fun qs hq => hCut.unique hq⟩, ?_, hSubstitute⟩
  rw [hSubstitute]
  exact hScan

end Patchbay.BoxText
