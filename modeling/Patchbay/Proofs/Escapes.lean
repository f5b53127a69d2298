import Mathlib.Data.List.Basic
import Patchbay.BoxText
import Patchbay.Proofs.Words

/-
Which backslashes belong to a delimiter of box text.

A patch file writes a backslash before a semicolon or a comma, and that backslash is meant
to go with the delimiter: `byDelimiters` drops the one that stands right before each
delimiter and cuts the text there.  The tokenizer cuts first and then drops one backslash
at the end of every piece, once for the pieces between semicolons and once more for those
between commas.  In terms of the text that is two passes, `remaining`, and each of them
takes the end of the text for a delimiter.

So the two readings come apart in two places.  The last piece has no delimiter behind it
and loses a backslash all the same, and the last part of a message is the end of a piece
on both levels and can lose two.  `Slips` says where that happens, and wherever it does
the readings differ, since a backslash is missing.  No other character is ever lost.
-/

namespace Patchbay.BoxText

def isDelimiter (c : Char) : Bool :=
  c == ';' || c == ','

/-- Text without the backslashes behind which stands what `behind` admits, where nothing stands
behind the end of the text. -/
def withoutEscapes (behind : Option Char → Bool) : List Char → List Char
  | [] => []
  | c :: rest =>
    if c = '\\' ∧ behind rest.head? then withoutEscapes behind rest
    else c :: withoutEscapes behind rest

/-- The parts between the commas of a message. -/
def partsBetween (message : List Char) : List (List Char) :=
  ((cut (· == ',') message).map fun part => unwords (words part)).filter fun part => !part.isEmpty

/-- The messages between the semicolons of a text. -/
def messagesBetween (text : List Char) : List (List (List Char)) :=
  ((cut (· == ';') text).map partsBetween).filter fun ps => !ps.isEmpty

def asStrings (ms : List (List (List Char))) : List (List String) :=
  ms.map fun ps => ps.map String.ofList

/-- Box text cut at its delimiters, each together with the one backslash right before it. -/
def byDelimiters (text : String) : List (List String) :=
  asStrings (messagesBetween (withoutEscapes (Option.any isDelimiter) text.toList))

/-- What remains of a text without the backslashes that the tokenizer drops. -/
def remaining (text : List Char) : List Char :=
  withoutEscapes (Option.all isDelimiter) (withoutEscapes (Option.all (· == ';')) text)

/-! ### Dropping backslashes -/

theorem withoutEscapes_cons_of_ne (behind : Option Char → Bool) {c : Char} (hc : c ≠ '\\')
    (rest : List Char) : withoutEscapes behind (c :: rest) = c :: withoutEscapes behind rest :=
  if_neg fun h => hc h.1

theorem withoutEscapes_sublist (behind : Option Char → Bool) (text : List Char) :
    (withoutEscapes behind text).Sublist text := by
  induction text with
  | nil => exact List.Sublist.slnil
  | cons c text ih =>
      rw [withoutEscapes]
      split
      · exact ih.cons c
      · exact ih.cons_cons c

theorem remaining_sublist (text : List Char) : (remaining text).Sublist text :=
  (withoutEscapes_sublist _ _).trans (withoutEscapes_sublist _ _)

/-- Only backslashes are dropped. -/
theorem filter_withoutEscapes (behind : Option Char → Bool) {p : Char → Bool}
    (hp : p '\\' = false) (text : List Char) :
    (withoutEscapes behind text).filter p = text.filter p := by
  induction text with
  | nil => rfl
  | cons c text ih =>
      rw [withoutEscapes]
      split
      · rename_i hDrop
        rw [ih, hDrop.1, List.filter_cons_of_neg (by simp [hp])]
      · rw [List.filter_cons, List.filter_cons, ih]

theorem dropEscape_eq (piece : List Char) :
    dropEscape piece = withoutEscapes Option.isNone piece := by
  induction piece with
  | nil => rfl
  | cons c piece ih =>
      cases piece with
      | nil =>
          by_cases hc : c = '\\'
          · subst hc
            rfl
          · simp [dropEscape, withoutEscapes, hc]
      | cons d piece =>
          have hKeep : withoutEscapes Option.isNone (c :: d :: piece) =
              c :: withoutEscapes Option.isNone (d :: piece) := if_neg fun h => nomatch h.2
          rw [hKeep, ← ih, dropEscape, dropEscape, List.getLast?_cons_cons]
          split <;> rfl

/-- Dropping backslashes in each piece is dropping them in the text, where a delimiter is the end
of a piece. -/
theorem map_withoutEscapes_cut {behind behind' : Option Char → Bool} {d : Char} (hd : d ≠ '\\')
    (h : ∀ next, behind' next = behind (next.filter fun c => !(c == d))) (text : List Char) :
    (cut (· == d) text).map (withoutEscapes behind) =
      cut (· == d) (withoutEscapes behind' text) := by
  induction text with
  | nil => rfl
  | cons c text ih =>
      cases hc : c == d with
      | true =>
          have hNe : c ≠ '\\' := beq_iff_eq.mp hc ▸ hd
          rw [withoutEscapes_cons_of_ne _ hNe, cut_cons, cut_cons, hc, ← ih]
          rfl
      | false =>
          obtain ⟨piece, pieces, hPieces⟩ := List.exists_cons_of_ne_nil (cut_ne_nil (· == d) text)
          have hBehind : behind' text.head? = behind piece.head? := by
            rw [head?_of_cut hPieces, h]
          rw [hPieces, List.map_cons] at ih
          rw [cut_cons, hc, hPieces, withoutEscapes, hBehind]
          change withoutEscapes behind (c :: piece) :: pieces.map (withoutEscapes behind) = _
          rw [withoutEscapes]
          split
          · exact ih
          · rw [cut_cons, hc, ← ih]
            rfl

theorem pieces_eq {d : Char} (hd : d ≠ '\\') (text : List Char) :
    pieces d text = cut (· == d) (withoutEscapes (Option.all (· == d)) text) := by
  rw [pieces, funext dropEscape_eq]
  refine map_withoutEscapes_cut hd (fun next => ?_) text
  cases next with
  | none => rfl
  | some c => cases hc : c == d <;> simp [Option.filter, hc]

theorem parts_eq (message : List Char) :
    parts message = partsBetween (withoutEscapes (Option.all (· == ',')) message) := by
  rw [parts, pieces_eq (by decide), partsBetween]

/-- **The tokenizer cuts what remains at the delimiters.** -/
theorem messages_eq (text : List Char) : messages text = messagesBetween (remaining text) := by
  have hComma : ∀ next : Option Char, next.all isDelimiter =
      (next.filter fun c => !(c == ';')).all (· == ',') := by
    intro next
    cases next with
    | none => rfl
    | some c => cases hc : c == ';' <;> simp [Option.filter, isDelimiter, hc]
  rw [messages, pieces_eq (by decide), messagesBetween, remaining,
    ← map_withoutEscapes_cut (by decide) hComma, List.map_map]
  exact congrArg (List.filter _) (List.map_congr_left fun m _ => parts_eq m)

/-! ### What is kept -/

/-- The parts of a message hold what is neither blank nor a comma. -/
theorem filter_partsBetween (message : List Char) :
    (partsBetween message).flatten.filter (fun c => !isBlank c) =
      message.filter fun c => !isBlank c && !(c == ',') := by
  rw [partsBetween, List.flatten_filter_not_isEmpty, List.filter_flatten, List.map_map,
    ← List.filter_filter, ← flatten_cut (· == ','), List.filter_flatten]
  exact congrArg List.flatten (List.map_congr_left fun part _ => filter_unwords_words part)

/-- **Cutting loses blanks and delimiters only**, and changes no order. -/
theorem filter_messagesBetween (text : List Char) :
    (messagesBetween text).flatten.flatten.filter (fun c => !isBlank c) =
      text.filter fun c => !isBlank c && !isDelimiter c := by
  have hSplit : (fun c => !isBlank c && !isDelimiter c) =
      fun c => (!isBlank c && !(c == ',')) && !(c == ';') := by
    funext c
    simp only [isDelimiter, Bool.not_or]
    cases isBlank c <;> cases c == ';' <;> cases c == ',' <;> rfl
  rw [messagesBetween, List.flatten_filter_not_isEmpty, hSplit, ← List.filter_filter,
    ← flatten_cut (· == ';'), List.flatten_flatten, List.filter_flatten, List.filter_flatten,
    List.map_map, List.map_map]
  exact congrArg List.flatten (List.map_congr_left fun m _ => filter_partsBetween m)

/-- All characters of some messages, one after the other. -/
def allChars (ms : List (List String)) : List Char :=
  ms.flatten.flatMap String.toList

theorem allChars_asStrings (ms : List (List (List Char))) :
    allChars (asStrings ms) = ms.flatten.flatten := by
  rw [allChars, asStrings, ← List.map_flatten, List.flatMap_map]
  simp [List.flatMap]

/-! ### Backslashes with no delimiter behind them -/

/-- What stands behind a backslash that is dropped though no delimiter is there. -/
def SlipsBefore (rest : List Char) : Prop :=
  rest = [] ∨ rest = ['\\'] ∨ ['\\', ';'] <+: rest

/-- A backslash ends the text, or two of them stand before a semicolon. -/
def Slips (text : List Char) : Prop :=
  ['\\'] <:+ text ∨ ['\\', '\\', ';'] <:+: text

instance : DecidablePred SlipsBefore :=
  fun _ => inferInstanceAs (Decidable (_ ∨ _ ∨ _))

theorem SlipsBefore.not_delimiter {rest : List Char} (h : SlipsBefore rest) :
    ¬ rest.head?.any isDelimiter = true := by
  rcases h with rfl | rfl | ⟨more, rfl⟩
  · exact Bool.false_ne_true
  · decide
  · exact Bool.false_ne_true

theorem slips_cons {c : Char} {rest : List Char} :
    Slips (c :: rest) ↔ c = '\\' ∧ SlipsBefore rest ∨ Slips rest := by
  simp only [Slips, SlipsBefore, List.suffix_cons_iff, List.infix_cons_iff, List.cons_prefix_cons,
    List.cons.injEq, eq_comm (a := '\\') (b := c), eq_comm (a := []) (b := rest)]
  constructor
  · tauto
  · rintro (⟨hc, rfl | rfl | hPrefix⟩ | hRest)
    · exact .inl (.inl ⟨hc, rfl⟩)
    · exact .inl (.inr (List.suffix_refl _))
    · exact .inr (.inl ⟨hc, hPrefix⟩)
    · tauto

/-- What comes to stand behind a backslash once those at the ends of messages are gone. -/
theorem all_isDelimiter_head? (rest : List Char) :
    (withoutEscapes (Option.all (· == ';')) rest).head?.all isDelimiter = true ↔
      rest.head?.any isDelimiter = true ∨ SlipsBefore rest := by
  cases rest with
  | nil => simp [withoutEscapes, SlipsBefore]
  | cons e rest =>
      by_cases he : e = '\\'
      · subst he
        cases rest with
        | nil => simp [withoutEscapes, SlipsBefore]
        | cons d rest =>
            by_cases hd : d = ';'
            · subst hd
              simp [withoutEscapes, SlipsBefore, isDelimiter]
            · simp [withoutEscapes, SlipsBefore, isDelimiter, hd, eq_comm (a := ';')]
      · rw [withoutEscapes_cons_of_ne _ he]
        simp [SlipsBefore, he, eq_comm (a := '\\')]

/-- **A backslash is dropped before a delimiter, and where one slips.** -/
theorem remaining_cons (c : Char) (rest : List Char) : remaining (c :: rest) =
    if c = '\\' ∧ (rest.head?.any isDelimiter = true ∨ SlipsBefore rest) then remaining rest
    else c :: remaining rest := by
  by_cases hc : c = '\\'
  · subst hc
    by_cases hFirst : rest.head?.all (· == ';') = true
    · have hDropped : rest.head?.any isDelimiter = true ∨ SlipsBefore rest := by
        cases rest with
        | nil => exact .inr (.inl rfl)
        | cons d rest =>
            obtain rfl : d = ';' := by simpa using hFirst
            exact .inl rfl
      rw [if_pos ⟨rfl, hDropped⟩, remaining, withoutEscapes, if_pos ⟨rfl, hFirst⟩, remaining]
    · rw [remaining, withoutEscapes, if_neg (fun h => hFirst h.2), withoutEscapes]
      exact if_congr (and_congr_right fun _ => all_isDelimiter_head? rest) rfl rfl
  · rw [remaining, withoutEscapes_cons_of_ne _ hc, withoutEscapes_cons_of_ne _ hc,
      if_neg fun h => hc h.1, remaining]

/-- Where none slips, the backslashes before delimiters are dropped and no others. -/
theorem remaining_of_not_slips {text : List Char} (h : ¬ Slips text) :
    remaining text = withoutEscapes (Option.any isDelimiter) text := by
  induction text with
  | nil => rfl
  | cons c rest ih =>
      rw [slips_cons, not_or] at h
      rw [remaining_cons, withoutEscapes, ih h.2]
      refine if_congr ?_ rfl rfl
      tauto

theorem count_remaining_le (text : List Char) : (remaining text).count '\\' ≤
    (withoutEscapes (Option.any isDelimiter) text).count '\\' := by
  induction text with
  | nil => exact Nat.le_refl _
  | cons c rest ih =>
      rw [remaining_cons, withoutEscapes]
      split
      · split
        · exact ih
        · exact Nat.le_trans ih List.count_le_count_cons
      · rw [if_neg (by tauto), List.count_cons, List.count_cons]
        exact Nat.add_le_add_right ih _

/-- A backslash that slips is missing in the end. -/
theorem count_remaining_lt {text : List Char} (h : Slips text) : (remaining text).count '\\' <
    (withoutEscapes (Option.any isDelimiter) text).count '\\' := by
  induction text with
  | nil => simp [Slips] at h
  | cons c rest ih =>
      rw [remaining_cons, withoutEscapes]
      by_cases hHere : c = '\\' ∧ SlipsBefore rest
      · have hLe := count_remaining_le rest
        rw [if_pos ⟨hHere.1, .inr hHere.2⟩, if_neg fun hDrop => hHere.2.not_delimiter hDrop.2,
          hHere.1, List.count_cons_self]
        omega
      · have hRest := ih ((slips_cons.mp h).resolve_left hHere)
        split
        · rw [if_pos (by tauto)]
          exact hRest
        · rw [if_neg (by tauto), List.count_cons, List.count_cons]
          omega

/-! ### The two readings -/

theorem tokenize_eq (text : String) :
    tokenize text = asStrings (messagesBetween (remaining text.toList)) := by
  rw [tokenize, messages_eq, asStrings]

/-- The backslashes of the messages are those of the text that was cut. -/
theorem count_messagesBetween (text : List Char) :
    ((messagesBetween text).flatten.flatten.filter fun c => !isBlank c).count '\\' =
      text.count '\\' := by
  rw [filter_messagesBetween, List.count_filter (by decide)]

/--
**The tokenizer reads a text by its delimiters, exactly if no backslash slips.**  In any text it
cuts what remains without the backslashes before delimiters and those that slip.  All that is
neither blank nor a delimiter nor a backslash comes through, in its order; and of the
backslashes, all come through but those before delimiters, unless one ends the text or two
stand before a semicolon.
-/
theorem tokenize_by_delimiters_iff (text : String) :
    (tokenize text = byDelimiters text ↔ ¬ Slips text.toList) ∧
      tokenize text = asStrings (messagesBetween (remaining text.toList)) ∧
      (allChars (tokenize text)).filter (fun c => c != '\\' && !isBlank c) =
        text.toList.filter fun c => c != '\\' && (!isBlank c && !isDelimiter c) := by
  refine ⟨⟨fun hSame hSlips => ?_, fun hNot => ?_⟩, tokenize_eq text, ?_⟩
  · have hChars := congrArg allChars hSame
    rw [tokenize_eq, byDelimiters, allChars_asStrings, allChars_asStrings] at hChars
    have hLess := count_remaining_lt hSlips
    rw [← count_messagesBetween (remaining _), ← count_messagesBetween (withoutEscapes _ _),
      hChars] at hLess
    exact Nat.lt_irrefl _ hLess
  · rw [tokenize_eq, remaining_of_not_slips hNot, byDelimiters]
  · rw [tokenize_eq, allChars_asStrings, ← List.filter_filter, filter_messagesBetween,
      List.filter_filter]
    have hBackslash : ('\\' != '\\' && (!isBlank '\\' && !isDelimiter '\\')) = false := rfl
    exact (filter_withoutEscapes _ hBackslash _).trans (filter_withoutEscapes _ hBackslash _)

/-- Two backslashes before a semicolon are lost, and so is one at the end. -/
theorem tokenize_ne_byDelimiters : tokenize "a\\\\; b\\" ≠ byDelimiters "a\\\\; b\\" := by
  decide +kernel

end Patchbay.BoxText
