import Mathlib.Data.List.Basic
import Patchbay.Kind.MessageBox
import Patchbay.Proofs.Parts
import Patchbay.Proofs.Placeholders
import Patchbay.Proofs.Spelling

/-
A message box that names every atom of what comes in.

Its text is `$1 $2 … $n`, one part without a delimiter in it, so the tokenizer hands it on
as it is.  The part is cut into the placeholders and the spaces between them, and each
placeholder is filled with the text of its atom.  What the atoms hold does not matter at
this point: the text that was put in is neither cut nor filled again.  It is only read as
a message, and there it matters that the atoms can be said.
-/

namespace Patchbay

namespace BoxText

variable {atoms : List Atom}

/-- A placeholder without a backslash. -/
def slot (k : Nat) : Piece :=
  .placeholder false (Nat.toDigits 10 k)

theorem source_slot (k : Nat) : (slot k).source = ("$" ++ toString k).toList := by
  rw [String.toList_append, toList_toString]
  rfl

/-- A space between two words is a piece of its own. -/
theorem not_opens_space (rest : List Char) : ¬ Opens (' ' :: rest) := by
  rintro ⟨escaped, d, behind, hText, -⟩
  cases escaped <;> exact absurd (List.cons.inj hText).1 (by decide)

/-- Placeholders with spaces between them are cut apart and filled one by one. -/
theorem exists_cut_slots (atoms : List Atom) (ks : List Nat) :
    ∃ ps, Cut (unwords (ks.map fun k => (slot k).source)) ps ∧
      ps.flatMap (Piece.filled atoms) = unwords (ks.map fun k => (slot k).filled atoms) ∧
      ps.flatMap (Piece.faults atoms) = ks.flatMap fun k => (slot k).faults atoms := by
  induction ks with
  | nil => exact ⟨[], .nil, rfl, rfl⟩
  | cons k ks ih =>
      have hSome : Nat.toDigits 10 k ≠ [] := Nat.toDigits_ne_nil
      cases ks with
      | nil =>
          have hCut : Cut (sign false ++ (Nat.toDigits 10 k ++ [])) [slot k] :=
            .placeholder hSome (allDigits_toDigits k) (by simp) .nil
          rw [List.append_nil] at hCut
          exact ⟨[slot k], hCut, List.append_nil _, rfl⟩
      | cons j ks =>
          obtain ⟨ps, hCut, hFilled, hFaults⟩ := ih
          refine ⟨slot k :: .plain ' ' :: ps, ?_, ?_, ?_⟩
          · have hNext := Cut.plain (not_opens_space _) hCut
            have hAll : Cut (sign false ++ (Nat.toDigits 10 k ++ _)) (slot k :: _) :=
              .placeholder hSome (allDigits_toDigits k) (by simp) hNext
            rw [List.map_cons, List.map_cons, unwords_cons_cons]
            exact hAll
          · rw [List.map_cons, List.map_cons, unwords_cons_cons, List.flatMap_cons,
              List.flatMap_cons, hFilled]
            rfl
          · rw [List.flatMap_cons, List.flatMap_cons, hFaults]
            rfl

/-- The characters of a placeholder are neither blanks nor delimiters nor backslashes. -/
theorem of_mem_source_slot {k : Nat} {c : Char} (h : c ∈ (slot k).source) :
    isBlank c = false ∧ isDelimiter c = false ∧ c ≠ '\\' := by
  rcases List.mem_cons.mp h with rfl | hDigit
  · decide
  · have hNumeric := (allDigits_toDigits k).numeric
    have hBounds := toNat_of_isNumeric (hNumeric c hDigit)
    refine ⟨(solid_of_numeric Nat.toDigits_ne_nil hNumeric).unblank c hDigit, ?_, ?_⟩
    · rw [isDelimiter, Bool.or_eq_false_iff, beq_eq_false_iff_ne, beq_eq_false_iff_ne]
      constructor <;> (rintro rfl; exact absurd hBounds (by decide))
    · rintro rfl
      exact absurd hBounds (by decide)

/-- Placeholders with spaces between them are a part of a message. -/
theorem isPart_slots {ks : List Nat} (hNe : ks ≠ []) :
    IsPart (unwords (ks.map fun k => (slot k).source)) := by
  have hChars : ∀ c ∈ unwords (ks.map fun k => (slot k).source),
      isDelimiter c = false ∧ c ≠ '\\' := by
    intro c hc
    rcases mem_unwords hc with rfl | ⟨w, hw, hcw⟩
    · decide
    · obtain ⟨k, -, rfl⟩ := List.mem_map.mp hw
      exact (of_mem_source_slot hcw).2
  refine ⟨⟨⟨_, by simpa using hNe, List.forall_mem_map.mpr fun k _ => ?_, rfl⟩,
    fun c hc => (hChars c hc).1⟩, fun hLast => ?_⟩
  · exact ⟨List.cons_ne_nil _ _, fun c hc => (of_mem_source_slot hc).1⟩
  · exact (hChars _ (List.mem_of_getLast? hLast)).2 rfl

/-- A placeholder of 64 bits stands for the atom with its number. -/
theorem atom?_slot {k : Nat} (hPos : 0 < k) (hSize : k < argumentLimit) :
    Piece.atom? atoms (Nat.toDigits 10 k) = atoms[k - 1]? := by
  have hNumber : Piece.number (Nat.toDigits 10 k) = k := by
    rw [Piece.number, Nat.ofDigitChars_ten_toDigits]
    exact if_pos hSize
  rw [Piece.atom?, hNumber, if_neg hPos.ne']

/-- The placeholders from one on are filled with the atoms in their order. -/
theorem slots_filled (hSize : atoms.length < argumentLimit) :
    (((List.range atoms.length).map (· + 1)).map fun k => (slot k).filled atoms) =
        atoms.map (fun a => a.text.toList) ∧
      (((List.range atoms.length).map (· + 1)).flatMap fun k => (slot k).faults atoms) = [] := by
  have hAtom : ∀ i, ∀ h : i < atoms.length,
      Piece.atom? atoms (Nat.toDigits 10 (i + 1)) = some atoms[i] := fun i h =>
    (atom?_slot (Nat.succ_pos i) (by omega)).trans (List.getElem?_eq_getElem h)
  constructor
  · refine List.ext_getElem (by simp) fun i hLeft hRight => ?_
    have hi : i < atoms.length := by simpa using hRight
    simp only [List.getElem_map, List.getElem_range, slot, Piece.filled, hAtom i hi]
  · refine List.flatMap_eq_nil_iff.mpr (List.forall_mem_map.mpr fun i hi => ?_)
    simp only [slot, Piece.faults, hAtom i (List.mem_range.mp hi), Option.isSome_some, if_true]

end BoxText

namespace MessageBox

open BoxText

/-- A box that holds the placeholders from one to `n`. -/
def relay (n : Nat) : MessageBox :=
  ⟨joinWords ((List.range n).map fun i => "$" ++ toString (i + 1))⟩

theorem toList_text_relay (n : Nat) : (relay n).text.toList =
    unwords (((List.range n).map (· + 1)).map fun k => (slot k).source) := by
  rw [relay, joinWords, String.toList_ofList, List.map_map, List.map_map]
  refine congrArg unwords (List.map_congr_left fun i _ => ?_)
  rw [Function.comp_apply, Function.comp_apply, source_slot]

/-- The text of a relay is one message of one part. -/
theorem tokenize_relay {n : Nat} (hSome : 0 < n) :
    tokenize (relay n).text = [[(relay n).text]] := by
  have hPart : IsPart (relay n).text.toList := by
    rw [toList_text_relay]
    exact isPart_slots (by simpa using hSome.ne')
  have hParts : AllParts IsPart [[(relay n).text.toList]] := by simpa [AllParts] using hPart
  have hRead := messages_joined hParts
  exact tokenize_eq_iff.mpr hRead

/-- **A relay is filled with what comes in**, without a complaint. -/
theorem expand_relay (scope : MessageScope) {m : Message}
    (hSize : m.elements.length < argumentLimit) (hSayable : ∀ a ∈ m.elements, a.Sayable) :
    expand scope m (relay m.elements.length).text = (⟨m.elements⟩, []) := by
  obtain ⟨ps, hCut, hFilled, hFaults⟩ :=
    exists_cut_slots m.elements ((List.range m.elements.length).map (· + 1))
  obtain ⟨hTexts, hNone⟩ := slots_filled hSize
  rw [← toList_text_relay] at hCut
  rw [expand, substitute_of_cut hCut, hFilled, hFaults, hTexts, hNone]
  simp only [Message.ofString, String.toList_ofList, Message.ofChars_unwords hSayable, List.map_nil]

/--
**A box that names every atom of a message sends that message on.**  The box holds the
placeholders from one to `n`, and a message with `n` atoms comes in, which can be said and do
not ask to be stored.  Then the box sends one message out of its outlet, the same atoms without
a `list` before them, and does nothing else.  No list in memory is so long that 64 bits do not
hold its length.
-/
theorem onMessage_relay (scope : MessageScope) {n : Nat} {m : Message} (hSome : 0 < n)
    (hSize : n < argumentLimit) (hCount : m.elements.length = n)
    (hSelector : m.first? ≠ some (.symbol "set")) (hSayable : ∀ a ∈ m.elements, a.Sayable) :
    onMessage scope (.inlet 0) m (relay n) = (relay n, [emitOn 0 ⟨m.elements⟩]) := by
  subst hCount
  have hFire : fire scope m (relay m.elements.length).text = [emitOn 0 ⟨m.elements⟩] := by
    rw [fire, tokenize_relay hSome]
    simp only [fireParts, List.flatMap_cons, List.flatMap_nil, List.append_nil,
      expand_relay scope hSize hSayable, List.nil_append]
  rw [onMessage]
  split
  · rename_i rest hSet
    exact absurd (by rw [Message.first?, hSet]; rfl) hSelector
  · rw [hFire]

/-- Ten atoms with the delimiters, the sign and the escape of box text in them. -/
def awkwardAtoms : List Atom :=
  [.symbol "a;b,c", .number (Float32.ofBits 0x3fc00000), .symbol "$1", .symbol "\\",
    .symbol "\\;", .number (Float32.ofBits 0x80000000), .symbol "set", .symbol "1e39", .symbol "$",
    .symbol "\\$10"]

/-- A box at the start of a patch. -/
def firstScope : MessageScope :=
  ⟨0, "msg", 0, false, Settings.standard, .empty⟩

theorem onMessage_relay_awkwardAtoms :
    0 < 10 ∧ 10 < argumentLimit ∧ (Message.list awkwardAtoms).elements.length = 10 ∧
      (Message.list awkwardAtoms).first? ≠ some (.symbol "set") ∧
      (∀ a ∈ (Message.list awkwardAtoms).elements, a.Sayable) ∧
      onMessage firstScope (.inlet 0) (.list awkwardAtoms) (relay 10) =
        (relay 10, [emitOn 0 ⟨(Message.list awkwardAtoms).elements⟩]) := by
  have hSelector : (Message.list awkwardAtoms).first? ≠ some (.symbol "set") := by
    simp [Message.list, Message.first?]
  have hSayable : ∀ a ∈ (Message.list awkwardAtoms).elements, a.Sayable := by decide +kernel
  exact ⟨by decide, by decide, rfl, hSelector, hSayable,
    onMessage_relay firstScope (by decide) (by decide) rfl hSelector hSayable⟩

example : (relay 10).text = "$1 $2 $3 $4 $5 $6 $7 $8 $9 $10" := by decide +kernel

end MessageBox

end Patchbay
