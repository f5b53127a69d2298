import Mathlib.Data.List.Basic
import Patchbay.Message
import Patchbay.Proofs.Shortest

/-
Messages that are written as text and read again.

An atom is read from a word: as a number if the word reads as a finite one, and else as
the symbol of that name.  So an atom comes back from its text if it is `Sayable`, which is
to be a finite number, whose shortest numeral reads back, or a symbol that is one word and
no numeral.  Joined by single spaces, the texts of such atoms are cut apart again, and a
message of them comes back as it was.

Whatever is read from a text is sayable.  So no other message comes back, and the text of
the message that is read from a text is a normal form: it is read as the same message, and
two texts are read as one message exactly if they have the same normal form.
-/

namespace Patchbay

namespace Atom

/-- An atom that can be said as a word. -/
def Sayable : Atom → Prop
  | .number x => Single.isFinite x = true
  | .symbol s => Solid s.toList ∧ Single.readFinite? s.toList = none

instance : DecidablePred Sayable
  | .number _ => inferInstanceAs (Decidable (_ = _))
  | .symbol _ => inferInstanceAs (Decidable (_ ∧ _))

variable {a : Atom}

theorem Sayable.solid (h : a.Sayable) : Solid a.text.toList := by
  cases a with
  | number x => exact Single.solid_text h
  | symbol s => exact h.1

/-- **A sayable atom is read from its text.** -/
theorem Sayable.ofChars_text (h : a.Sayable) : ofChars a.text.toList = a := by
  cases a with
  | number x => rw [text, ofChars, Single.readFinite?_text h]
  | symbol s => rw [text, ofChars, h.2, String.ofList_toList]

/-- **What is read from a word is sayable.** -/
theorem sayable_ofChars {w : List Char} (h : Solid w) : (ofChars w).Sayable := by
  rw [ofChars]
  cases hRead : Single.readFinite? w with
  | none => exact ⟨by rwa [String.toList_ofList], by rwa [String.toList_ofList]⟩
  | some x => exact (Option.filter_eq_some_iff.mp hRead).2

end Atom

namespace Message

/-- A message of atoms that can be said. -/
def Sayable (m : Message) : Prop :=
  ∀ a ∈ m.atoms, a.Sayable

/-- The texts of sayable atoms, with single spaces between them, are read as those atoms. -/
theorem ofChars_unwords {atoms : List Atom} (h : ∀ a ∈ atoms, a.Sayable) :
    ofChars (unwords (atoms.map fun a => a.text.toList)) = ⟨atoms⟩ := by
  have hSolid : ∀ w ∈ atoms.map fun a => a.text.toList, Solid w :=
    List.forall_mem_map.mpr fun a ha => (h a ha).solid
  have hAtoms : ∀ a ∈ atoms, (Atom.ofChars ∘ fun a => a.text.toList) a = a :=
    fun a ha => (h a ha).ofChars_text
  rw [ofChars, words_unwords hSolid, List.map_map,
    (List.map_congr_left hAtoms).trans (List.map_id' _)]

theorem toList_text (m : Message) :
    m.text.toList = unwords (m.atoms.map fun a => a.text.toList) := by
  rw [text, joinWords, String.toList_ofList, List.map_map]
  rfl

theorem Sayable.ofString_text {m : Message} (h : m.Sayable) : ofString m.text = m := by
  rw [ofString, toList_text, ofChars_unwords h]

theorem sayable_ofString (text : String) : (ofString text).Sayable :=
  List.forall_mem_map.mpr fun _ hw => Atom.sayable_ofChars (solid_of_mem_words hw)

/--
**A message comes back from its text exactly if its atoms can be said.**  What is read from a
text can be said, so that writing it and reading it again changes nothing, and two texts are
read as the same message exactly if the messages are written alike.
-/
theorem ofString_text_iff :
    (∀ m : Message, ofString m.text = m ↔ m.Sayable) ∧
      (∀ text : String, (ofString text).Sayable ∧ ofString (ofString text).text = ofString text) ∧
      ∀ s t : String, ofString s = ofString t ↔ (ofString s).text = (ofString t).text := by
  have hBack : ∀ text : String, ofString (ofString text).text = ofString text :=
    fun text => (sayable_ofString text).ofString_text
  refine ⟨fun m => ⟨fun h => ?_, Sayable.ofString_text⟩,
    fun text => ⟨sayable_ofString text, hBack text⟩, fun s t => ⟨congrArg text, fun h => ?_⟩⟩
  · rw [← h]
    exact sayable_ofString m.text
  · rw [← hBack s, h, hBack t]

end Message

end Patchbay
