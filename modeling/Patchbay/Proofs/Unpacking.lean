import Patchbay.Proofs.Packing
import Patchbay.Proofs.Spelling

/-
What is left of a list that is packed and unpacked again.

A `pack` hands on the atoms that it is given.  An `unpack` does so with numbers; a symbol it
writes behind the selector `symbol` and reads the whole as a message.  Reading knows no symbols
but words that are no numerals: what has blanks in it comes apart, what is empty is lost, and
what is spelled like a number becomes one.  So the two boxes are inverse to each other on
numbers, whatever numbers they are, and on symbols that are `Sayable`, and on no others.

`said` is what an outlet says for an atom, `meant` is what it would have to say, and the two
agree exactly on what can be said.  The rest is the way of a list through both boxes, which
does not depend on what either has had before.
-/

namespace Patchbay

/-- The atoms are of these types, one for one. -/
abbrev SlotType.Fit (types : List SlotType) (atoms : List Atom) : Prop :=
  List.Forall₂ (fun t a => t.accepts a = true) types atoms

/-! ### Packing a whole list -/

namespace Pack

variable {s : Pack} {types : List SlotType} {atoms : List Atom}

theorem isBang_list (atoms : List Atom) : (Message.list atoms).isBang = false := by
  simp [Message.list, Message.isBang]

/-- A list that fits is accepted, and all of it is written. -/
theorem accepts_list (hTypes : s.slots.map PackSlot.type = types) (h : SlotType.Fit types atoms) :
    s.Accepts (.inlet 0) (.list atoms) fun i => atoms[i]? := by
  have hFits : ∀ (i : Nat) (slot : PackSlot) (a : Atom), s.slots[i]? = some slot →
      atoms[i]? = some a → slot.type.accepts a = true := by
    intro i slot a hSlot hAtom
    subst hTypes
    obtain ⟨hi, rfl⟩ := List.getElem?_eq_some_iff.mp hAtom
    obtain ⟨hj, rfl⟩ := List.getElem?_eq_some_iff.mp hSlot
    simpa using h.get (by simpa using hj) hi
  have hBang := isBang_list atoms
  by_cases hOne : atoms.length = 1
  · -- A list of one atom is taken for that atom.
    obtain ⟨a, rfl⟩ := List.length_eq_one_iff.mp hOne
    obtain ⟨slot, hSlots⟩ : ∃ slot, s.slots = [slot] := by
      have hLength := h.length_eq
      rw [← hTypes, List.length_map] at hLength
      exact List.length_eq_one_iff.mp hLength
    have hWritten : (fun i : Nat => [a][i]?) = fun i => if i = 0 then some a else none := by
      funext i
      cases i <;> rfl
    rw [hWritten]
    have hSlot : s.slots[0]? = some slot := by rw [hSlots]; rfl
    exact .atom (by simp [hBang]) (.list [a]) hSlot (hFits 0 slot a hSlot rfl)
  · exact .list hBang (.list atoms) hOne hFits

/-- **A list that fits goes through as it is**, whatever the slots held before. -/
theorem sent_list (hTypes : s.slots.map PackSlot.type = types) (h : SlotType.Fit types atoms)
    (scope : MessageScope) :
    sent (s.onMessage scope (.inlet 0) (.list atoms)).2 = [.outlet 0 (.list atoms)] := by
  obtain ⟨hSlots, hSends⟩ := takes_of_accepts scope (accepts_list hTypes h)
  have hValues : (s.onMessage scope (.inlet 0) (.list atoms)).1.slots.map PackSlot.value =
      atoms := by
    have hLength : s.slots.length = atoms.length := by
      rw [← h.length_eq, ← hTypes, List.length_map]
    refine List.ext_getElem? fun i => ?_
    rw [List.getElem?_map, hSlots, Option.map_map]
    rcases Nat.lt_or_ge i atoms.length with hi | hi
    · have hSlot := List.getElem?_eq_getElem (l := s.slots) (hLength ▸ hi)
      rw [hSlot, List.getElem?_eq_getElem hi]
      rfl
    · have hSlot := List.getElem?_eq_none (l := s.slots) (hLength ▸ hi)
      rw [hSlot, List.getElem?_eq_none hi]
      rfl
  rw [hSends, if_pos rfl, hValues]

end Pack

/-! ### Unpacking it -/

namespace Unpack

/-- What an outlet says for an atom: a number alone, or a symbol behind the selector, word by
word. -/
def said : Atom → Message
  | .number x => .number x
  | .symbol s => ⟨.symbol "symbol" :: (words s.toList).map Atom.ofChars⟩

/-- What an outlet would say for an atom if it handed it on. -/
def meant : Atom → Message
  | .number x => .number x
  | .symbol s => ⟨[.symbol "symbol", .symbol s]⟩

/-- One message for each atom, from the last outlet to the first. -/
def spread (say : Atom → Message) (atoms : List Atom) : List Emission :=
  (atoms.zipIdx.map fun p => .outlet p.2 (say p.1)).reverse

/-- What is read after the selector is read on its own. -/
theorem ofString_symbol (s : String) : Message.ofString s!"symbol {s}" = said (.symbol s) := by
  have hText : (s!"symbol {s}").toList = "symbol".toList ++ ' ' :: s.toList := by
    simp [String.toList_append, toString]
  have hSolid : Solid "symbol".toList := by decide +kernel
  have hSelector : Atom.ofChars "symbol".toList = .symbol "symbol" := by
    have hRead : Single.readFinite? "symbol".toList = none := by decide +kernel
    rw [Atom.ofChars, hRead]
    rfl
  rw [Message.ofString, Message.ofChars, hText, words, cut_append_cons hSolid.unblank isBlank_space,
    List.filter_cons_of_pos (by decide), List.map_cons, hSelector]
  rfl

/-- **An atom is said as it is meant exactly if it is a number or can be said.** -/
theorem said_eq_meant_iff (a : Atom) :
    said a = meant a ↔ ∀ s, a = .symbol s → (Atom.symbol s).Sayable := by
  cases a with
  | number x => exact ⟨fun _ _ h => (nomatch h), fun _ => rfl⟩
  | symbol s =>
      constructor
      · rintro hSaid t ⟨⟩
        have hWords : (words s.toList).map Atom.ofChars = [.symbol s] :=
          (List.cons.inj (Message.mk.inj hSaid)).2
        obtain ⟨w, hw, hAtom⟩ := List.map_eq_singleton_iff.mp hWords
        have hMem : w ∈ words s.toList := by simp [hw]
        rw [← hAtom]
        exact Atom.sayable_ofChars (solid_of_mem_words hMem)
      · intro hSayable
        have hSay := hSayable s rfl
        have hSolid : ∀ w ∈ [s.toList], Solid w := List.forall_mem_singleton.mpr hSay.solid
        have hWords : words s.toList = [s.toList] := words_unwords hSolid
        have hAtom : Atom.ofChars s.toList = .symbol s := hSay.ofChars_text
        rw [said, meant, hWords, List.map_singleton, hAtom]

theorem fireOutlet_of_accepts {t : SlotType} {a : Atom} (h : t.accepts a = true)
    (scope : MessageScope) (m : Message) (outlet : Nat) :
    fireOutlet scope m t a outlet = emitOn outlet (said a) := by
  cases t <;> cases a <;> first
    | rfl
    | exact congrArg (emitOn outlet) (ofString_symbol _)
    | exact absurd h Bool.false_ne_true

/-- Outlet by outlet, with the numbers counted from anywhere. -/
theorem fireOutlets {types : List SlotType} {atoms : List Atom} (h : SlotType.Fit types atoms)
    (scope : MessageScope) (m : Message) : ∀ k : Nat,
    ((types.zip atoms).zipIdx k).map (fun p => fireOutlet scope m p.1.1 p.1.2 p.2) =
      (atoms.zipIdx k).map fun p => emitOn p.2 (said p.1) := by
  induction h with
  | nil => intro k; rfl
  | cons hFits _ ih =>
      intro k
      rw [List.zip_cons_cons, List.zipIdx_cons, List.map_cons, ih, List.zipIdx_cons,
        List.map_cons, fireOutlet_of_accepts hFits]

theorem onMessage_list (u : Unpack) (scope : MessageScope) (atoms : List Atom) :
    u.onMessage scope (.inlet 0) (.list atoms) = (u, ((u.slots.zip atoms).zipIdx.map fun p =>
      fireOutlet scope (.list atoms) p.1.1 p.1.2 p.2).reverse) := by
  rw [← List.map_reverse, onMessage, Message.elements_list]

/-- **A list that fits is spread over the outlets**, every atom as it is said. -/
theorem sent_list {u : Unpack} {atoms : List Atom} (h : SlotType.Fit u.slots atoms)
    (scope : MessageScope) :
    sent (u.onMessage scope (.inlet 0) (.list atoms)).2 = spread said atoms := by
  have hEmitted : ∀ l : List (Atom × Nat), sent (l.map fun p => emitOn p.2 (said p.1)) =
      l.map fun p => .outlet p.2 (said p.1) := by
    intro l
    induction l with
    | nil => rfl
    | cons p l ih => rw [List.map_cons, sent_emitOn, ih, List.map_cons]
  rw [onMessage_list, fireOutlets h, ← List.map_reverse, hEmitted, spread, List.map_reverse]

/-- What is spread is spread as it is meant exactly if every atom is. -/
theorem spread_congr_iff {say say' : Atom → Message} {atoms : List Atom} :
    spread say atoms = spread say' atoms ↔ ∀ a ∈ atoms, say a = say' a := by
  rw [spread, spread, List.reverse_inj, List.map_inj_left]
  constructor
  · intro h a ha
    obtain ⟨i, hi⟩ := List.mem_iff_getElem?.mp ha
    exact (Emission.outlet.inj (h (a, i) (List.mem_zipIdx_iff_getElem?.mpr hi))).2
  · intro h p hp
    rw [h p.1 (List.fst_mem_of_mem_zipIdx hp)]

theorem slots_ofArgs (args : List String) : (ofArgs args).1.slots = SlotType.allDeclared args := by
  unfold ofArgs packSlots SlotType.allDeclared
  cases args with
  | nil => rfl
  | cons arg args =>
      have hTypes : ∀ a, (PackSlot.type ∘ Prod.fst ∘ PackSlot.ofArg "unpack") a = .declared a :=
        fun a => (Pack.declared_ofArg "unpack" a).1
      simp only [List.isEmpty_cons, Bool.false_eq_true, if_false, List.map_map, reduceCtorEq]
      exact List.map_congr_left fun a _ => hTypes a

/-! ### Both -/

/--
**Unpacking undoes packing as far as symbols can be said.**  Two boxes are made of the same
arguments, and the pack has had any messages.  A list of atoms that fit the arguments goes through
the pack as it is and comes out of the unpack as one message for each atom, from the last outlet
to the first: a number alone, and behind the selector `symbol` what a symbol is read as.  So the
atoms are handed on exactly if every symbol among them is one word and no numeral.
-/
theorem unpack_pack (args : List String) (history : List (MessageScope × Arrival × Message))
    {atoms : List Atom} (hFit : SlotType.Fit (SlotType.allDeclared args) atoms)
    (packing unpacking : MessageScope) :
    sent (((Pack.ofArgs args).1.after history).onMessage packing (.inlet 0) (.list atoms)).2 =
        [.outlet 0 (.list atoms)] ∧
      sent ((ofArgs args).1.onMessage unpacking (.inlet 0) (.list atoms)).2 =
        spread said atoms ∧
      (spread said atoms).length = (ofArgs args).1.slots.length ∧
      (spread said atoms = spread meant atoms ↔
        ∀ s, .symbol s ∈ atoms → (Atom.symbol s).Sayable) := by
  have hTyped := (Pack.typed_ofArgs args).after (Pack.allDeclared_ne_nil args) history
  refine ⟨Pack.sent_list hTyped.types hFit packing,
    sent_list (by rwa [slots_ofArgs]) unpacking, ?_, ?_⟩
  · rw [slots_ofArgs, hFit.length_eq]
    simp [spread]
  · simp only [spread_congr_iff, said_eq_meant_iff]
    exact ⟨fun h s hs => h _ hs s rfl, fun h a ha s hSymbol => h s (hSymbol ▸ ha)⟩

/-- A number and a word come back. -/
theorem unpack_pack_word :
    sent ((ofArgs ["f", "s"]).1.onMessage MessageBox.firstScope (.inlet 0)
        (.list [.number 0, .symbol "a"])).2 =
      [.outlet 1 ⟨[.symbol "symbol", .symbol "a"]⟩, .outlet 0 ⟨[.number 0]⟩] := by
  have hFit : SlotType.Fit (SlotType.allDeclared ["f", "s"]) [.number 0, .symbol "a"] :=
    .cons rfl (.cons rfl .nil)
  obtain ⟨-, hSent, -, hSaid⟩ :=
    unpack_pack ["f", "s"] [] hFit MessageBox.firstScope MessageBox.firstScope
  rw [hSent, hSaid.mpr]
  · rfl
  · intro s hs
    obtain rfl : s = "a" := by simpa using hs
    decide +kernel

/-- Two words in one symbol do not come back as one. -/
theorem unpack_pack_ne_meant : ¬∀ (args : List String) (atoms : List Atom),
    SlotType.Fit (SlotType.allDeclared args) atoms →
      sent ((ofArgs args).1.onMessage MessageBox.firstScope (.inlet 0) (.list atoms)).2 =
        spread meant atoms := by
  intro hAll
  have hFit : SlotType.Fit (SlotType.allDeclared ["s"]) [.symbol "a b"] := .cons rfl .nil
  have hSent := hAll ["s"] _ hFit
  rw [sent_list (by rwa [slots_ofArgs]), spread_congr_iff] at hSent
  have hSayable := (said_eq_meant_iff _).mp (hSent _ List.mem_cons_self) "a b" rfl
  exact absurd hSayable (by decide +kernel)

end Unpack

end Patchbay
