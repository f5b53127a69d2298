import Patchbay.Kind.Pack
import Patchbay.Proofs.Firing
import Patchbay.Proofs.Lineage

/-
What a `pack` keeps, whatever is sent to it.

A message is either accepted or rejected as a whole, and which of the two is a matter of the
message, of the inlet and of the types of the slots, not of the atoms that they hold.
`Accepts` has the three ways to be accepted, each with the atoms that it writes; `Rejects` has
the ways to be rejected.  Between them they say everything about one message: what is accepted
is written slot by slot and shows on the outlet if it came in at the first inlet, and what is
rejected leaves no trace but complaints.

The atoms that are written fit their slots, so the types are kept, and a run of messages keeps
what one message keeps.
-/

namespace Patchbay

/-- The atoms that a message brings: the one behind the selector `symbol`, those behind the
selector `list`, or all of them. -/
inductive Brings : Message → List Atom → Prop
  | symbol (a : Atom) : Brings ⟨[.symbol "symbol", a]⟩ [a]
  | list (atoms : List Atom) : Brings (.list atoms) atoms
  | bare {atoms : List Atom} (hSymbol : ∀ a, atoms ≠ [.symbol "symbol", a])
      (hList : ∀ rest, atoms ≠ .symbol "list" :: rest) : Brings ⟨atoms⟩ atoms

/-- The type that an argument declares.  Whatever is no name of a type declares a number. -/
def SlotType.declared (arg : String) : SlotType :=
  if arg = "s" ∨ arg = "symbol" then .symbol else .float

/-- The types that arguments declare; two numbers if there are none. -/
def SlotType.allDeclared (args : List String) : List SlotType :=
  if args = [] then [.float, .float] else args.map declared

namespace Pack

variable {s : Pack} {arrival : Arrival} {m : Message} {inlet : Nat}

/-- A message is accepted, and these are the atoms that it writes, by the number of the slot. -/
inductive Accepts (s : Pack) : Arrival → Message → (Nat → Option Atom) → Prop
  /-- A bang at the first inlet writes nothing. -/
  | bang {m : Message} (hBang : m.isBang = true) : Accepts s (.inlet 0) m fun _ => none
  /-- A single atom is for the slot of its inlet. -/
  | atom {m : Message} {inlet : Nat} {a : Atom} {slot : PackSlot}
      (hBang : ¬(inlet = 0 ∧ m.isBang = true)) (hBrings : Brings m [a])
      (hSlot : s.slots[inlet]? = some slot) (hFits : slot.type.accepts a = true) :
      Accepts s (.inlet inlet) m fun i => if i = inlet then some a else none
  /-- A list at the first inlet is for the slots from the left on, as far as it goes or they go. -/
  | list {m : Message} {atoms : List Atom} (hBang : m.isBang = false) (hBrings : Brings m atoms)
      (hMany : atoms.length ≠ 1) (hFits : ∀ (i : Nat) (slot : PackSlot) (a : Atom),
        s.slots[i]? = some slot → atoms[i]? = some a → slot.type.accepts a = true) :
      Accepts s (.inlet 0) m fun i => atoms[i]?

/-- A message is rejected. -/
inductive Rejects (s : Pack) : Arrival → Message → Prop
  | external {m : Message} : Rejects s .external m
  /-- There is no such inlet. -/
  | past {m : Message} {inlet : Nat} (hPast : s.slots.length ≤ inlet) : Rejects s (.inlet inlet) m
  /-- Other inlets than the first take single atoms only. -/
  | many {m : Message} {inlet : Nat} {atoms : List Atom} (hInlet : inlet ≠ 0)
      (hBrings : Brings m atoms) (hMany : atoms.length ≠ 1) : Rejects s (.inlet inlet) m
  | misfit {m : Message} {inlet : Nat} {a : Atom} {slot : PackSlot}
      (hBang : ¬(inlet = 0 ∧ m.isBang = true)) (hBrings : Brings m [a])
      (hSlot : s.slots[inlet]? = some slot) (hMisfit : slot.type.accepts a = false) :
      Rejects s (.inlet inlet) m
  /-- One atom of a list that does not fit is enough. -/
  | misfits {m : Message} {atoms : List Atom} {i : Nat} {slot : PackSlot} {a : Atom}
      (hBang : m.isBang = false) (hBrings : Brings m atoms) (hMany : atoms.length ≠ 1)
      (hSlot : s.slots[i]? = some slot) (hAtom : atoms[i]? = some a)
      (hMisfit : slot.type.accepts a = false) : Rejects s (.inlet 0) m

/-- The slots have been written, and nothing else has changed in them.  All values are sent as a
list if the message came in at the first inlet, and else nothing is. -/
structure Takes (s : Pack) (arrival : Arrival) (written : Nat → Option Atom)
    (r : Pack × List Reaction) : Prop where
  slots : ∀ i : Nat, r.1.slots[i]? =
    s.slots[i]?.map fun slot => { slot with value := (written i).getD slot.value }
  sends : sent r.2 =
    if arrival = .inlet 0 then [.outlet 0 (.list (r.1.slots.map PackSlot.value))] else []

/-! ### What a message brings -/

theorem elements_of_bare {atoms : List Atom} (hList : ∀ rest, atoms ≠ .symbol "list" :: rest) :
    (Message.mk atoms).elements = atoms := by
  unfold Message.elements
  split
  · rename_i name rest hAtoms
    refine if_neg fun hName => hList rest ?_
    rw [← hName]
    exact hAtoms
  · rfl

theorem incoming_of_brings {atoms : List Atom} (h : Brings m atoms) : incoming m = atoms := by
  cases h with
  | symbol a => rfl
  | list atoms =>
      have hElements := Message.elements_list atoms
      unfold incoming
      split
      · rename_i name a hAtoms
        obtain ⟨hName, -⟩ := List.cons.inj hAtoms
        rw [if_neg (by rw [← Atom.symbol.inj hName]; decide)]
        exact hElements
      · exact hElements
  | @bare atoms hSymbol hList =>
      unfold incoming
      split
      · rename_i name a hAtoms
        rw [if_neg fun hName : name = "symbol" => hSymbol a (hName ▸ hAtoms)]
        exact elements_of_bare hList
      · exact elements_of_bare hList

/-- What a message brings has one reading. -/
theorem brings_unique {atoms atoms' : List Atom} (h : Brings m atoms) (h' : Brings m atoms') :
    atoms = atoms' :=
  (incoming_of_brings h).symm.trans (incoming_of_brings h')

/-- Every message brings atoms. -/
theorem brings_incoming (m : Message) : Brings m (incoming m) := by
  obtain ⟨atoms⟩ := m
  have hSome : ∃ brought, Brings ⟨atoms⟩ brought := by
    by_cases hSymbol : ∃ a, atoms = [.symbol "symbol", a]
    · obtain ⟨a, rfl⟩ := hSymbol
      exact ⟨_, .symbol a⟩
    · by_cases hList : ∃ rest, atoms = .symbol "list" :: rest
      · obtain ⟨rest, rfl⟩ := hList
        exact ⟨_, .list rest⟩
      · exact ⟨_, .bare (not_exists.mp hSymbol) (not_exists.mp hList)⟩
  obtain ⟨brought, hBrings⟩ := hSome
  rw [incoming_of_brings hBrings]
  exact hBrings

/-! ### One message -/

section Step

variable (scope : MessageScope)

theorem onMessage_bang (h : m.isBang = true) :
    s.onMessage scope (.inlet 0) m = (s, [emitOn 0 s.collected]) :=
  if_pos ⟨rfl, h⟩

theorem onMessage_atom {a : Atom} (hBang : ¬(inlet = 0 ∧ m.isBang = true)) (h : Brings m [a]) :
    s.onMessage scope (.inlet inlet) m = s.takeOne scope inlet a := by
  simp only [onMessage]
  rw [if_neg hBang, incoming_of_brings h]

theorem onMessage_many {atoms : List Atom} (hBang : ¬(inlet = 0 ∧ m.isBang = true))
    (h : Brings m atoms) (hMany : atoms.length ≠ 1) : s.onMessage scope (.inlet inlet) m =
      if inlet = 0 then s.takeList scope atoms else (s, [scope.mismatch "single atom" m]) := by
  simp only [onMessage]
  rw [if_neg hBang, incoming_of_brings h]
  split
  · exact absurd rfl hMany
  · rfl

/-- Slots that are filled from the left. -/
theorem getElem?_fill : ∀ (slots : List PackSlot) (atoms : List Atom) (i : Nat),
    (fill slots atoms)[i]? =
      slots[i]?.map fun slot => { slot with value := atoms[i]?.getD slot.value } := by
  intro slots
  induction slots with
  | nil => intro atoms i; simp [fill]
  | cons slot slots ih =>
      intro atoms i
      cases atoms with
      | nil => simp [fill]
      | cons a atoms =>
          cases i with
          | zero => simp [fill]
          | succ i => simpa [fill] using ih atoms i

theorem getElem?_store (a : Atom) (i : Nat) : (s.store inlet a).slots[i]? =
    s.slots[i]?.map fun slot =>
      { slot with value := (if i = inlet then some a else none).getD slot.value } := by
  rw [store, List.getElem?_modify]
  by_cases hi : inlet = i
  · subst hi
    simp
  · simp [hi, Ne.symm hi]

/-- The atoms of a list that do not fit, with the slots that they are for. -/
def misfits (s : Pack) (atoms : List Atom) : List (PackSlot × Atom) :=
  (s.slots.zip atoms).filter fun p => !p.1.type.accepts p.2

theorem mem_misfits {atoms : List Atom} {p : PackSlot × Atom} : p ∈ s.misfits atoms ↔
    (∃ i : Nat, s.slots[i]? = some p.1 ∧ atoms[i]? = some p.2) ∧
      p.1.type.accepts p.2 = false := by
  rw [misfits, List.mem_filter, List.mem_iff_getElem?, Bool.not_eq_true']
  simp only [List.getElem?_zip_eq_some]

theorem takeList_eq (atoms : List Atom) : s.takeList scope atoms =
    if (s.misfits atoms).isEmpty then
      (⟨fill s.slots atoms⟩, [emitOn 0 (⟨fill s.slots atoms⟩ : Pack).collected])
    else (s, (s.misfits atoms).reverse.map fun p => reject scope p.1 p.2) := rfl

/-- A list that fits fills the slots. -/
theorem takeList_of_fits {atoms : List Atom} (hFits : ∀ (i : Nat) (slot : PackSlot) (a : Atom),
    s.slots[i]? = some slot → atoms[i]? = some a → slot.type.accepts a = true) :
    s.takeList scope atoms =
      (⟨fill s.slots atoms⟩, [emitOn 0 (⟨fill s.slots atoms⟩ : Pack).collected]) := by
  have hNone : s.misfits atoms = [] := by
    refine List.eq_nil_iff_forall_not_mem.mpr fun p hp => ?_
    obtain ⟨⟨i, hSlot, hAtom⟩, hMisfit⟩ := mem_misfits.mp hp
    simp [hFits i p.1 p.2 hSlot hAtom] at hMisfit
  rw [takeList_eq, hNone]
  rfl

/-- What does not fit keeps the whole list out. -/
theorem takeList_of_misfit {atoms : List Atom} {i : Nat} {slot : PackSlot} {a : Atom}
    (hSlot : s.slots[i]? = some slot) (hAtom : atoms[i]? = some a)
    (hMisfit : slot.type.accepts a = false) :
    (s.takeList scope atoms).1 = s ∧ sent (s.takeList scope atoms).2 = [] := by
  have hFound : (slot, a) ∈ s.misfits atoms := mem_misfits.mpr ⟨⟨i, hSlot, hAtom⟩, hMisfit⟩
  have hSome : ¬(s.misfits atoms).isEmpty = true := by
    rw [List.isEmpty_iff]
    exact List.ne_nil_of_mem hFound
  rw [takeList_eq, if_neg hSome]
  exact ⟨rfl, sent_map_eq_nil (fun _ => rfl) _⟩

/-- **What is accepted is written, and sent on from the first inlet.** -/
theorem takes_of_accepts {written : Nat → Option Atom} (h : s.Accepts arrival m written) :
    s.Takes arrival written (s.onMessage scope arrival m) := by
  cases h with
  | bang hBang =>
      rw [onMessage_bang scope hBang]
      exact ⟨fun i => by simp, by simp [collected]⟩
  | @atom _ inlet a slot hBang hBrings hSlot hFits =>
      have hTaken : s.takeOne scope inlet a = (s.store inlet a,
          if inlet = 0 then [emitOn 0 (s.store inlet a).collected] else []) := by
        unfold takeOne
        rw [hSlot]
        exact if_pos hFits
      rw [onMessage_atom scope hBang hBrings, hTaken]
      refine ⟨getElem?_store a, ?_⟩
      by_cases hFirst : inlet = 0
      · simp [hFirst, collected]
      · simp [hFirst]
  | @list _ atoms hBang hBrings hMany hFits =>
      rw [onMessage_many scope (fun h => absurd h.2 (by simp [hBang])) hBrings hMany, if_pos rfl,
        takeList_of_fits scope hFits]
      exact ⟨getElem?_fill s.slots atoms, by simp [collected]⟩

/-- What is rejected changes nothing and sends nothing. -/
structure Untouched (s : Pack) (r : Pack × List Reaction) : Prop where
  slots : r.1 = s
  sends : sent r.2 = []

/-- At an inlet without a slot nothing is taken. -/
theorem untouched_past (hSome : s.slots ≠ []) (hPast : s.slots.length ≤ inlet) :
    s.Untouched (s.onMessage scope (.inlet inlet) m) := by
  have hInlet : inlet ≠ 0 := by
    rintro rfl
    exact hSome (List.length_eq_zero_iff.mp (Nat.le_zero.mp hPast))
  have hBrings := brings_incoming m
  by_cases hOne : (incoming m).length = 1
  · obtain ⟨a, hAtom⟩ := List.length_eq_one_iff.mp hOne
    rw [hAtom] at hBrings
    rw [onMessage_atom scope (fun h => hInlet h.1) hBrings, takeOne,
      List.getElem?_eq_none hPast]
    exact ⟨rfl, rfl⟩
  · rw [onMessage_many scope (fun h => hInlet h.1) hBrings hOne, if_neg hInlet]
    exact ⟨rfl, rfl⟩

/-- **What is rejected leaves no trace but complaints.** -/
theorem untouched_of_rejects (hSome : s.slots ≠ []) (h : s.Rejects arrival m) :
    s.Untouched (s.onMessage scope arrival m) := by
  cases h with
  | external => exact ⟨rfl, rfl⟩
  | past hPast => exact untouched_past scope hSome hPast
  | many hInlet hBrings hMany =>
      rw [onMessage_many scope (fun h => hInlet h.1) hBrings hMany, if_neg hInlet]
      exact ⟨rfl, rfl⟩
  | @misfit _ inlet a slot hBang hBrings hSlot hMisfit =>
      have hTaken : s.takeOne scope inlet a = (s, [reject scope slot a]) := by
        unfold takeOne
        rw [hSlot]
        exact if_neg (by simp [hMisfit])
      rw [onMessage_atom scope hBang hBrings, hTaken]
      exact ⟨rfl, rfl⟩
  | misfits hBang hBrings hMany hSlot hAtom hMisfit =>
      rw [onMessage_many scope (fun h => absurd h.2 (by simp [hBang])) hBrings hMany, if_pos rfl]
      obtain ⟨hSlots, hSends⟩ := takeList_of_misfit scope hSlot hAtom hMisfit
      exact ⟨hSlots, hSends⟩

end Step

/-- Every message is accepted or rejected. -/
theorem accepts_or_rejects (s : Pack) (arrival : Arrival) (m : Message) :
    (∃ written, s.Accepts arrival m written) ∨ s.Rejects arrival m := by
  cases arrival with
  | external => exact .inr .external
  | inlet inlet =>
      by_cases hBang : inlet = 0 ∧ m.isBang = true
      · obtain ⟨rfl, hBang⟩ := hBang
        exact .inl ⟨_, .bang hBang⟩
      have hBrings := brings_incoming m
      by_cases hOne : (incoming m).length = 1
      · obtain ⟨a, hAtom⟩ := List.length_eq_one_iff.mp hOne
        rw [hAtom] at hBrings
        cases hSlot : s.slots[inlet]? with
        | none => exact .inr (.past (List.getElem?_eq_none_iff.mp hSlot))
        | some slot =>
            cases hFits : slot.type.accepts a with
            | true => exact .inl ⟨_, .atom hBang hBrings hSlot hFits⟩
            | false => exact .inr (.misfit hBang hBrings hSlot hFits)
      · by_cases hFirst : inlet = 0
        · subst hFirst
          have hBang : m.isBang = false := by simpa using hBang
          by_cases hFits : ∀ (i : Nat) (slot : PackSlot) (a : Atom), s.slots[i]? = some slot →
              (incoming m)[i]? = some a → slot.type.accepts a = true
          · exact .inl ⟨_, .list hBang hBrings hOne hFits⟩
          · simp only [not_forall] at hFits
            obtain ⟨i, slot, a, hSlot, hAtom, hMisfit⟩ := hFits
            exact .inr (.misfits hBang hBrings hOne hSlot hAtom (by simpa using hMisfit))
        · exact .inr (.many hFirst hBrings hOne)

/-- No message is both. -/
theorem Accepts.not_rejects (hSome : s.slots ≠ []) {written : Nat → Option Atom}
    (h : s.Accepts arrival m written) : ¬s.Rejects arrival m := by
  intro hRejects
  cases h with
  | bang hBang =>
      cases hRejects with
      | past hPast => exact hSome (List.length_eq_zero_iff.mp (Nat.le_zero.mp hPast))
      | many hInlet => exact hInlet rfl
      | misfit hNot => exact hNot ⟨rfl, hBang⟩
      | misfits hNot => simp [hNot] at hBang
  | atom hBang hBrings hSlot hFits =>
      cases hRejects with
      | past hPast => simp [List.getElem?_eq_none hPast] at hSlot
      | many _ hOther hMany => exact hMany (brings_unique hOther hBrings ▸ rfl)
      | misfit _ hOther hThere hMisfit =>
          obtain rfl := List.singleton_inj.mp (brings_unique hOther hBrings)
          obtain rfl := Option.some.inj (hThere.symm.trans hSlot)
          simp [hMisfit] at hFits
      | misfits _ hOther hMany => exact hMany (brings_unique hOther hBrings ▸ rfl)
  | list hBang hBrings hMany hFits =>
      cases hRejects with
      | past hPast => exact hSome (List.length_eq_zero_iff.mp (Nat.le_zero.mp hPast))
      | many hInlet => exact hInlet rfl
      | misfit _ hOther => exact hMany (brings_unique hBrings hOther ▸ rfl)
      | misfits _ hOther _ hSlot hAtom hMisfit =>
          obtain rfl := brings_unique hOther hBrings
          simp [hFits _ _ _ hSlot hAtom] at hMisfit

/-- What is written fits. -/
theorem Accepts.fits {written : Nat → Option Atom} (h : s.Accepts arrival m written) {i : Nat}
    {slot : PackSlot} {a : Atom} (hSlot : s.slots[i]? = some slot) (hAtom : written i = some a) :
    slot.type.accepts a = true := by
  cases h with
  | bang => exact nomatch hAtom
  | @atom _ inlet b there _ _ hThere hFits =>
      by_cases hi : i = inlet
      · subst hi
        obtain rfl := Option.some.inj (hThere.symm.trans hSlot)
        obtain rfl : b = a := by simpa using hAtom
        exact hFits
      · simp [hi] at hAtom
  | list _ _ _ hFits => exact hFits i slot a hSlot hAtom

/-! ### Any number of messages -/

/-- A pack after messages, each with what the box has seen of the engine at that time. -/
def after (s : Pack) (history : List (MessageScope × Arrival × Message)) : Pack :=
  history.foldl (fun s (scope, arrival, m) => (s.onMessage scope arrival m).1) s

/-- The slots are of these types, and every one holds an atom of its type. -/
structure Typed (types : List SlotType) (s : Pack) : Prop where
  types : s.slots.map PackSlot.type = types
  values : ∀ slot ∈ s.slots, slot.type.accepts slot.value = true

theorem Takes.typed {types : List SlotType} {written : Nat → Option Atom}
    {r : Pack × List Reaction} (hTakes : s.Takes arrival written r)
    (hAccepts : s.Accepts arrival m written) (h : s.Typed types) : r.1.Typed types := by
  refine ⟨?_, fun slot hSlot => ?_⟩
  · rw [← h.types]
    refine List.ext_getElem? fun i => ?_
    rw [List.getElem?_map, List.getElem?_map, hTakes.slots, Option.map_map]
    rfl
  · obtain ⟨i, hi⟩ := List.mem_iff_getElem?.mp hSlot
    rw [hTakes.slots] at hi
    obtain ⟨old, hOld, rfl⟩ := Option.map_eq_some_iff.mp hi
    cases hWritten : written i with
    | none => exact h.values old (List.mem_of_getElem? hOld)
    | some a =>
        have hFits : old.type.accepts a = true := hAccepts.fits hOld hWritten
        exact hFits

/-- **One message keeps the types.** -/
theorem Typed.onMessage {types : List SlotType} (hSome : types ≠ []) (h : s.Typed types)
    (scope : MessageScope) (arrival : Arrival) (m : Message) :
    (s.onMessage scope arrival m).1.Typed types := by
  rcases accepts_or_rejects s arrival m with ⟨written, hAccepts⟩ | hRejects
  · exact (takes_of_accepts scope hAccepts).typed hAccepts h
  · have hSlots : s.slots ≠ [] := by
      rintro hNone
      exact hSome (h.types ▸ by rw [hNone]; rfl)
    rw [(untouched_of_rejects scope hSlots hRejects).slots]
    exact h

/-- **Any number of messages does.** -/
theorem Typed.after {types : List SlotType} (hSome : types ≠ [])
    (history : List (MessageScope × Arrival × Message)) :
    ∀ {s : Pack}, s.Typed types → (s.after history).Typed types := by
  induction history with
  | nil => exact fun h => h
  | cons step history ih => exact fun h => ih (h.onMessage hSome _ _ _)

/-! ### The slots that arguments give -/

/-- A word that is no number is read as itself. -/
theorem eq_of_ofString_symbol {word name : String} (h : Atom.ofString word = .symbol name) :
    name = word := by
  unfold Atom.ofString Atom.ofChars at h
  split at h
  · exact nomatch h
  · rw [← Atom.symbol.inj h, String.ofList_toList]

/-- The names of types are no numbers. -/
theorem declared_of_number {word : String} {x : Float32} (h : Atom.ofString word = .number x) :
    SlotType.declared word = .float := by
  have hRead : (Single.readFinite? word.toList).isSome = true := by
    unfold Atom.ofString Atom.ofChars at h
    split at h
    · rename_i y hSome
      rw [hSome]
      rfl
    · exact nomatch h
  refine if_neg ?_
  rintro (rfl | rfl)
  · exact absurd hRead (by decide +kernel)
  · exact absurd hRead (by decide +kernel)

theorem declared_ofArg (kind arg : String) :
    (PackSlot.ofArg kind arg).1.type = .declared arg ∧
      (PackSlot.ofArg kind arg).1.type.accepts (PackSlot.ofArg kind arg).1.value = true := by
  unfold PackSlot.ofArg
  split
  · rename_i x hRead
    exact ⟨(declared_of_number hRead).symm, rfl⟩
  · rename_i name hRead
    obtain rfl := eq_of_ofString_symbol hRead
    split
    · rename_i hName
      refine ⟨(if_neg ?_).symm, rfl⟩
      rcases hName with rfl | rfl <;> decide
    · split
      · rename_i hName
        exact ⟨(if_pos hName).symm, rfl⟩
      · rename_i hOther
        exact ⟨(if_neg hOther).symm, rfl⟩

theorem slots_ofArgs (args : List String) : (ofArgs args).1.slots =
    if args = [] then [⟨.float, .number 0⟩, ⟨.float, .number 0⟩]
    else args.map fun arg => (PackSlot.ofArg "pack" arg).1 := by
  unfold ofArgs packSlots
  cases args with
  | nil => rfl
  | cons arg args => simp [Function.comp_def]

/-- A pack starts with atoms of the types that its arguments declare. -/
theorem typed_ofArgs (args : List String) :
    (ofArgs args).1.Typed (SlotType.allDeclared args) := by
  constructor
  · rw [slots_ofArgs, SlotType.allDeclared]
    split
    · rfl
    · rw [List.map_map]
      exact List.map_congr_left fun arg _ => (declared_ofArg "pack" arg).1
  · rw [slots_ofArgs]
    split
    · simp [SlotType.accepts]
    · exact List.forall_mem_map.mpr fun arg _ => (declared_ofArg "pack" arg).2

theorem allDeclared_ne_nil (args : List String) : SlotType.allDeclared args ≠ [] := by
  unfold SlotType.allDeclared
  split
  · exact List.cons_ne_nil _ _
  · rename_i hSome
    simpa using hSome

/-- What a pack is and does at any time, for arguments that it was made of. -/
structure Keeps (args : List String) (s : Pack) : Prop where
  /-- Every slot holds an atom of the type that its argument declares. -/
  typed : s.Typed (SlotType.allDeclared args)
  /-- There are as many slots as inlets were laid out. -/
  count : ∀ layout : Layout, s.slots.length = ((ofArgs args).1.preinit layout).inlets
  /-- Every message is accepted or rejected, and not both. -/
  judged : ∀ arrival m, ((∃ written, s.Accepts arrival m written) ∨ s.Rejects arrival m) ∧
    ∀ written, s.Accepts arrival m written → ¬s.Rejects arrival m
  accepted : ∀ scope arrival m written, s.Accepts arrival m written →
    s.Takes arrival written (s.onMessage scope arrival m)
  rejected : ∀ scope arrival m, s.Rejects arrival m → s.Untouched (s.onMessage scope arrival m)

theorem keeps_of_typed {args : List String} (h : s.Typed (SlotType.allDeclared args)) :
    s.Keeps args := by
  have hSome : s.slots ≠ [] := by
    intro hNone
    exact allDeclared_ne_nil args (h.types ▸ by rw [hNone]; rfl)
  have hLength := congrArg List.length (h.types.trans (typed_ofArgs args).types.symm)
  rw [List.length_map, List.length_map] at hLength
  exact ⟨h, fun _ => hLength,
    fun arrival m => ⟨accepts_or_rejects s arrival m, fun _ h => h.not_rejects hSome⟩,
    fun scope _ _ _ => takes_of_accepts scope, fun scope _ _ => untouched_of_rejects scope hSome⟩

/--
**A pack keeps its types, and takes a message whole or not at all.**  Whatever arguments a pack
is made of and whatever messages it has had, at any inlets and from outside, every slot holds an
atom of the type that its argument declares, and there are as many slots as the box has inlets.
Any further message is accepted or rejected.  If it is accepted, the atoms that it has for
slots are written into them, no other slot changes, and the box sends the list of all values if
the message came in at the first inlet, and nothing otherwise.  If it is rejected, no slot
changes and nothing is sent.
-/
theorem takes_all_or_nothing (args : List String)
    (history : List (MessageScope × Arrival × Message)) :
    ((ofArgs args).1.after history).Keeps args :=
  keeps_of_typed ((typed_ofArgs args).after (allDeclared_ne_nil args) history)

end Pack

/-! ### In an engine -/

section Boxes

variable {κ : Type} [CustomKind κ]

/-- The pack that an object is, if it is one. -/
def Object.pack? : Object κ → Option Pack
  | .pack s => some s
  | _ => none

/-- Of the hooks of a pack, only that for messages changes it. -/
theorem Object.Becomes.exists_after {o o' : Object κ} (hLife : o.Becomes o') :
    ∃ history, o'.pack? = o.pack?.map fun s => s.after history := by
  induction hLife with
  | start => exact ⟨[], Option.map_id'.symm⟩
  | @init scope o' _ ih =>
      have hSame : (o'.init scope).1.pack? = o'.pack? := by cases o' <;> rfl
      exact hSame ▸ ih
  | @process scope inputs outputs o' _ ih =>
      have hSame : (o'.process scope inputs outputs).state.pack? = o'.pack? := by cases o' <;> rfl
      exact hSame ▸ ih
  | @message scope arrival m o' _ ih =>
      obtain ⟨history, hHistory⟩ := ih
      have hStep : (o'.onMessage scope arrival m).1.pack? =
          o'.pack?.map fun s => (s.onMessage scope arrival m).1 := by cases o' <;> rfl
      refine ⟨history ++ [(scope, arrival, m)], ?_⟩
      rw [hStep, hHistory, Option.map_map]
      refine congrArg (o.pack?.map ·) (funext fun s => ?_)
      rw [Pack.after, List.foldl_append]
      rfl

/-- The only packs that the kinds make are those of their arguments, with an inlet for each
slot. -/
theorem Registry.pack_builtinKinds : ∀ d ∈ (builtinKinds : List (KindDecl κ)), ∀ args,
    ∀ s ∈ (d.made args).1.pack?,
      s = (Pack.ofArgs args).1 ∧ (d.made args).2.inlets = s.slots.length := by
  simp only [builtinKinds, structuralKinds, signalKinds, controlKinds, SignalOp.all, Operator.all,
    List.map_cons, List.map_nil, List.forall_mem_append, List.forall_mem_cons, List.not_mem_nil,
    false_implies, implies_true, and_true]
  and_intros
  all_goals intro args s hs
  all_goals first
    | (obtain rfl := Option.some.inj hs; exact ⟨rfl, rfl⟩)
    | cases hs

/-- **In a live engine every pack is at all times as its arguments say**, with a slot for each of
the inlets of its box. -/
theorem Engine.Live.pack_keeps {e : Engine κ} (h : e.Live) {n : Node κ} (hn : n ∈ e.graph.nodes)
    {s : Pack} (hPack : n.object = .pack s) : s.Keeps n.args ∧ n.inlets.size = s.slots.length := by
  obtain ⟨hInlets, -, hLife⟩ := h.descends n hn
  obtain ⟨history, hHistory⟩ := hLife.exists_after
  rw [hPack] at hInlets hHistory
  obtain ⟨start, hStart, hAfter⟩ := Option.map_eq_some_iff.mp hHistory.symm
  have hMade : start = (Pack.ofArgs n.args).1 ∧
      (Registry.madeFor n.kind n.args : Object κ × Layout).2.inlets = start.slots.length := by
    rcases Registry.madeFor_cases (κ := κ) n.kind n.args with ⟨d, hd, hKind⟩ | hNull
    · rw [hKind] at hStart ⊢
      exact Registry.pack_builtinKinds d hd n.args start hStart
    · rw [hNull] at hStart
      exact nomatch hStart
  obtain ⟨rfl, hLaidOut⟩ := hMade
  have hTyped : s.Typed (SlotType.allDeclared n.args) :=
    hAfter ▸ (Pack.typed_ofArgs n.args).after (Pack.allDeclared_ne_nil n.args) history
  have hKeeps := Pack.keeps_of_typed hTyped
  refine ⟨hKeeps, ?_⟩
  rw [hInlets.resolve_left Bool.false_ne_true, hLaidOut]
  exact (hKeeps.count ⟨0, []⟩).symm

end Boxes

end Patchbay
