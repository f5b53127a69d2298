import Mathlib.Data.List.Forall2
import Patchbay.Proofs.Relay

/-
What a message box sends is laid out by its text alone.

Three things happen to text when a box fires: the stored text is cut into messages and
parts, the placeholders of each part are filled with atoms of the message that came in, and
what results is read as words.  Text that came from outside is first seen in the second
step, when all cuts have been made, and the third step knows no delimiters.  So a semicolon,
a comma, a dollar sign or a backslash in an atom is a character like any other.

The proof makes the order of the steps visible.  A `plan` is the text cut down to pieces,
messages of parts of pieces, and it is there before anything comes in; `Fires` says what
goes out for a plan and a list of atoms.  Two runs of one box share their plan.  They differ
in what is filled in and, for a later message, in whether its first part names a receiver.
-/

namespace Patchbay

/-- The messages among what a box does, in their order. -/
def sent (reactions : List Reaction) : List Emission :=
  reactions.filterMap Reaction.emission?

@[simp] theorem sent_nil : sent [] = [] := rfl

@[simp] theorem sent_append (l l' : List Reaction) : sent (l ++ l') = sent l ++ sent l' :=
  List.filterMap_append

@[simp] theorem sent_emitOn (outlet : Nat) (m : Message) (l : List Reaction) :
    sent (emitOn outlet m :: l) = .outlet outlet m :: sent l := rfl

@[simp] theorem sent_emitTo (name : String) (m : Message) (l : List Reaction) :
    sent (emitTo name m :: l) = .receiver name m :: sent l := rfl

/-- What only goes into the journal is not sent. -/
theorem sent_map_eq_nil {α : Type} {f : α → Reaction} (h : ∀ a, (f a).emission? = none)
    (l : List α) : sent (l.map f) = [] := by
  rw [sent, List.filterMap_map, List.filterMap_eq_nil_iff]
  exact fun a _ => h a

/-- What is sent for a row of things is sent for one after the other. -/
theorem sent_flatMap {α : Type} (f : α → List Reaction) (l : List α) :
    sent (l.flatMap f) = l.flatMap fun a => sent (f a) :=
  List.filterMap_flatMap ..

/-- Whether a message goes out of an outlet with this number. -/
def Emission.isOn (k : Nat) : Emission → Bool
  | .outlet other _ => other == k
  | .receiver _ _ => false

namespace MessageBox

open BoxText

/-! ### Plans -/

/-- A part, cut into pieces. -/
abbrev Pieces := List Piece

/-- Pieces with the placeholders filled, read as a message. -/
def filledWith (atoms : List Atom) (ps : Pieces) : Message :=
  .ofChars (ps.flatMap (Piece.filled atoms))

/-- Box text cut down to pieces.  This involves no message. -/
def Plan (text : List (List String)) (plan : List (List Pieces)) : Prop :=
  List.Forall₂ (List.Forall₂ fun part ps => Cut part.toList ps) text plan

/-- What goes out for an addressed message. -/
inductive Addresses (atoms : List Atom) : List Pieces → List Emission → Prop
  | nothing : Addresses atoms [] []
  /-- The first part names no receiver, so there is nobody to send the others to. -/
  | nobody {ps : Pieces} {parts : List Pieces}
      (h : ∀ name body, (filledWith atoms ps).atoms ≠ .symbol name :: body) :
      Addresses atoms (ps :: parts) []
  /-- The first part names a receiver for all parts.  A part with nothing in it is left out. -/
  | somebody {ps : Pieces} {parts : List Pieces} {name : String} {body : List Atom}
      (h : (filledWith atoms ps).atoms = .symbol name :: body) :
      Addresses atoms (ps :: parts)
        (((⟨body⟩ :: parts.map (filledWith atoms)).filter fun m => !m.isEmpty).map
          (.receiver name))

/-- What goes out when a plan is filled with atoms: all parts of the first message out of the
outlet, then what the later messages address. -/
def Fires (atoms : List Atom) (plan : List (List Pieces)) (out : List Emission) : Prop :=
  ∃ groups, out = (plan.headD []).map (fun ps => .outlet 0 (filledWith atoms ps)) ++
    groups.flatten ∧ List.Forall₂ (Addresses atoms) plan.tail groups

/-- What may go out for a later message with so many parts: at most one message for each part,
and all to one name. -/
structure IsGroup (parts : Nat) (group : List Emission) : Prop where
  length : group.length ≤ parts
  addressed : ∃ name, ∀ x ∈ group, ∃ m, x = .receiver name m

/-- Messages laid out as counts of parts say: one out of the outlet for each part of the first
message, then a group for each later message. -/
def LaidOut (counts : List Nat) (out : List Emission) : Prop :=
  ∃ own groups, out = own ++ groups.flatten ∧ own.length = counts.headD 0 ∧
    (∀ x ∈ own, ∃ m, x = .outlet 0 m) ∧ List.Forall₂ IsGroup counts.tail groups

theorem exists_cuts (parts : List String) :
    ∃ cuts : List Pieces, List.Forall₂ (fun part ps => Cut part.toList ps) parts cuts := by
  induction parts with
  | nil => exact ⟨[], .nil⟩
  | cons part parts ih =>
      obtain ⟨ps, hCut⟩ := exists_cut _ part.toList (Nat.le_refl _)
      obtain ⟨cuts, hCuts⟩ := ih
      exact ⟨ps :: cuts, .cons hCut hCuts⟩

theorem exists_plan (text : List (List String)) : ∃ plan, Plan text plan := by
  induction text with
  | nil => exact ⟨[], .nil⟩
  | cons parts text ih =>
      obtain ⟨cuts, hCuts⟩ := exists_cuts parts
      obtain ⟨plan, hPlan⟩ := ih
      exact ⟨cuts :: plan, .cons hCuts hPlan⟩

theorem Plan.map_length {text : List (List String)} {plan : List (List Pieces)}
    (h : Plan text plan) : plan.map List.length = text.map List.length := by
  induction h with
  | nil => rfl
  | cons hParts _ ih => rw [List.map_cons, List.map_cons, ih, hParts.length_eq]

/-! ### Firing by plan -/

section Plans

variable {scope : MessageScope} {m : Message} {out : List Emission} {plan : List (List Pieces)}

/-- A part is expanded piece by piece, and what is complained of is not sent. -/
theorem expand_of_cut (scope : MessageScope) (m : Message) {part : String} {ps : Pieces}
    (h : Cut part.toList ps) :
    (expand scope m part).1 = filledWith m.elements ps ∧ sent (expand scope m part).2 = [] := by
  rw [expand, substitute_of_cut h]
  refine ⟨?_, sent_map_eq_nil (fun _ => rfl) _⟩
  show Message.ofChars (String.ofList _).toList = _
  rw [String.toList_ofList, filledWith]

theorem sent_fireParts {parts : List String} {cuts : List Pieces}
    (h : List.Forall₂ (fun part ps => Cut part.toList ps) parts cuts) :
    sent (fireParts scope m parts) =
      cuts.map fun ps => .outlet 0 (filledWith m.elements ps) := by
  rw [fireParts, sent_flatMap]
  induction h with
  | nil => rfl
  | cons hCut _ ih =>
      obtain ⟨hMessage, hSilent⟩ := expand_of_cut scope m hCut
      rw [List.flatMap_cons, ih, sent_append, hSilent, hMessage]
      rfl

theorem sent_sendUnlessEmpty (name : String) (m : Message) :
    sent (sendUnlessEmpty name m) = ([m].filter fun m => !m.isEmpty).map (.receiver name) := by
  unfold sendUnlessEmpty
  split <;> simp [*]

theorem sent_fireTo (name : String) {parts : List String} {cuts : List Pieces}
    (h : List.Forall₂ (fun part ps => Cut part.toList ps) parts cuts) :
    sent (fireTo scope m name parts) =
      ((cuts.map (filledWith m.elements)).filter fun m => !m.isEmpty).map (.receiver name) := by
  rw [fireTo, sent_flatMap]
  induction h with
  | nil => rfl
  | cons hCut _ ih =>
      obtain ⟨hMessage, hSilent⟩ := expand_of_cut scope m hCut
      rw [List.flatMap_cons, ih, sent_append, hSilent, hMessage, sent_sendUnlessEmpty,
        List.nil_append, ← List.map_append, ← List.filter_append]
      rfl

theorem addresses_fireAddressed {parts : List String} {cuts : List Pieces}
    (h : List.Forall₂ (fun part ps => Cut part.toList ps) parts cuts) :
    Addresses m.elements cuts (sent (fireAddressed scope m parts)) := by
  cases h with
  | nil => exact .nothing
  | @cons part ps parts cuts hCut hCuts =>
      obtain ⟨hMessage, hSilent⟩ := expand_of_cut scope m hCut
      unfold fireAddressed
      dsimp only
      split
      · rename_i name body hAtoms
        rw [hMessage] at hAtoms
        rw [sent_append, sent_append, hSilent, List.nil_append, sent_sendUnlessEmpty,
          sent_fireTo name hCuts, ← List.map_append, ← List.filter_append]
        exact .somebody hAtoms
      · rename_i hNobody
        rw [hMessage] at hNobody
        rw [sent_append, hSilent]
        exact .nobody hNobody

/-- **A box fires its plan.** -/
theorem fires_fire {text : String} (h : Plan (tokenize text) plan) :
    Fires m.elements plan (sent (fire scope m text)) := by
  unfold fire
  generalize tokenize text = messages at h
  cases h with
  | nil => exact ⟨[], rfl, .nil⟩
  | @cons first cuts later plan hFirst hLater =>
      refine ⟨later.map fun parts => sent (fireAddressed scope m parts), ?_, ?_⟩
      · rw [sent_append, sent_fireParts hFirst, sent_flatMap, List.flatMap_def]
        rfl
      · rw [List.tail_cons, List.forall₂_map_right_iff]
        exact hLater.flip.imp fun _ _ hCuts => addresses_fireAddressed hCuts

/-! ### What is laid out -/

theorem isGroup_nil (parts : Nat) : IsGroup parts [] :=
  ⟨Nat.zero_le _, "", fun _ hx => absurd hx List.not_mem_nil⟩

theorem Addresses.isGroup {atoms : List Atom} {cuts : List Pieces} {group : List Emission}
    (h : Addresses atoms cuts group) : IsGroup cuts.length group := by
  cases h with
  | nothing => exact isGroup_nil _
  | nobody => exact isGroup_nil _
  | @somebody ps parts name body h =>
      refine ⟨?_, name, fun x hx => ?_⟩
      · rw [List.length_map]
        exact (List.length_filter_le _ _).trans_eq (by simp)
      · obtain ⟨m, -, rfl⟩ := List.mem_map.mp hx
        exact ⟨m, rfl⟩

theorem Fires.laidOut {atoms : List Atom} (h : Fires atoms plan out) :
    LaidOut (plan.map List.length) out := by
  obtain ⟨groups, rfl, hGroups⟩ := h
  refine ⟨_, groups, rfl, ?_, fun x hx => ?_, ?_⟩
  · rw [List.length_map]
    cases plan <;> rfl
  · obtain ⟨ps, -, rfl⟩ := List.mem_map.mp hx
    exact ⟨_, rfl⟩
  · rw [← List.map_tail, List.forall₂_map_left_iff]
    exact hGroups.imp fun _ _ hGroup => hGroup.isGroup

/-- What is laid out for later messages is addressed. -/
theorem addressed_of_mem {counts : List Nat} {groups : List (List Emission)}
    (h : List.Forall₂ IsGroup counts groups) {x : Emission} (hx : x ∈ groups.flatten) :
    ∃ name m, x = .receiver name m := by
  induction h with
  | nil => exact absurd hx List.not_mem_nil
  | cons hGroup _ ih =>
      rw [List.flatten_cons, List.mem_append] at hx
      rcases hx with hx | hx
      · obtain ⟨name, hName⟩ := hGroup.addressed
        exact ⟨name, hName x hx⟩
      · exact ih hx

/-- As many messages go out of the outlet as the first message of the text has parts. -/
theorem LaidOut.countP_isOn {counts : List Nat} (h : LaidOut counts out) :
    out.countP (Emission.isOn 0) = counts.headD 0 := by
  obtain ⟨own, groups, rfl, hLength, hOwn, hGroups⟩ := h
  have hAll : own.countP (Emission.isOn 0) = own.length := by
    refine List.countP_eq_length.mpr fun x hx => ?_
    obtain ⟨m, rfl⟩ := hOwn x hx
    rfl
  have hNone : groups.flatten.countP (Emission.isOn 0) = 0 := by
    refine List.countP_eq_zero.mpr fun x hx => ?_
    obtain ⟨name, m, rfl⟩ := addressed_of_mem hGroups hx
    exact Bool.false_ne_true
  rw [List.countP_append, hAll, hNone, Nat.add_zero, hLength]

/-- Nothing goes out of another outlet. -/
theorem LaidOut.outlet {counts : List Nat} (h : LaidOut counts out) {k : Nat} {m : Message}
    (hOut : .outlet k m ∈ out) : k = 0 := by
  obtain ⟨own, groups, rfl, -, hOwn, hGroups⟩ := h
  rcases List.mem_append.mp hOut with hOwned | hLater
  · obtain ⟨_, hEq⟩ := hOwn _ hOwned
    exact (Emission.outlet.inj hEq).1
  · obtain ⟨name, _, hEq⟩ := addressed_of_mem hGroups hLater
    exact nomatch hEq

end Plans

/-! ### Two runs of one box -/

/-- What a box does about a message follows a plan: the box stays as it is, the plan is
filled with the atoms of the message, and the text alone says how the messages are laid out. -/
structure Follows (s : MessageBox) (plan : List (List Pieces)) (m : Message)
    (r : MessageBox × List Reaction) : Prop where
  box : r.1 = s
  fills : Fires m.elements plan (sent r.2)
  laidOut : LaidOut ((tokenize s.text).map List.length) (sent r.2)
  onOutlet : (sent r.2).countP (Emission.isOn 0) = ((tokenize s.text).headD []).length

/-- A box fires unless the message stores a text in it. -/
theorem onMessage_of_first? (scope : MessageScope) {m : Message} (s : MessageBox)
    (h : m.first? ≠ some (.symbol "set")) :
    s.onMessage scope (.inlet 0) m = (s, fire scope m s.text) := by
  simp only [onMessage]
  split
  · rename_i rest hSet
    exact absurd (by rw [Message.first?, hSet]; rfl) h
  · rfl

/-- **Every message makes a box follow the plan of its text.** -/
theorem follows_onMessage (scope : MessageScope) {m : Message} {s : MessageBox}
    {plan : List (List Pieces)} (hPlan : Plan (tokenize s.text) plan)
    (h : m.first? ≠ some (.symbol "set")) :
    Follows s plan m (s.onMessage scope (.inlet 0) m) := by
  have hFires : Fires m.elements plan (sent (fire scope m s.text)) := fires_fire hPlan
  have hLaidOut := hFires.laidOut
  rw [hPlan.map_length] at hLaidOut
  rw [onMessage_of_first? scope s h]
  refine ⟨rfl, hFires, hLaidOut, hLaidOut.countP_isOn.trans ?_⟩
  cases tokenize s.text <;> rfl

/--
**What comes in cannot inject messages.**  A box with any text is cut down to a plan before
anything comes in, and whatever two messages make it fire, at whatever time, both runs follow
that plan and leave the text as it is.  So both send the same number of messages out of the
outlet, one for each part of the first message of the text, in order and before all others;
and each later message of the text sends at most one for each of its parts, all to one name.
-/
theorem inbound_atoms_fill_one_plan (s : MessageBox) (scope scope' : MessageScope)
    {m m' : Message} (h : m.first? ≠ some (.symbol "set"))
    (h' : m'.first? ≠ some (.symbol "set")) :
    ∃ plan, Plan (tokenize s.text) plan ∧
      Follows s plan m (s.onMessage scope (.inlet 0) m) ∧
      Follows s plan m' (s.onMessage scope' (.inlet 0) m') ∧
      (sent (s.onMessage scope (.inlet 0) m).2).countP (Emission.isOn 0) =
        (sent (s.onMessage scope' (.inlet 0) m').2).countP (Emission.isOn 0) := by
  obtain ⟨plan, hPlan⟩ := exists_plan (tokenize s.text)
  have hLeft := follows_onMessage scope hPlan h
  have hRight := follows_onMessage scope' hPlan h'
  exact ⟨plan, hPlan, hLeft, hRight, hLeft.onOutlet.trans hRight.onOutlet.symm⟩

/-- A box with two parts for its outlet and two for a receiver. -/
def tuner : MessageBox := ⟨"go $1, x; freq $1, 880"⟩

/-- Atoms full of delimiters make the tuner send as often as a bang does, twice on its outlet. -/
theorem inbound_atoms_fill_one_plan_tuner :
    (Message.list awkwardAtoms).first? ≠ some (.symbol "set") ∧
      Message.bang.first? ≠ some (.symbol "set") ∧
      ((tokenize tuner.text).headD []).length = 2 ∧
      ∃ plan, Plan (tokenize tuner.text) plan ∧
        Follows tuner plan (.list awkwardAtoms)
          (tuner.onMessage firstScope (.inlet 0) (.list awkwardAtoms)) ∧
        Follows tuner plan .bang (tuner.onMessage firstScope (.inlet 0) .bang) ∧
        (sent (tuner.onMessage firstScope (.inlet 0) (.list awkwardAtoms)).2).countP
            (Emission.isOn 0) =
          (sent (tuner.onMessage firstScope (.inlet 0) .bang).2).countP (Emission.isOn 0) := by
  have hAwkward : (Message.list awkwardAtoms).first? ≠ some (.symbol "set") := by
    simp [Message.list, Message.first?]
  have hBang : Message.bang.first? ≠ some (.symbol "set") := by
    simp [Message.bang, Message.symbol, Message.first?]
  exact ⟨hAwkward, hBang, by decide +kernel,
    inbound_atoms_fill_one_plan tuner firstScope firstScope hAwkward hBang⟩

end MessageBox

end Patchbay
