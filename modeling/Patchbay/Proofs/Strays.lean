import Patchbay.Proofs.Agenda
import Patchbay.Proofs.Nesting

/-
Actions that no time comes for.

A due time that is not a number is never reached, so one would like an action that waits for
it to stay where it is and to be of no concern to the others.  But the agenda finds its
places by binary search, and comparing with what is not a number fails on either side.  Such
a stray goes to the very front.  If nothing is there, whatever comes later goes before it, and
it ends up behind all others, where the search never asks about it.  If an action with a time
is there, the stray is in front of it from then on, and then there are two ways only: the
search passes the stray and hands it out, or it stops short of the stray and keeps back what is
due behind it.

Both are step lemmas with a run lemma each.  `Trails` relates the agenda to the one in which no
stray was ever scheduled, as long as the strays are behind.  `Crossed` says that a stray has come
to stand in front, and nothing but handing it out ever changes that.  Counting shows that an
action that is kept back is missed: every action has been handed out once or still waits.
-/

namespace Patchbay

/-! ### What is asked and what is handed out -/

section Demands

variable {α : Type}

/-- The same demand, with its due time written on the action. -/
def Demand.dated : Demand α → Demand (Float × α)
  | .schedule due action => .schedule due (due, action)
  | .takeDue now => .takeDue now

/-- The actions that are scheduled. -/
def Demand.scheduled : List (Demand α) → List α
  | [] => []
  | .schedule _ action :: demands => action :: scheduled demands
  | .takeDue _ :: demands => scheduled demands

/-- The demands without those to schedule an action for what is not a number. -/
def Demand.timely (demands : List (Demand α)) : List (Demand α) :=
  demands.filter fun demand => decide demand.Timed

/-- Whether the time that a demand schedules something for, if it is one, has come by then. -/
def Demand.DueBy (now : Float) : Demand α → Prop
  | .schedule due _ => due.isNaN = false → due ≤ now
  | .takeDue _ => True

instance (now : Float) : DecidablePred (Demand.DueBy (α := α) now)
  | .schedule due _ => inferInstanceAs (Decidable (due.isNaN = false → due ≤ now))
  | .takeDue _ => inferInstanceAs (Decidable True)

theorem Demand.timely_stray {due : Float} (hDue : due.isNaN = true) (action : α)
    (demands : List (Demand α)) : timely (.schedule due action :: demands) = timely demands := by
  refine List.filter_cons_of_neg ?_
  rw [decide_eq_true_eq, Timed, hDue]
  exact Bool.noConfusion

theorem Demand.timely_schedule {due : Float} (hDue : due.isNaN = false) (action : α)
    (demands : List (Demand α)) :
    timely (.schedule due action :: demands) = .schedule due action :: timely demands := by
  refine List.filter_cons_of_pos ?_
  rw [decide_eq_true_eq, Timed, hDue]

theorem Demand.timely_takeDue (now : Float) (demands : List (Demand α)) :
    timely (.takeDue now :: demands) = .takeDue now :: timely demands :=
  rfl

/-- Leaving out the strays leaves out their actions. -/
theorem Demand.scheduled_timely (demands : List (Demand α)) :
    scheduled ((timely demands).map dated) =
      (scheduled (demands.map dated)).filter fun x => !x.1.isNaN := by
  induction demands with
  | nil => rfl
  | cons demand demands ih =>
      cases demand with
      | takeDue now => exact ih
      | schedule due action =>
          rw [List.map_cons, dated, scheduled]
          cases hDue : due.isNaN with
          | true => rw [timely_stray hDue, ih, List.filter_cons_of_neg (by simp only [hDue]; decide)]
          | false =>
              rw [timely_schedule hDue, List.filter_cons_of_pos (by simp only [hDue]; decide), ← ih]
              rfl

end Demands

namespace Agenda

variable {α β : Type}

/-- What the calls for due actions hand out, one call after the other. -/
def calledUp (g : Agenda α) : List (Demand α) → List (List α)
  | [] => []
  | .schedule due action :: demands => (g.schedule due action).calledUp demands
  | .takeDue now :: demands => (g.takeDue now).1 :: (g.takeDue now).2.calledUp demands

/-- Strays disturb no other action: each call hands out what it would hand out had no stray been
scheduled, in the same order, and never a stray. -/
structure Undisturbed (demands : List (Demand α)) : Prop where
  same : (empty.calledUp (demands.map .dated)).map (List.filter fun x => !x.1.isNaN) =
    empty.calledUp ((Demand.timely demands).map .dated)
  withheld : ∀ batch ∈ empty.calledUp (demands.map .dated), ∀ x ∈ batch, x.1.isNaN = false

/-- Strays are scheduled only when no action waits for a time.  The agenda is the one without
strays. -/
def Clear (g : Agenda α) : List (Demand α) → Prop
  | [] => True
  | .schedule due action :: demands =>
    if due.isNaN then g.isEmpty = true ∧ g.Clear demands else (g.schedule due action).Clear demands
  | .takeDue now :: demands => (g.takeDue now).2.Clear demands

instance decidableClear : (g : Agenda α) → (demands : List (Demand α)) → Decidable (g.Clear demands)
  | _, [] => isTrue trivial
  | g, .schedule due action :: demands =>
    have := decidableClear g demands
    have := decidableClear (g.schedule due action) demands
    inferInstanceAs (Decidable (if due.isNaN then g.isEmpty = true ∧ g.Clear demands
      else (g.schedule due action).Clear demands))
  | g, .takeDue now :: demands => decidableClear (g.takeDue now).2 demands

theorem clear_takeDue_iff {g : Agenda α} {demands : List (Demand α)} {now : Float} :
    g.Clear (demands ++ [.takeDue now]) ↔ g.Clear demands := by
  induction demands generalizing g with
  | nil => exact Iff.rfl
  | cons demand demands ih =>
      cases demand with
      | takeDue now => exact ih
      | schedule due action => simp only [List.cons_append, Clear, ih]

/-! ### Strays behind all others -/

/-- Strays behind a list do not show in where it stops satisfying a question that they fail. -/
theorem partitionPoint_append {p : α → Bool} {l strays : List α} (h : Leads p l)
    (hNone : ∀ x ∈ strays, p x = false) :
    partitionPoint p (l ++ strays) = partitionPoint p l := by
  have hStrays : strays.countP p = 0 := by
    rw [List.countP_eq_zero]
    intro x hx
    simp [hNone x hx]
  have hLeads : Leads p (l ++ strays) := by
    refine List.pairwise_append.mpr ⟨h, List.pairwise_of_forall_mem_list ?_, ?_⟩
    · intro x _ y hy hp
      simp [hNone y hy] at hp
    · intro x _ y hy hp
      simp [hNone y hy] at hp
  rw [partitionPoint_eq hLeads, partitionPoint_eq h, List.countP_append, hStrays, Nat.add_zero]

theorem partitionPoint_le {p : α → Bool} {l : List α} (h : Leads p l) :
    partitionPoint p l ≤ l.length := by
  rw [partitionPoint_eq h]
  exact List.countP_le_length

/-- A stray goes to the front. -/
theorem schedule_stray (g : Agenda α) {due : Float} (hDue : due.isNaN = true) (action : α) :
    g.schedule due action = ⟨⟨due, [action]⟩ :: g.slots⟩ := by
  have hPlace : partitionPoint (fun s : Slot α => decide (s.due < due)) g.slots = 0 := by
    have hNone : ∀ s ∈ g.slots, decide (s.due < due) = false := by
      intro s _
      simp [Time.not_lt_isNaN hDue]
    exact (partitionPoint_append (l := []) .nil hNone).trans (partitionPoint_eq .nil)
  unfold schedule
  simp only [hPlace]
  cases hSlot : g.slots[0]? with
  | none => simp
  | some s => simp [Time.beq_isNaN hDue]

/-- The second agenda is the first one with strays behind, and the first one holds a queue. -/
structure Trails (g g' : Agenda α) : Prop where
  held : ∃ q, g.Holds q
  behind : ∃ strays, g'.slots = g.slots ++ strays ∧ ∀ s ∈ strays, s.due.isNaN = true

namespace Trails

variable {g g' : Agenda α}

theorem takeDue (h : Trails g g') (now : Float) :
    (g'.takeDue now).1 = (g.takeDue now).1 ∧ Trails (g.takeDue now).2 (g'.takeDue now).2 := by
  obtain ⟨⟨q, hHolds⟩, strays, hSlots, hStrays⟩ := h
  have hLeads := hHolds.toAscending.leads_le now
  have hPlace : partitionPoint (fun s : Slot α => decide (s.due ≤ now)) g'.slots =
      partitionPoint (fun s => decide (s.due ≤ now)) g.slots := by
    rw [hSlots]
    refine partitionPoint_append hLeads ?_
    intro s hs
    simp [Time.not_isNaN_le (hStrays s hs)]
  have hLe := partitionPoint_le hLeads
  obtain ⟨-, -, -, hAfter⟩ := hHolds.takeDue now
  refine ⟨?_, ⟨_, hAfter⟩, strays, ?_, hStrays⟩
  · show (g'.slots.take _).flatMap Slot.actions = (g.slots.take _).flatMap Slot.actions
    rw [hPlace, hSlots, List.take_append_of_le_length hLe]
  · show g'.slots.drop _ = g.slots.drop _ ++ strays
    rw [hPlace, hSlots, List.drop_append_of_le_length hLe]

theorem schedule (h : Trails g g') {due : Float} (hDue : due.isNaN = false) (action : α) :
    Trails (g.schedule due action) (g'.schedule due action) := by
  obtain ⟨⟨q, hHolds⟩, strays, hSlots, hStrays⟩ := h
  refine ⟨⟨_, hHolds.schedule hDue action⟩, strays, ?_, hStrays⟩
  have hLeads := hHolds.toAscending.leads_lt due
  have hLe := partitionPoint_le hLeads
  have hPlace : partitionPoint (fun s : Slot α => decide (s.due < due)) g'.slots =
      partitionPoint (fun s => decide (s.due < due)) g.slots := by
    rw [hSlots]
    refine partitionPoint_append hLeads ?_
    intro s hs
    simp [Time.not_isNaN_lt (hStrays s hs)]
  unfold Agenda.schedule
  simp only
  rw [hPlace, hSlots]
  generalize partitionPoint (fun s : Slot α => decide (s.due < due)) g.slots = place at hLe ⊢
  have hFresh : (g.slots ++ strays).take place ++ ⟨due, [action]⟩ ::
      (g.slots ++ strays).drop place =
        g.slots.take place ++ ⟨due, [action]⟩ :: g.slots.drop place ++ strays := by
    rw [List.take_append_of_le_length hLe, List.drop_append_of_le_length hLe, List.append_assoc,
      List.cons_append]
  by_cases hEnd : place < g.slots.length
  · rw [List.getElem?_append_left hEnd, List.getElem?_eq_getElem hEnd]
    simp only
    by_cases hSame : (g.slots[place].due == due) = true
    · rw [if_pos hSame, if_pos hSame, List.set_append_left _ _ hEnd]
    · rw [if_neg hSame, if_neg hSame]
      exact hFresh
  · rw [List.getElem?_append_right (Nat.le_of_not_lt hEnd),
      List.getElem?_eq_none (Nat.le_of_not_lt hEnd)]
    cases hSlot : strays[place - g.slots.length]? with
    | none => exact hFresh
    | some s =>
        -- What stands at the end of the slots with times is a stray, and shares its time with none.
        have hOther := Time.isNaN_beq (b := due) (hStrays s (List.mem_of_getElem? hSlot))
        simp only
        rw [if_neg (Bool.eq_false_iff.mp hOther)]
        exact hFresh

theorem stray (h : Trails g g') {due : Float} (hEmpty : g.isEmpty = true)
    (hDue : due.isNaN = true) (action : α) : Trails g (g'.schedule due action) := by
  obtain ⟨hHeld, strays, hSlots, hStrays⟩ := h
  have hNil : g.slots = [] := List.isEmpty_iff.mp hEmpty
  refine ⟨hHeld, ⟨due, [action]⟩ :: strays, ?_, ?_⟩
  · rw [schedule_stray g' hDue, hSlots, hNil]
    rfl
  · intro s hs
    rcases List.mem_cons.mp hs with rfl | hs
    · exact hDue
    · exact hStrays s hs

end Trails

theorem trails_empty : Trails (empty : Agenda α) empty :=
  ⟨⟨_, holds_empty⟩, [], rfl, by simp⟩

/-- **As long as the strays are behind, they are never heard of.** -/
theorem Trails.calledUp {g g' : Agenda (Float × α)} (h : Trails g g')
    {demands : List (Demand α)} (hClear : g.Clear (demands.map .dated)) :
    g'.calledUp (demands.map .dated) = g.calledUp ((Demand.timely demands).map .dated) := by
  induction demands generalizing g g' with
  | nil => rfl
  | cons demand demands ih =>
      cases demand with
      | takeDue now =>
          obtain ⟨hSame, hAfter⟩ := h.takeDue now
          exact congrArg₂ List.cons hSame (ih hAfter hClear)
      | schedule due action =>
          simp only [List.map_cons, Demand.dated, Clear] at hClear
          cases hDue : due.isNaN with
          | true =>
              rw [if_pos hDue] at hClear
              rw [Demand.timely_stray hDue]
              exact ih (h.stray hClear.1 hDue (due, action)) hClear.2
          | false =>
              rw [if_neg (Bool.eq_false_iff.mp hDue)] at hClear
              rw [Demand.timely_schedule hDue]
              exact ih (h.schedule hDue (due, action)) hClear

/-! ### Dates -/

/-- Where a new action goes, whatever the order of the slots is. -/
theorem schedule_cases (g : Agenda α) (due : Float) (action : α) :
    (∃ before s after, g.slots = before ++ s :: after ∧ (s.due == due) = true ∧
      g.schedule due action = ⟨before ++ { s with actions := s.actions ++ [action] } :: after⟩) ∨
    ∃ before after, g.slots = before ++ after ∧
      g.schedule due action = ⟨before ++ ⟨due, [action]⟩ :: after⟩ := by
  unfold schedule
  simp only
  generalize partitionPoint (fun s : Slot α => decide (s.due < due)) g.slots = place
  have hSplit := List.take_append_drop place g.slots
  cases hSlot : g.slots[place]? with
  | none => exact .inr ⟨_, _, hSplit.symm, rfl⟩
  | some s =>
      by_cases hSame : (s.due == due) = true
      · obtain ⟨hLt, hAt⟩ := List.getElem?_eq_some_iff.mp hSlot
        refine .inl ⟨g.slots.take place, s, g.slots.drop (place + 1), ?_, hSame, ?_⟩
        · rw [← hAt, ← List.drop_eq_getElem_cons hLt, hSplit]
        · simp only [hSame, if_true]
          rw [List.set_eq_take_append_cons_drop, if_pos hLt]
      · simp only [hSame]
        exact .inr ⟨_, _, hSplit.symm, rfl⟩

/-- The slots are those that there were, one of which may have got the new action, or its own. -/
theorem mem_schedule {g : Agenda α} {due : Float} {action : α} {s : Slot α}
    (h : s ∈ (g.schedule due action).slots) : s ∈ g.slots ∨
      (∃ old ∈ g.slots, (old.due == due) = true ∧
        s = { old with actions := old.actions ++ [action] }) ∨
      s = ⟨due, [action]⟩ := by
  rcases g.schedule_cases due action with
    ⟨before, old, after, hSlots, hSame, hNew⟩ | ⟨before, after, hSlots, hNew⟩
  · rw [hNew] at h
    rw [hSlots]
    rcases List.mem_append.mp h with h | h
    · exact .inl (List.mem_append_left _ h)
    · rcases List.mem_cons.mp h with rfl | h
      · exact .inr (.inl ⟨old, List.mem_append_right _ List.mem_cons_self, hSame, rfl⟩)
      · exact .inl (List.mem_append_right _ (List.mem_cons_of_mem _ h))
  · rw [hNew] at h
    rw [hSlots]
    rcases List.mem_append.mp h with h | h
    · exact .inl (List.mem_append_left _ h)
    · rcases List.mem_cons.mp h with rfl | h
      · exact .inr (.inr rfl)
      · exact .inl (List.mem_append_right _ h)

/-- No slot is empty, and its actions are dated for times exactly if it is for a time. -/
structure Stamped (g : Agenda (Float × α)) : Prop where
  filled : ∀ s ∈ g.slots, s.actions ≠ []
  dates : ∀ s ∈ g.slots, ∀ x ∈ s.actions, x.1.isNaN = s.due.isNaN

theorem stamped_empty : Stamped (empty : Agenda (Float × α)) := by
  constructor <;> simp [empty]

theorem Stamped.takeDue {g : Agenda (Float × α)} (h : g.Stamped) (now : Float) :
    (g.takeDue now).2.Stamped :=
  ⟨fun s hs => h.filled s (List.mem_of_mem_drop hs), fun s hs => h.dates s (List.mem_of_mem_drop hs)⟩

theorem Stamped.schedule {g : Agenda (Float × α)} (h : g.Stamped) (due : Float) (action : α) :
    (g.schedule due (due, action)).Stamped := by
  constructor
  · intro s hs
    rcases mem_schedule hs with hs | ⟨old, -, -, rfl⟩ | rfl
    · exact h.filled s hs
    · simp
    · simp
  · intro s hs x hx
    rcases mem_schedule hs with hs | ⟨old, hOld, hSame, rfl⟩ | rfl
    · exact h.dates s hs x hx
    · rcases List.mem_append.mp hx with hx | hx
      · exact h.dates old hOld x hx
      · obtain rfl := List.mem_singleton.mp hx
        exact (Time.isNaN_eq_of_beq hSame).symm
    · obtain rfl := List.mem_singleton.mp hx
      rfl

/-- What is handed out comes from slots that were there. -/
theorem mem_takeDue {g : Agenda α} {now : Float} {x : α} (h : x ∈ (g.takeDue now).1) :
    ∃ s ∈ g.slots, x ∈ s.actions := by
  obtain ⟨s, hs, hx⟩ := List.mem_flatMap.mp h
  exact ⟨s, List.mem_of_mem_take hs, hx⟩

/-- Where every slot is for a time, only actions with times are handed out. -/
theorem Stamped.calledUp_timely {g : Agenda (Float × α)} (h : g.Stamped) {q : Queue (Float × α)}
    (hHolds : g.Holds q) (demands : List (Demand α)) :
    ∀ batch ∈ g.calledUp ((Demand.timely demands).map .dated), ∀ x ∈ batch, x.1.isNaN = false := by
  induction demands generalizing g q with
  | nil =>
      intro batch hBatch
      exact nomatch hBatch
  | cons demand demands ih =>
      cases demand with
      | takeDue now =>
          rw [Demand.timely_takeDue]
          obtain ⟨-, -, -, hAfter⟩ := hHolds.takeDue now
          intro batch hBatch
          rcases List.mem_cons.mp hBatch with rfl | hBatch
          · intro x hx
            obtain ⟨s, hs, hx⟩ := mem_takeDue hx
            rw [h.dates s hs x hx]
            exact hHolds.timed s hs
          · exact ih (h.takeDue now) hAfter batch hBatch
      | schedule due action =>
          cases hDue : due.isNaN with
          | true =>
              rw [Demand.timely_stray hDue]
              exact ih h hHolds
          | false =>
              rw [Demand.timely_schedule hDue]
              exact ih (h.schedule due action) (hHolds.schedule hDue (due, action))

/-! ### A stray in front -/

/-- A stray stands in front of an action with a time. -/
def Crossed (g : Agenda α) : Prop :=
  ∃ stray time : Float, stray.isNaN = true ∧ time.isNaN = false ∧
    [stray, time].Sublist (g.slots.map Slot.due)

theorem Crossed.schedule {g : Agenda α} (h : g.Crossed) (due : Float) (action : α) :
    (g.schedule due action).Crossed := by
  obtain ⟨stray, time, hStray, hTime, hSub⟩ := h
  refine ⟨stray, time, hStray, hTime, ?_⟩
  rcases g.schedule_cases due action with
    ⟨before, s, after, hSlots, -, hNew⟩ | ⟨before, after, hSlots, hNew⟩
  · rw [hNew]
    rw [hSlots] at hSub
    simpa only [List.map_append, List.map_cons] using hSub
  · rw [hNew]
    rw [hSlots, List.map_append] at hSub
    rw [List.map_append, List.map_cons]
    exact hSub.trans ((List.sublist_cons_self due _).append_left _)

/-- A stray that stands in front goes on standing there, or it is handed out. -/
theorem Crossed.takeDue {g : Agenda (Float × α)} (h : g.Crossed) (hStamped : g.Stamped)
    (now : Float) :
    (∃ x ∈ (g.takeDue now).1, x.1.isNaN = true) ∨ (g.takeDue now).2.Crossed := by
  obtain ⟨stray, time, hStray, hTime, hSub⟩ := h
  unfold Agenda.takeDue
  simp only
  generalize partitionPoint (fun s : Slot (Float × α) => decide (s.due ≤ now)) g.slots = count
  rw [← List.take_append_drop count g.slots, List.map_append, List.sublist_append_iff] at hSub
  obtain ⟨taken, left, hPair, hTaken, hLeft⟩ := hSub
  cases taken with
  | nil =>
      right
      rw [List.nil_append] at hPair
      exact ⟨stray, time, hStray, hTime, hPair ▸ hLeft⟩
  | cons first taken =>
      left
      obtain ⟨rfl, -⟩ := List.cons.inj hPair
      obtain ⟨s, hs, rfl⟩ := List.mem_map.mp (hTaken.subset List.mem_cons_self)
      have hThere := List.mem_of_mem_take hs
      obtain ⟨x, hx⟩ := List.exists_mem_of_ne_nil _ (hStamped.filled s hThere)
      refine ⟨x, List.mem_flatMap.mpr ⟨s, hs, hx⟩, ?_⟩
      rw [hStamped.dates s hThere x hx]
      exact hStray

/-- Something with a time is waiting behind the stray. -/
theorem Crossed.exists_waiting {g : Agenda (Float × α)} (h : g.Crossed) (hStamped : g.Stamped) :
    ∃ x ∈ g.actions, x.1.isNaN = false := by
  obtain ⟨stray, time, -, hTime, hSub⟩ := h
  obtain ⟨s, hs, rfl⟩ := List.mem_map.mp (hSub.subset (List.mem_cons_of_mem _ List.mem_cons_self))
  obtain ⟨x, hx⟩ := List.exists_mem_of_ne_nil _ (hStamped.filled s hs)
  refine ⟨x, List.mem_flatMap.mpr ⟨s, hs, hx⟩, ?_⟩
  rw [hStamped.dates s hs x hx]
  exact hTime

theorem Stamped.serveAll {g : Agenda (Float × α)} (h : g.Stamped) (demands : List (Demand α)) :
    (g.serveAll (demands.map .dated)).2.Stamped := by
  induction demands generalizing g with
  | nil => exact h
  | cons demand demands ih =>
      cases demand with
      | takeDue now => exact ih (h.takeDue now)
      | schedule due action => exact ih (h.schedule due action)

/-- Whatever is asked of an agenda hands out a stray, or leaves it in front. -/
theorem Crossed.run {g : Agenda (Float × α)} (h : g.Crossed) (hStamped : g.Stamped)
    (demands : List (Demand α)) :
    (∃ batch ∈ g.calledUp (demands.map .dated), ∃ x ∈ batch, x.1.isNaN = true) ∨
      (g.serveAll (demands.map .dated)).2.Crossed := by
  induction demands generalizing g with
  | nil => exact .inr h
  | cons demand demands ih =>
      cases demand with
      | schedule due action => exact ih (h.schedule due _) (hStamped.schedule due action)
      | takeDue now =>
          rcases h.takeDue hStamped now with hHanded | hAfter
          · exact .inl ⟨_, List.mem_cons_self, hHanded⟩
          · rcases ih hAfter (hStamped.takeDue now) with ⟨batch, hBatch, hHanded⟩ | hEnd
            · exact .inl ⟨batch, List.mem_cons_of_mem _ hBatch, hHanded⟩
            · exact .inr hEnd

/-- **A stray that comes while an action with a time waits is handed out, or stands in front of
an action with a time for good.** -/
theorem Trails.crossed {g g' : Agenda (Float × α)} (h : Trails g g') (hStamped : g'.Stamped)
    {demands : List (Demand α)} (hClear : ¬g.Clear (demands.map .dated)) :
    (∃ batch ∈ g'.calledUp (demands.map .dated), ∃ x ∈ batch, x.1.isNaN = true) ∨
      (g'.serveAll (demands.map .dated)).2.Crossed := by
  induction demands generalizing g g' with
  | nil => exact absurd trivial hClear
  | cons demand demands ih =>
      cases demand with
      | takeDue now =>
          rcases ih (h.takeDue now).2 (hStamped.takeDue now) hClear with
            ⟨batch, hBatch, hHanded⟩ | hEnd
          · exact .inl ⟨batch, List.mem_cons_of_mem _ hBatch, hHanded⟩
          · exact .inr hEnd
      | schedule due action =>
          simp only [List.map_cons, Demand.dated, Clear] at hClear
          cases hDue : due.isNaN with
          | false =>
              rw [if_neg (Bool.eq_false_iff.mp hDue)] at hClear
              exact ih (h.schedule hDue _) (hStamped.schedule due action) hClear
          | true =>
              rw [if_pos hDue] at hClear
              by_cases hEmpty : g.isEmpty = true
              · exact ih (h.stray hEmpty hDue _) (hStamped.schedule due action)
                  fun hRest => hClear ⟨hEmpty, hRest⟩
              · -- The stray goes to the front, and all that waits for a time is behind it.
                refine Crossed.run ?_ (hStamped.schedule due action) demands
                obtain ⟨⟨q, hHolds⟩, strays, hSlots, -⟩ := h
                have hSome : g.slots ≠ [] := fun hNil => hEmpty (List.isEmpty_iff.mpr hNil)
                obtain ⟨s, hs⟩ := List.exists_mem_of_ne_nil _ hSome
                refine ⟨due, s.due, hDue, hHolds.timed s hs, ?_⟩
                rw [schedule_stray g' hDue]
                refine List.Sublist.cons_cons due (List.singleton_sublist.mpr ?_)
                exact List.mem_map_of_mem (hSlots ▸ List.mem_append_left strays hs)

/-! ### Counting -/

/-- Every action is handed out once or still waits, whatever its due time is. -/
theorem calledUp_perm (g : Agenda α) (demands : List (Demand α)) :
    ((g.calledUp demands).flatten ++ (g.serveAll demands).2.actions).Perm
      (g.actions ++ Demand.scheduled demands) := by
  induction demands generalizing g with
  | nil => simp [calledUp, Agenda.serveAll, Demand.scheduled]
  | cons demand demands ih =>
      cases demand with
      | schedule due action =>
          refine (ih _).trans (((g.schedule_perm due action).append_right _).trans ?_)
          exact List.perm_middle.symm
      | takeDue now =>
          show ((g.takeDue now).1 ++ ((g.takeDue now).2.calledUp demands).flatten ++
            ((g.takeDue now).2.serveAll demands).2.actions).Perm (g.actions ++ _)
          rw [List.append_assoc, ← g.takeDue_actions now, List.append_assoc]
          exact (ih _).append_left _

/-- Once all that waits is due, a call for it leaves nothing. -/
theorem Ascending.actions_takeDue {g : Agenda α} (h : g.Ascending) {now : Float}
    (hDue : ∀ s ∈ g.slots, s.due ≤ now) : (g.takeDue now).2.actions = [] := by
  have hNone : (g.slots.filter fun s => !decide (s.due ≤ now)) = [] := by
    refine List.filter_eq_nil_iff.mpr ?_
    intro s hs
    rw [decide_eq_true (hDue s hs)]
    exact Bool.noConfusion
  rw [h.takeDue_eq, hNone]
  rfl

/-- What has only been scheduled for times up to one is due then. -/
theorem due_serveAll {now : Float} {g : Agenda α} (h : ∀ s ∈ g.slots, s.due ≤ now)
    {demands : List (Demand α)}
    (hDue : ∀ due action, .schedule due action ∈ demands → due ≤ now) :
    ∀ s ∈ (g.serveAll demands).2.slots, s.due ≤ now := by
  induction demands generalizing g with
  | nil => exact h
  | cons demand demands ih =>
      have hRest := fun due action hMem => hDue due action (List.mem_cons_of_mem _ hMem)
      cases demand with
      | takeDue now' => exact ih (fun s hs => h s (List.mem_of_mem_drop hs)) hRest
      | schedule due action =>
          refine ih ?_ hRest
          intro s hs
          rcases mem_schedule hs with hs | ⟨old, hOld, -, rfl⟩ | rfl
          · exact h s hs
          · exact h old hOld
          · exact hDue due action List.mem_cons_self

theorem serveAll_takeDue (g : Agenda α) (demands : List (Demand α)) (now : Float) :
    (g.serveAll (demands ++ [.takeDue now])).2 = ((g.serveAll demands).2.takeDue now).2 := by
  induction demands generalizing g with
  | nil => rfl
  | cons demand demands ih => exact ih _

/-- Once all times have come, nothing waits for one if no stray was scheduled. -/
theorem actions_timely {demands : List (Demand α)} {now : Float}
    (hDue : ∀ demand ∈ demands, demand.DueBy now) :
    (empty.serveAll ((Demand.timely (demands ++ [.takeDue now])).map .dated)).2.actions = [] := by
  have hEnd : (Demand.timely (demands ++ [.takeDue now])).map Demand.dated =
      (Demand.timely demands).map .dated ++ [.takeDue now] := by
    rw [Demand.timely, List.filter_append, List.map_append]
    rfl
  have hTimed : ∀ demand ∈ (Demand.timely demands).map Demand.dated, demand.Timed := by
    intro demand hDemand
    obtain ⟨d, hd, rfl⟩ := List.mem_map.mp hDemand
    have hd := of_decide_eq_true (List.mem_filter.mp hd).2
    cases d with
    | schedule due action => exact hd
    | takeDue now => trivial
  obtain ⟨-, q, -, -, hHolds⟩ := holds_empty.serveAll hTimed
  rw [hEnd, serveAll_takeDue]
  refine hHolds.toAscending.actions_takeDue (due_serveAll (by simp [empty]) ?_)
  intro due action hMem
  have hNumber : due.isNaN = false := hTimed _ hMem
  obtain ⟨d, hd, hDated⟩ := List.mem_map.mp hMem
  cases d with
  | takeDue now => simp [Demand.dated] at hDated
  | schedule due' action' =>
      obtain ⟨rfl, -⟩ := Demand.schedule.inj hDated
      exact hDue _ (List.mem_filter.mp hd).1 hNumber

/-- Strays that come when nothing waits disturb nothing. -/
theorem undisturbed_of_clear {demands : List (Demand α)}
    (h : empty.Clear (demands.map .dated)) : Undisturbed demands := by
  have hSame := trails_empty.calledUp h
  have hTimes := stamped_empty.calledUp_timely holds_empty demands
  rw [← hSame] at hTimes
  refine ⟨?_, hTimes⟩
  rw [← hSame]
  refine (List.map_congr_left ?_).trans (List.map_id _)
  intro batch hBatch
  refine List.filter_eq_self.mpr ?_
  intro x hx
  rw [hTimes batch hBatch x hx]
  rfl

/-- A stray that comes when something waits has shown once all times have come. -/
theorem Undisturbed.clear {demands : List (Demand α)} {now : Float}
    (hDue : ∀ demand ∈ demands, demand.DueBy now)
    (h : Undisturbed (demands ++ [.takeDue now])) : empty.Clear (demands.map .dated) := by
  by_contra hClear
  have hNot : ¬empty.Clear ((demands ++ [Demand.takeDue now]).map Demand.dated) := by
    intro hAll
    rw [List.map_append] at hAll
    exact hClear (clear_takeDue_iff.mp hAll)
  rcases trails_empty.crossed stamped_empty hNot with ⟨batch, hBatch, x, hx, hStray⟩ | hCrossed
  · rw [h.withheld batch hBatch x hx] at hStray
    exact Bool.noConfusion hStray
  · obtain ⟨x, hx, hTime⟩ := hCrossed.exists_waiting (stamped_empty.serveAll _)
    -- As many actions with times were handed out as were scheduled, so none of them can wait.
    have hTimely := calledUp_perm empty ((Demand.timely (demands ++ [.takeDue now])).map .dated)
    rw [actions_timely hDue, List.append_nil, Demand.scheduled_timely, ← h.same,
      ← List.filter_flatten] at hTimely
    have hAll := (calledUp_perm empty ((demands ++ [Demand.takeDue now]).map Demand.dated)).filter
      fun x => !x.1.isNaN
    rw [List.filter_append] at hAll
    have hCount := hAll.length_eq.trans hTimely.length_eq.symm
    have hWaits : x ∈ (empty.serveAll ((demands ++ [Demand.takeDue now]).map Demand.dated)).2.actions.filter
        fun x => !x.1.isNaN := by
      refine List.mem_filter.mpr ⟨hx, ?_⟩
      rw [hTime]
      rfl
    have hPos := List.length_pos_of_mem hWaits
    rw [List.length_append] at hCount
    omega

/--
**Strays disturb nothing exactly if they come when nothing else waits.**  If an action for what
is not a number is only ever scheduled when no action waits for a time, every call hands out
what it would hand out without such actions, and none of them.  Otherwise this has failed at the
latest when all times have come.  No action is lost or handed out twice, whatever its due
time is.
-/
theorem undisturbed_iff_clear (demands : List (Demand α)) :
    (empty.Clear (demands.map .dated) → Undisturbed demands) ∧
      (∀ now, (∀ demand ∈ demands, demand.DueBy now) →
        (Undisturbed (demands ++ [.takeDue now]) ↔ empty.Clear (demands.map .dated))) ∧
      ((empty.calledUp demands).flatten ++ (empty.serveAll demands).2.actions).Perm
        (Demand.scheduled demands) := by
  refine ⟨undisturbed_of_clear, fun now hDue => ⟨Undisturbed.clear hDue, fun hClear => ?_⟩,
    calledUp_perm empty demands⟩
  refine undisturbed_of_clear ?_
  rw [List.map_append]
  exact clear_takeDue_iff.mpr hClear

/-- A stray before anything else, and another one once the first action with a time is done. -/
def earlyStrays : List (Demand String) :=
  [.schedule Float.nan "never", .schedule 1 "first", .takeDue 1, .schedule Float.nan "never",
    .schedule 3 "third", .schedule 2 "second"]

theorem undisturbed_earlyStrays : (∀ demand ∈ earlyStrays, demand.DueBy 3) ∧
    empty.Clear (earlyStrays.map .dated) ∧ Undisturbed (earlyStrays ++ [.takeDue 3]) := by
  have hDue : ∀ demand ∈ earlyStrays, demand.DueBy 3 := by decide +kernel
  have hClear : empty.Clear (earlyStrays.map .dated) := by decide +kernel
  exact ⟨hDue, hClear, ((undisturbed_iff_clear earlyStrays).2.1 3 hDue).mpr hClear⟩

/-- Strays that come when an action with a time waits. -/
def lateStrays (count : Nat) : List (Demand String) :=
  .schedule 1 "on time" :: List.replicate count (.schedule Float.nan "never") ++ [.takeDue 5]

/-- A single one is handed out, and two of them keep back what is due. -/
theorem not_undisturbed_lateStrays :
    ¬Undisturbed (lateStrays 1) ∧ ¬Undisturbed (lateStrays 2) := by
  have hHanded : ∃ batch ∈ empty.calledUp ((lateStrays 1).map .dated),
      ∃ x ∈ batch, x.1.isNaN = true := by
    decide +kernel
  have hKept : ((empty.calledUp ((lateStrays 2).map .dated)).map
        (List.filter fun x => !x.1.isNaN)).map List.length = [0] ∧
      (empty.calledUp ((Demand.timely (lateStrays 2)).map .dated)).map List.length = [1] := by
    decide +kernel
  constructor
  · intro h
    obtain ⟨batch, hBatch, x, hx, hStray⟩ := hHanded
    rw [h.withheld batch hBatch x hx] at hStray
    exact Bool.noConfusion hStray
  · intro h
    obtain ⟨hGot, hWanted⟩ := hKept
    rw [h.same, hWanted] at hGot
    exact absurd hGot (by decide)

end Agenda

end Patchbay
