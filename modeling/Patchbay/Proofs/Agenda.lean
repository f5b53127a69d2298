import Mathlib.Data.List.Nodup
import Patchbay.Agenda
import Patchbay.Proofs.Times

/-
The agenda is a queue.

Whoever schedules an action draws a ticket with a number, and the queue is the list of
the tickets that wait, in the order of their numbers.  Taking out what is due takes the
tickets that are due, earliest first and those of one time by number, and leaves the
rest.  The agenda stores actions and no tickets, and it finds its places by binary search;
what ties it to the queue is that each slot holds the actions of the tickets for its time.

The search needs the slots in ascending order, and adding a slot has to keep that order.
Both are one argument: the search splits the slots into those that satisfy its question and
those that do not, and the order says on which side of a new due time each of them is.
-/

namespace Patchbay

/-! ### Binary search -/

section Search

variable {α : Type} {p : α → Bool} {l : List α}

/-- What satisfies `p` comes first. -/
def Leads (p : α → Bool) (l : List α) : Prop :=
  l.Pairwise fun x y => p y = true → p x = true

/-- Once an element fails, none behind it satisfies `p`. -/
theorem Leads.countP_eq_zero {x : α} (h : Leads p (x :: l)) (hx : p x = false) :
    l.countP p = 0 := by
  refine List.countP_eq_zero.mpr fun y hy hp => ?_
  rw [(List.pairwise_cons.mp h).1 y hy hp] at hx
  simp at hx

/-- What comes first is as many elements as there are. -/
theorem Leads.split (h : Leads p l) :
    l.take (l.countP p) = l.filter p ∧ l.drop (l.countP p) = l.filter fun x => !p x := by
  induction l with
  | nil => exact ⟨rfl, rfl⟩
  | cons x l ih =>
      obtain ⟨hTake, hDrop⟩ := ih (List.pairwise_cons.mp h).2
      cases hx : p x with
      | true => simp [hx, hTake, hDrop]
      | false =>
          rw [h.countP_eq_zero hx, List.drop_zero] at hDrop
          rw [h.countP_eq_zero hx, List.take_zero] at hTake
          simp [hx, h.countP_eq_zero hx, ← hTake, ← hDrop]

/-- Where an element comes says whether it satisfies `p`. -/
theorem Leads.any_getElem? (h : Leads p l) (i : Nat) :
    l[i]?.any p = decide (i < l.countP p) := by
  induction l generalizing i with
  | nil => simp
  | cons x l ih =>
      cases hx : p x with
      | true =>
          cases i with
          | zero => simp [hx]
          | succ i => simp [hx, ih (List.pairwise_cons.mp h).2]
      | false =>
          have hNone := h.countP_eq_zero hx
          cases i with
          | zero => simp [hx, hNone]
          | succ i => simp [hx, hNone, ih (List.pairwise_cons.mp h).2]

/-- The search ends at the boundary, as long as it is looked for where it is. -/
theorem searchEnd_eq {boundary : Nat} (hSide : ∀ i, l[i]?.any p = decide (i < boundary))
    (base size : Nat) (hFrom : base ≤ boundary) (hTo : boundary ≤ base + size) :
    searchEnd p l base size = boundary := by
  induction base, size using searchEnd.induct p l with
  | case1 base size hSmall =>
      rw [searchEnd, if_pos hSmall, hSide]
      by_cases hBase : base < boundary
      · simp [hBase]
        omega
      · simp [hBase]
        omega
  | case2 base size hLarge half ih =>
      rw [searchEnd, if_neg hLarge]
      simp only
      have hHalf : half = size / 2 := rfl
      refine ih ?_ ?_
      all_goals
        rw [hSide]
        by_cases hMiddle : base + half < boundary
        · simp [hMiddle]
          omega
        · simp [hMiddle]
          omega

theorem partitionPoint_eq (h : Leads p l) : partitionPoint p l = l.countP p :=
  searchEnd_eq h.any_getElem? 0 l.length (Nat.zero_le _) (by
    rw [Nat.zero_add]
    exact List.countP_le_length)

theorem take_partitionPoint (h : Leads p l) : l.take (partitionPoint p l) = l.filter p := by
  rw [partitionPoint_eq h, h.split.1]

theorem drop_partitionPoint (h : Leads p l) :
    l.drop (partitionPoint p l) = l.filter fun x => !p x := by
  rw [partitionPoint_eq h, h.split.2]

end Search

/-! ### Tickets -/

/-- What one gets for scheduling an action. -/
structure Ticket (α : Type) where
  /-- How many tickets were handed out before. -/
  number : Nat
  due : Float
  action : α

namespace Ticket

variable {α : Type}

/-- Earlier, or at the same time with a lower number. -/
def Before (s t : Ticket α) : Prop :=
  s.due < t.due ∨ (s.due == t.due) = true ∧ s.number < t.number

theorem Before.asymm {s t : Ticket α} (h : s.Before t) : ¬t.Before s := by
  rcases h with hLt | ⟨hSame, hLt⟩
  · rintro (hGt | ⟨hSame, -⟩)
    · exact Time.not_lt_of_le (Time.le_of_lt hLt) hGt
    · simp [Time.beq_eq_false_of_gt hLt] at hSame
  · rintro (hGt | ⟨-, hGt⟩)
    · simp [Time.beq_eq_false_of_gt hGt] at hSame
    · exact Nat.lt_asymm hLt hGt

theorem Before.ne {s t : Ticket α} (h : s.Before t) : s ≠ t := by
  rintro rfl
  exact h.asymm h

end Ticket

/-- The tickets that wait. -/
structure Queue (α : Type) where
  /-- How many tickets have been handed out. -/
  issued : Nat
  /-- In the order of their numbers. -/
  pending : List (Ticket α)

/-- What can be asked of an agenda. -/
inductive Demand (α : Type) where
  | schedule (due : Float) (action : α)
  | takeDue (now : Float)

/-- Whether a demand that names a due time names a number. -/
def Demand.Timed {α : Type} : Demand α → Prop
  | .schedule due _ => due.isNaN = false
  | .takeDue _ => True

instance {α : Type} : DecidablePred (Demand.Timed (α := α))
  | .schedule due _ => inferInstanceAs (Decidable (due.isNaN = false))
  | .takeDue _ => inferInstanceAs (Decidable True)

namespace Queue

variable {α : Type}

def empty : Queue α := ⟨0, []⟩

/-- The next ticket joins the end. -/
def schedule (q : Queue α) (due : Float) (action : α) : Queue α :=
  ⟨q.issued + 1, q.pending ++ [⟨q.issued, due, action⟩]⟩

/-- The tickets that are due. -/
def dueAt (q : Queue α) (now : Float) : List (Ticket α) :=
  q.pending.filter fun t => decide (t.due ≤ now)

/-- What is left when all that are due have gone. -/
def leave (q : Queue α) (now : Float) : Queue α :=
  { q with pending := q.pending.filter fun t => !decide (t.due ≤ now) }

/-- How a queue answers a demand: with the tickets that it calls up, in this order. -/
inductive Step : Queue α → Demand α → List (Ticket α) → Queue α → Prop
  | schedule (q : Queue α) (due : Float) (action : α) :
      Step q (.schedule due action) [] (q.schedule due action)
  | takeDue {q : Queue α} {now : Float} {batch : List (Ticket α)}
      (hAll : batch.Perm (q.dueAt now)) (hOrder : batch.Pairwise Ticket.Before) :
      Step q (.takeDue now) batch (q.leave now)

/-- How a queue answers one demand after the other. -/
inductive Steps : Queue α → List (Demand α) → List (List (Ticket α)) → Queue α → Prop
  | nil (q : Queue α) : Steps q [] [] q
  | cons {q q' q'' : Queue α} {demand : Demand α} {demands : List (Demand α)}
      {batch : List (Ticket α)} {batches : List (List (Ticket α))}
      (hStep : Step q demand batch q') (hSteps : Steps q' demands batches q'') :
      Steps q (demand :: demands) (batch :: batches) q''

/-- A queue has no choice: which tickets it calls up and in which order is settled. -/
theorem Step.unique {q q₁ q₂ : Queue α} {demand : Demand α} {batch₁ batch₂ : List (Ticket α)}
    (h₁ : Step q demand batch₁ q₁) (h₂ : Step q demand batch₂ q₂) :
    batch₁ = batch₂ ∧ q₁ = q₂ := by
  cases h₁ with
  | schedule => cases h₂ with
    | schedule => exact ⟨rfl, rfl⟩
  | takeDue hAll₁ hOrder₁ => cases h₂ with
    | takeDue hAll₂ hOrder₂ =>
        refine ⟨(hAll₁.trans hAll₂.symm).eq_of_pairwise ?_ hOrder₁ hOrder₂, rfl⟩
        exact fun _ _ _ _ hBefore hAfter => absurd hAfter hBefore.asymm

theorem Steps.unique {q q₁ q₂ : Queue α} {demands : List (Demand α)}
    {batches₁ batches₂ : List (List (Ticket α))} (h₁ : Steps q demands batches₁ q₁)
    (h₂ : Steps q demands batches₂ q₂) : batches₁ = batches₂ ∧ q₁ = q₂ := by
  induction h₁ generalizing q₂ batches₂ with
  | nil => cases h₂ with
    | nil => exact ⟨rfl, rfl⟩
  | cons hStep₁ _ ih => cases h₂ with
    | cons hStep₂ hSteps₂ =>
        obtain ⟨rfl, rfl⟩ := hStep₁.unique hStep₂
        obtain ⟨rfl, rfl⟩ := ih hSteps₂
        exact ⟨rfl, rfl⟩

/-- The tickets that are handed out when the next number is this. -/
def handedOut : Nat → List (Demand α) → List (Ticket α)
  | _, [] => []
  | n, .schedule due action :: demands => ⟨n, due, action⟩ :: handedOut (n + 1) demands
  | n, .takeDue _ :: demands => handedOut n demands

theorem le_number_of_mem_handedOut {t : Ticket α} {n : Nat} {demands : List (Demand α)}
    (h : t ∈ handedOut n demands) : n ≤ t.number := by
  induction demands generalizing n with
  | nil => simp [handedOut] at h
  | cons demand demands ih =>
      cases demand with
      | takeDue now => exact ih h
      | schedule due action =>
          rcases List.mem_cons.mp h with rfl | h
          · exact Nat.le_refl _
          · exact Nat.le_of_succ_le (ih h)

theorem nodup_handedOut (n : Nat) (demands : List (Demand α)) : (handedOut n demands).Nodup := by
  induction demands generalizing n with
  | nil => exact .nil
  | cons demand demands ih =>
      cases demand with
      | takeDue now => exact ih n
      | schedule due action =>
          refine List.nodup_cons.mpr ⟨fun hMem => ?_, ih _⟩
          exact Nat.not_succ_le_self n (le_number_of_mem_handedOut hMem)

/-- Whoever is called up has waited, and nobody else leaves. -/
theorem Step.perm {q q' : Queue α} {demand : Demand α} {batch : List (Ticket α)}
    (h : Step q demand batch q') (demands : List (Demand α)) :
    (batch ++ (q'.pending ++ handedOut q'.issued demands)).Perm
      (q.pending ++ handedOut q.issued (demand :: demands)) := by
  cases h with
  | schedule due action => simp [Queue.schedule, handedOut]
  | takeDue hAll hOrder =>
      rename_i now
      have hSplit : (batch ++ (q.leave now).pending).Perm q.pending :=
        (hAll.append_right _).trans (List.filter_append_perm _ _)
      rw [← List.append_assoc]
      exact hSplit.append_right _

/-- **Every ticket is called up once or still waits.** -/
theorem Steps.perm {q q' : Queue α} {demands : List (Demand α)} {batches : List (List (Ticket α))}
    (h : Steps q demands batches q') :
    (batches.flatten ++ q'.pending).Perm (q.pending ++ handedOut q.issued demands) := by
  induction h with
  | nil q => simp [handedOut]
  | cons hStep hSteps ih =>
      rw [List.flatten_cons, List.append_assoc]
      exact (ih.append_left _).trans (hStep.perm _)

end Queue

/-! ### Slots hold the actions of tickets -/

namespace Agenda

variable {α : Type} {slots : List (Slot α)} {pending : List (Ticket α)}

/-- The tickets for a time. -/
def waitingFor (pending : List (Ticket α)) (due : Float) : List (Ticket α) :=
  pending.filter fun t => t.due == due

/-- The tickets for the times of some slots, in the order of the slots. -/
def inOrder (slots : List (Slot α)) (pending : List (Ticket α)) : List (Ticket α) :=
  slots.flatMap fun s => waitingFor pending s.due

/-- The slots ascend strictly, and none is empty. -/
structure Ascending (g : Agenda α) : Prop where
  sorted : g.slots.Pairwise fun s s' => s.due < s'.due
  filled : ∀ s ∈ g.slots, s.actions ≠ []

/-- The agenda stores the actions of the tickets that wait. -/
structure Holds (g : Agenda α) (q : Queue α) : Prop extends Ascending g where
  slotActions : ∀ s ∈ g.slots, s.actions = (waitingFor q.pending s.due).map Ticket.action
  covered : ∀ t ∈ q.pending, ∃ s ∈ g.slots, (t.due == s.due) = true
  numbered : q.pending.Pairwise fun t t' => t.number < t'.number
  issued : ∀ t ∈ q.pending, t.number < q.issued

theorem mem_inOrder {t : Ticket α} :
    t ∈ inOrder slots pending ↔ t ∈ pending ∧ ∃ s ∈ slots, (t.due == s.due) = true := by
  simp only [inOrder, waitingFor, List.mem_flatMap, List.mem_filter]
  exact ⟨fun ⟨s, hs, ht, hDue⟩ => ⟨ht, s, hs, hDue⟩, fun ⟨ht, s, hs, hDue⟩ => ⟨s, hs, ht, hDue⟩⟩

theorem map_action_inOrder
    (h : ∀ s ∈ slots, s.actions = (waitingFor pending s.due).map Ticket.action) :
    (inOrder slots pending).map Ticket.action = slots.flatMap Slot.actions := by
  rw [inOrder, List.map_flatMap]
  exact (List.flatMap_congr h).symm

/-- Tickets in the order of their slots are earliest first and then by number. -/
theorem pairwise_inOrder (hSorted : slots.Pairwise fun s s' => s.due < s'.due)
    (hNumbered : pending.Pairwise fun t t' => t.number < t'.number) :
    (inOrder slots pending).Pairwise Ticket.Before := by
  refine List.pairwise_flatMap.mpr ⟨fun s _ => ?_, hSorted.imp fun {s s'} hLt t ht t' ht' => ?_⟩
  · refine (List.pairwise_filter.mpr (hNumbered.imp fun hLt hDue hDue' => ?_))
    exact .inr ⟨Time.beq_trans hDue (Time.beq_symm hDue'), hLt⟩
  · have hDue := (List.mem_filter.mp ht).2
    have hDue' := (List.mem_filter.mp ht').2
    exact .inl (Time.lt_of_beq_of_lt hDue (Time.lt_of_lt_of_beq hLt (Time.beq_symm hDue')))

theorem nodup_of_before {ts : List (Ticket α)} (h : ts.Pairwise Ticket.Before) : ts.Nodup :=
  h.imp Ticket.Before.ne

theorem nodup_of_numbered {ts : List (Ticket α)}
    (h : ts.Pairwise fun t t' => t.number < t'.number) : ts.Nodup :=
  h.imp fun hLt hSame => Nat.ne_of_lt hLt (congrArg Ticket.number hSame)

/-- How many actions are stored is how many tickets wait. -/
theorem Holds.actions_perm {g : Agenda α} {q : Queue α} (h : g.Holds q) :
    ∃ order : List (Ticket α), order.Perm q.pending ∧ g.actions = order.map Ticket.action := by
  refine ⟨inOrder g.slots q.pending, ?_, (map_action_inOrder h.slotActions).symm⟩
  have hOrder := nodup_of_before (pairwise_inOrder h.sorted h.numbered)
  refine (List.perm_ext_iff_of_nodup hOrder (nodup_of_numbered h.numbered)).mpr fun t => ?_
  rw [mem_inOrder]
  exact ⟨And.left, fun ht => ⟨ht, h.covered t ht⟩⟩

/-! ### Taking out what is due -/

variable {g : Agenda α} {q : Queue α}

theorem Ascending.leads_le (h : g.Ascending) (now : Float) :
    Leads (fun s => decide (s.due ≤ now)) g.slots :=
  h.sorted.imp fun hLt hLe => by
    rw [decide_eq_true_eq] at hLe ⊢
    exact Time.le_of_lt (Time.lt_of_lt_of_le hLt hLe)

theorem Ascending.leads_lt (h : g.Ascending) (due : Float) :
    Leads (fun s => decide (s.due < due)) g.slots :=
  h.sorted.imp fun hLt hLt' => by
    rw [decide_eq_true_eq] at hLt' ⊢
    exact Time.lt_of_lt_of_le hLt (Time.le_of_lt hLt')

theorem Ascending.takeDue_eq (h : g.Ascending) (now : Float) : g.takeDue now =
    ((g.slots.filter fun s => decide (s.due ≤ now)).flatMap Slot.actions,
      ⟨g.slots.filter fun s => !decide (s.due ≤ now)⟩) := by
  unfold takeDue
  simp only
  rw [take_partitionPoint (h.leads_le now), drop_partitionPoint (h.leads_le now)]

theorem Holds.takeDue (h : g.Holds q) (now : Float) : ∃ batch : List (Ticket α),
    Queue.Step q (.takeDue now) batch (q.leave now) ∧
      (g.takeDue now).1 = batch.map Ticket.action ∧ (g.takeDue now).2.Holds (q.leave now) := by
  rw [h.toAscending.takeDue_eq]
  have hDueSorted := h.sorted.filter fun s => decide (s.due ≤ now)
  have hOrder := pairwise_inOrder hDueSorted h.numbered
  refine ⟨_, .takeDue ?_ hOrder, ?_, ?_⟩
  · refine (List.perm_ext_iff_of_nodup (nodup_of_before hOrder)
      (nodup_of_numbered (h.numbered.filter _))).mpr fun t => ?_
    rw [mem_inOrder, List.mem_filter]
    refine and_congr_right fun ht => ⟨?_, fun hDue => ?_⟩
    · rintro ⟨s, hs, hSame⟩
      simpa [Time.le_congr hSame] using (List.mem_filter.mp hs).2
    · obtain ⟨s, hs, hSame⟩ := h.covered t ht
      refine ⟨s, List.mem_filter.mpr ⟨hs, ?_⟩, hSame⟩
      simpa [Time.le_congr hSame] using hDue
  · exact (map_action_inOrder fun s hs => h.slotActions s (List.mem_filter.mp hs).1).symm
  · refine ⟨⟨h.sorted.filter _, fun s hs => h.filled s (List.mem_filter.mp hs).1⟩,
      fun s hs => ?_, fun t ht => ?_, h.numbered.filter _,
      fun t ht => h.issued t (List.mem_filter.mp ht).1⟩
    · obtain ⟨hMem, hLater⟩ := List.mem_filter.mp hs
      rw [h.slotActions s hMem, waitingFor, waitingFor, Queue.leave, List.filter_filter]
      refine congrArg _ (List.filter_congr fun t _ => ?_)
      cases hSame : t.due == s.due with
      | false => rfl
      | true => simpa [Time.le_congr hSame] using hLater
    · obtain ⟨hMem, hLater⟩ := List.mem_filter.mp ht
      obtain ⟨s, hs, hSame⟩ := h.covered t hMem
      refine ⟨s, List.mem_filter.mpr ⟨hs, ?_⟩, hSame⟩
      simpa [Time.le_congr hSame] using hLater

/-! ### Scheduling -/

/-- A slot whose time is neither before a due time nor the same comes after it, with all behind. -/
theorem after_of_cons {s : Slot α} {after : List (Slot α)} {due : Float}
    (hSorted : (s :: after).Pairwise fun s s' => s.due < s'.due) (hDue : due < s.due) :
    ∀ s' ∈ s :: after, due < s'.due := by
  intro s' hs'
  rcases List.mem_cons.mp hs' with rfl | hs'
  · exact hDue
  · exact Time.lt_of_lt_of_le hDue (Time.le_of_lt ((List.pairwise_cons.mp hSorted).1 s' hs'))

/-- Where a new action goes: behind the others of its time, or into a slot of its own. -/
theorem Ascending.slots_schedule (h : g.Ascending) (hTimed : ∀ s ∈ g.slots, s.due.isNaN = false)
    {due : Float} (hDue : due.isNaN = false) (action : α) :
    ∃ before after : List (Slot α), (∀ s ∈ before, s.due < due) ∧ (∀ s ∈ after, due < s.due) ∧
      ((∃ s, (s.due == due) = true ∧ g.slots = before ++ s :: after ∧ g.schedule due action =
          ⟨before ++ { s with actions := s.actions ++ [action] } :: after⟩) ∨
        g.slots = before ++ after ∧
          g.schedule due action = ⟨before ++ ⟨due, [action]⟩ :: after⟩) := by
  have hTake := take_partitionPoint (h.leads_lt due)
  have hDrop := drop_partitionPoint (h.leads_lt due)
  unfold schedule
  simp only
  generalize partitionPoint (fun s => decide (s.due < due)) g.slots = place at hTake hDrop ⊢
  have hSplit := List.take_append_drop place g.slots
  have hBefore : ∀ s ∈ g.slots.take place, s.due < due := by
    intro s hs
    rw [hTake] at hs
    simpa using (List.mem_filter.mp hs).2
  have hRest : ∀ s ∈ g.slots.drop place, ¬s.due < due := by
    intro s hs
    rw [hDrop] at hs
    simpa using (List.mem_filter.mp hs).2
  have hSorted : (g.slots.drop place).Pairwise fun s s' => s.due < s'.due :=
    h.sorted.sublist (List.drop_sublist _ _)
  have hHead : g.slots[place]? = (g.slots.drop place).head? := List.head?_drop.symm
  cases hAfter : g.slots.drop place with
  | nil =>
      rw [hAfter] at hHead hSplit
      rw [hHead]
      exact ⟨_, [], hBefore, by simp, .inr ⟨hSplit.symm, rfl⟩⟩
  | cons s after =>
      rw [hAfter] at hHead hSplit hRest hSorted
      rw [hHead]
      have hFirst := hRest s (List.mem_cons_self ..)
      have hMem : s ∈ g.slots := hSplit ▸ List.mem_append_right _ (List.mem_cons_self ..)
      cases hSame : s.due == due with
      | true =>
          have hLast : g.slots.set place { s with actions := s.actions ++ [action] } =
              g.slots.take place ++ { s with actions := s.actions ++ [action] } :: after := by
            have hLt : place < g.slots.length := by
              rw [List.head?_cons] at hHead
              exact (List.getElem?_eq_some_iff.mp hHead).1
            rw [List.set_eq_take_append_cons_drop, if_pos hLt, ← List.tail_drop, hAfter,
              List.tail_cons]
          refine ⟨_, after, hBefore, fun s' hs' => ?_, .inl ⟨s, hSame, hSplit.symm, ?_⟩⟩
          · exact Time.lt_of_beq_of_lt (Time.beq_symm hSame) ((List.pairwise_cons.mp hSorted).1 s' hs')
          · simp only [List.head?_cons, hSame, if_true]
            rw [hLast]
      | false =>
          have hLater : due < s.due := by
            rcases Time.lt_or_beq_or_gt (hTimed s hMem) hDue with hLt | hBeq | hGt
            · exact absurd hLt hFirst
            · simp [hBeq] at hSame
            · exact hGt
          refine ⟨_, s :: after, hBefore, after_of_cons hSorted hLater, .inr ⟨hSplit.symm, ?_⟩⟩
          simp [hSame]

/-- A time that some action waits for is a number. -/
theorem Holds.timed (h : g.Holds q) : ∀ s ∈ g.slots, s.due.isNaN = false := by
  intro s hs
  have hSome : waitingFor q.pending s.due ≠ [] := fun hNil => h.filled s hs (by
    rw [h.slotActions s hs, hNil]
    rfl)
  obtain ⟨t, ht⟩ := List.exists_mem_of_ne_nil _ hSome
  exact (Time.beq_iff.mp (List.mem_filter.mp ht).2).2.1

theorem waitingFor_schedule_same (q : Queue α) {due place : Float} (h : (due == place) = true)
    (action : α) : waitingFor (q.schedule due action).pending place =
      waitingFor q.pending place ++ [⟨q.issued, due, action⟩] := by
  simp [waitingFor, Queue.schedule, h]

theorem waitingFor_schedule_other (q : Queue α) {due place : Float} (h : (due == place) = false)
    (action : α) : waitingFor (q.schedule due action).pending place =
      waitingFor q.pending place := by
  simp [waitingFor, Queue.schedule, h]

/-- A ticket is stored if its action joins the actions of its time, between the other slots. -/
theorem Holds.insert (h : g.Holds q) {before after : List (Slot α)} {due place : Float}
    {old : List α} (hMem : ∀ s ∈ before ++ after, s ∈ g.slots)
    (hSorted : (before ++ after).Pairwise fun s s' => s.due < s'.due)
    (hBefore : ∀ s ∈ before, s.due < due) (hAfter : ∀ s ∈ after, due < s.due)
    (hPlace : (place == due) = true)
    (hOld : old = (waitingFor q.pending place).map Ticket.action)
    (hCovered : ∀ t ∈ q.pending, (t.due == place) = true ∨
      ∃ s ∈ before ++ after, (t.due == s.due) = true) (action : α) :
    Holds ⟨before ++ ⟨place, old ++ [action]⟩ :: after⟩ (q.schedule due action) := by
  obtain ⟨hSortedBefore, hSortedAfter, hAcross⟩ := List.pairwise_append.mp hSorted
  have hNew : ∀ s, s ∈ before ++ ⟨place, old ++ [action]⟩ :: after ↔
      s = ⟨place, old ++ [action]⟩ ∨ s ∈ before ++ after := by
    intro s
    simp only [List.mem_append, List.mem_cons]
    tauto
  have hOther : ∀ s ∈ before ++ after, (due == s.due) = false := by
    intro s hs
    rcases List.mem_append.mp hs with hs | hs
    · exact Time.beq_eq_false_of_gt (hBefore s hs)
    · exact Time.beq_eq_false_of_lt (hAfter s hs)
  refine ⟨⟨List.pairwise_append.mpr ⟨hSortedBefore, List.pairwise_cons.mpr ⟨fun s hs => ?_,
    hSortedAfter⟩, fun s hs s' hs' => ?_⟩, fun s hs => ?_⟩, fun s hs => ?_, fun t ht => ?_, ?_,
    fun t ht => ?_⟩
  · exact Time.lt_of_beq_of_lt hPlace (hAfter s hs)
  · rcases List.mem_cons.mp hs' with rfl | hs'
    · exact Time.lt_of_lt_of_beq (hBefore s hs) (Time.beq_symm hPlace)
    · exact hAcross s hs s' hs'
  · rcases (hNew s).mp hs with rfl | hs
    · simp
    · exact h.filled s (hMem s hs)
  · rcases (hNew s).mp hs with rfl | hs
    · rw [waitingFor_schedule_same q (Time.beq_symm hPlace), List.map_append, hOld]
      rfl
    · rw [waitingFor_schedule_other q (hOther s hs), h.slotActions s (hMem s hs)]
  · simp only [hNew]
    rcases List.mem_append.mp ht with ht | ht
    · rcases hCovered t ht with hSame | ⟨s, hs, hSame⟩
      · exact ⟨_, .inl rfl, hSame⟩
      · exact ⟨s, .inr hs, hSame⟩
    · obtain rfl := List.mem_singleton.mp ht
      exact ⟨_, .inl rfl, Time.beq_symm hPlace⟩
  · refine List.pairwise_append.mpr ⟨h.numbered, List.pairwise_singleton .., fun t ht t' ht' => ?_⟩
    obtain rfl := List.mem_singleton.mp ht'
    exact h.issued t ht
  · rcases List.mem_append.mp ht with ht | ht
    · exact Nat.lt_succ_of_lt (h.issued t ht)
    · obtain rfl := List.mem_singleton.mp ht
      exact Nat.lt_succ_self _

theorem Holds.schedule (h : g.Holds q) {due : Float} (hDue : due.isNaN = false) (action : α) :
    (g.schedule due action).Holds (q.schedule due action) := by
  obtain ⟨before, after, hBefore, hAfter, ⟨s, hSame, hSlots, hNew⟩ | ⟨hSlots, hNew⟩⟩ :=
    h.toAscending.slots_schedule h.timed hDue action
  · have hMem : s ∈ g.slots := by simp [hSlots]
    have hSub : (before ++ after).Sublist g.slots := by
      rw [hSlots]
      exact (List.sublist_cons_self s after).append_left before
    rw [hNew]
    refine h.insert hSub.subset (h.sorted.sublist hSub) hBefore hAfter hSame
      (h.slotActions s hMem) (fun t ht => ?_) action
    obtain ⟨s', hs', hTicket⟩ := h.covered t ht
    rw [hSlots] at hs'
    rcases List.mem_append.mp hs' with hs' | hs'
    · exact .inr ⟨s', List.mem_append_left _ hs', hTicket⟩
    · rcases List.mem_cons.mp hs' with rfl | hs'
      · exact .inl hTicket
      · exact .inr ⟨s', List.mem_append_right _ hs', hTicket⟩
  · have hNone : waitingFor q.pending due = [] := by
      refine List.filter_eq_nil_iff.mpr fun t ht hTicket => ?_
      obtain ⟨s, hs, hSlot⟩ := h.covered t ht
      have hSame : (s.due == due) = true := Time.beq_trans (Time.beq_symm hSlot) hTicket
      rw [hSlots] at hs
      rcases List.mem_append.mp hs with hs | hs
      · simp [Time.beq_eq_false_of_lt (hBefore s hs)] at hSame
      · simp [Time.beq_eq_false_of_gt (hAfter s hs)] at hSame
    have hOld : [] = (waitingFor q.pending due).map Ticket.action := by rw [hNone, List.map_nil]
    rw [hNew]
    exact h.insert (fun s hs => hSlots ▸ hs) (hSlots ▸ h.sorted) hBefore hAfter
      (Time.beq_iff.mpr ⟨hDue, hDue, rfl⟩) hOld (fun t ht => .inr (hSlots ▸ h.covered t ht)) action

/-! ### Answering demands -/

/-- Do what is asked, and hand out the actions that are called up. -/
def serve (g : Agenda α) : Demand α → List α × Agenda α
  | .schedule due action => ([], g.schedule due action)
  | .takeDue now => g.takeDue now

/-- Do one thing after the other, with an answer for each. -/
def serveAll (g : Agenda α) : List (Demand α) → List (List α) × Agenda α
  | [] => ([], g)
  | demand :: demands =>
    let (answer, g) := g.serve demand
    let (answers, g) := g.serveAll demands
    (answer :: answers, g)

theorem holds_empty : (empty : Agenda α).Holds .empty := by
  refine ⟨⟨.nil, ?_⟩, ?_, ?_, .nil, ?_⟩ <;> simp [empty, Queue.empty]

theorem Holds.serve (h : g.Holds q) {demand : Demand α} (hTimed : demand.Timed) :
    ∃ (batch : List (Ticket α)) (q' : Queue α), Queue.Step q demand batch q' ∧
      (g.serve demand).1 = batch.map Ticket.action ∧ (g.serve demand).2.Holds q' := by
  cases demand with
  | schedule due action => exact ⟨[], _, .schedule q due action, rfl, h.schedule hTimed action⟩
  | takeDue now =>
      obtain ⟨batch, hStep, hAnswer, hHolds⟩ := h.takeDue now
      exact ⟨batch, _, hStep, hAnswer, hHolds⟩

theorem Holds.serveAll (h : g.Holds q) {demands : List (Demand α)}
    (hTimed : ∀ demand ∈ demands, demand.Timed) :
    ∃ (batches : List (List (Ticket α))) (q' : Queue α), Queue.Steps q demands batches q' ∧
      (g.serveAll demands).1 = batches.map (List.map Ticket.action) ∧
        (g.serveAll demands).2.Holds q' := by
  induction demands generalizing g q with
  | nil => exact ⟨[], q, .nil q, rfl, h⟩
  | cons demand demands ih =>
      obtain ⟨hFirst, hRest⟩ := List.forall_mem_cons.mp hTimed
      obtain ⟨batch, q', hStep, hAnswer, hHolds⟩ := h.serve hFirst
      obtain ⟨batches, q'', hSteps, hAnswers, hEnd⟩ := ih hHolds hRest
      exact ⟨batch :: batches, q'', .cons hStep hSteps, congrArg₂ List.cons hAnswer hAnswers, hEnd⟩

theorem Holds.size_eq (h : g.Holds q) : g.size = q.pending.length := by
  obtain ⟨order, hPerm, hActions⟩ := h.actions_perm
  rw [size, hActions, List.length_map, hPerm.length_eq]

theorem Holds.isEmpty_eq (h : g.Holds q) : g.isEmpty = q.pending.isEmpty := by
  rw [Bool.eq_iff_iff, isEmpty, List.isEmpty_iff, List.isEmpty_iff]
  constructor
  · intro hNone
    refine List.eq_nil_iff_forall_not_mem.mpr fun t ht => ?_
    obtain ⟨s, hs, -⟩ := h.covered t ht
    simp [hNone] at hs
  · intro hNone
    refine List.eq_nil_iff_forall_not_mem.mpr fun s hs => h.filled s hs ?_
    rw [h.slotActions s hs, hNone]
    rfl

/--
**The agenda is a queue of tickets.**  Whatever is asked of it, as long as due times are
numbers, it answers with the actions of the tickets that the queue calls up.  Every ticket
that has been handed out has been called up or still waits, and none occurs twice.  There
are as many actions as tickets that wait, and the slots ascend and none is empty.
-/
theorem serveAll_as_queue (demands : List (Demand α)) (hTimed : ∀ demand ∈ demands, demand.Timed) :
    ∃ (batches : List (List (Ticket α))) (q : Queue α), Queue.Steps .empty demands batches q ∧
      (empty.serveAll demands).1 = batches.map (List.map Ticket.action) ∧
      (batches.flatten ++ q.pending).Perm (Queue.handedOut 0 demands) ∧
      (batches.flatten ++ q.pending).Nodup ∧
      (empty.serveAll demands).2.size = q.pending.length ∧
      (empty.serveAll demands).2.isEmpty = q.pending.isEmpty ∧
      (empty.serveAll demands).2.Ascending := by
  obtain ⟨batches, q, hSteps, hAnswers, hHolds⟩ := holds_empty.serveAll hTimed
  have hOnce := hSteps.perm.nodup_iff.mpr (Queue.nodup_handedOut 0 demands)
  exact ⟨batches, q, hSteps, hAnswers, hSteps.perm, hOnce, hHolds.size_eq, hHolds.isEmpty_eq,
    hHolds.toAscending⟩

/-- Three actions, two of them at the two zeros, and a look at what is due by then. -/
def threeActions : List (Demand String) :=
  [.schedule 0.5 "late", .schedule 0 "first", .schedule (-0) "second", .takeDue 0.25]

theorem serveAll_threeActions : (∀ demand ∈ threeActions, demand.Timed) ∧
    ∃ (batches : List (List (Ticket String))) (q : Queue String),
      Queue.Steps .empty threeActions batches q ∧
        batches.map (List.map Ticket.action) = [[], [], [], ["first", "second"]] ∧
        q.pending.length = 1 := by
  have hTimed : ∀ demand ∈ threeActions, demand.Timed := by decide +kernel
  obtain ⟨batches, q, hSteps, hAnswers, -, -, hSize, -⟩ := serveAll_as_queue threeActions hTimed
  have hEvaluated : (empty.serveAll threeActions).1 = [[], [], [], ["first", "second"]] ∧
      (empty.serveAll threeActions).2.size = 1 := by decide +kernel
  exact ⟨hTimed, batches, q, hSteps, hAnswers.symm.trans hEvaluated.1,
    hSize.symm.trans hEvaluated.2⟩

end Agenda

end Patchbay
