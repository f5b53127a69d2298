import Mathlib.Data.List.Basic
import Mathlib.Logic.Relation
import Patchbay.Graph.Cycle

/-
What the two searches behind the cycle check find.

The forward search leaves a node once everything behind it has been left, unless the
search is still on its way there.  So when an arc leads from `n` to `m` and `n` has
been left, then either `m` was left before `n`, or the search was on its way out of
`m` when it came to `n`, and then `m` leads to `n`.  That is `LeftBefore` or `Leads`,
for every arc, and it is all that the second pass needs.

Keeping track of it takes an invariant on the stack.  A node that has been discovered
and not left is *open*.  The topmost entry of an open node on the stack is the one
from which it was opened, and whatever lies above that entry is reached from the node.
Entries further down may repeat the node, because a node is pushed again for every arc
by which it is seen before it is discovered; they say nothing, so the invariant speaks
of what is `above` the topmost entry only.

The backward search then looks for an arc that leads from a later node of the order to
an earlier one.  If there is one, its source is on a circle; if there is none, the
places in the order increase along all arcs.
-/

namespace Patchbay

namespace Arcs

variable {arcs : Arcs}

/-- An arc leads from one node to the other. -/
def Step (arcs : Arcs) (a b : Nat) : Prop :=
  (a, b) ∈ arcs

/-- One or more arcs lead from one node to the other. -/
def Leads (arcs : Arcs) : Nat → Nat → Prop :=
  Relation.TransGen arcs.Step

@[simp] theorem mem_successors {n m : Nat} : m ∈ arcs.successors n ↔ arcs.Step n m := by
  simp [successors, Step]

@[simp] theorem mem_predecessors {n m : Nat} : m ∈ arcs.predecessors n ↔ arcs.Step m n := by
  simp [predecessors, Step]

/-- In a list whose head is the latest entry, `m` came before `n`. -/
def LeftBefore (finished : List Nat) (m n : Nat) : Prop :=
  ∃ later earlier, finished = later ++ n :: earlier ∧ m ∈ earlier

theorem LeftBefore.cons {finished : List Nat} {m n : Nat} (h : LeftBefore finished m n)
    (x : Nat) : LeftBefore (x :: finished) m n := by
  obtain ⟨later, earlier, hSplit, hm⟩ := h
  exact ⟨x :: later, earlier, by rw [hSplit, List.cons_append], hm⟩

/-! ### The forward search -/

/-- What lies above the topmost entry of a node on a stack. -/
def above (stack : List Nat) (n : Nat) : List Nat :=
  stack.takeWhile (· != n)

@[simp] theorem above_cons_self (n : Nat) (rest : List Nat) : above (n :: rest) n = [] := by
  simp [above]

theorem above_cons_of_ne {n m : Nat} (h : n ≠ m) (rest : List Nat) :
    above (n :: rest) m = n :: above rest m := by
  simp [above, h]

theorem above_append {n : Nat} {fresh : List Nat} (h : n ∉ fresh) (stack : List Nat) :
    above (fresh ++ stack) n = fresh ++ above stack n := by
  unfold above
  refine List.takeWhile_append_of_pos fun m hm => ?_
  simpa using fun hc : m = n => h (hc ▸ hm)

/-- What holds while a forward search is under way. -/
structure Searching (arcs : Arcs) (count : Nat) (undiscovered finished stack : List Nat) :
    Prop where
  undiscoveredNodup : undiscovered.Nodup
  finishedNodup : finished.Nodup
  finishedInRange : ∀ n ∈ finished, n < count
  stackInRange : ∀ n ∈ stack, n < count
  finishedDiscovered : ∀ n ∈ finished, n ∉ undiscovered
  /-- Every open node is on the stack. -/
  openStacked : ∀ n < count, n ∉ undiscovered → n ∉ finished → n ∈ stack
  /-- What lies above an open node is reached from it. -/
  aboveReached : ∀ n < count, n ∉ undiscovered → n ∉ finished →
    ∀ m ∈ above stack n, arcs.Leads n m
  /-- What an open node leads to is discovered, or waits above the node. -/
  nextPending : ∀ n < count, n ∉ undiscovered → n ∉ finished →
    ∀ m, arcs.Step n m → m ∈ undiscovered → m ∈ above stack n
  /-- What a finished node leads to was left before it, or leads to it. -/
  settled : ∀ n ∈ finished, ∀ m, arcs.Step n m → LeftBefore finished m n ∨ arcs.Leads m n

namespace Searching

variable {count : Nat} {undiscovered finished rest : List Nat} {n : Nat}

/-- Discovering the topmost node: it becomes open, with what it leads to above it. -/
theorem discover (hArcs : ∀ a b, arcs.Step a b → b < count)
    (h : Searching arcs count undiscovered finished (n :: rest)) :
    Searching arcs count (undiscovered.erase n) finished
      (((arcs.successors n).filter (· ∈ undiscovered.erase n)).reverse ++ n :: rest) := by
  have hMem : ∀ m, m ∈ undiscovered.erase n ↔ m ≠ n ∧ m ∈ undiscovered := fun m =>
    h.undiscoveredNodup.mem_erase_iff
  have hFresh : ∀ m, m ∈ ((arcs.successors n).filter (· ∈ undiscovered.erase n)).reverse ↔
      arcs.Step n m ∧ m ∈ undiscovered.erase n := by
    intro m
    simp
  generalize ((arcs.successors n).filter (· ∈ undiscovered.erase n)).reverse = fresh at hFresh
  -- The new entries lie above every open node, old or new.
  have hAbove : ∀ m, m ∉ undiscovered.erase n →
      above (fresh ++ n :: rest) m = fresh ++ above (n :: rest) m := fun m hm =>
    above_append (fun hc => hm ((hFresh m).mp hc).2) _
  refine ⟨h.undiscoveredNodup.erase n, h.finishedNodup, h.finishedInRange, ?stackInRange,
    ?finishedDiscovered, ?openStacked, ?aboveReached, ?nextPending, h.settled⟩
  case stackInRange =>
    intro m hm
    rcases List.mem_append.mp hm with hm | hm
    · exact hArcs n m ((hFresh m).mp hm).1
    · exact h.stackInRange m hm
  case finishedDiscovered =>
    intro m hm hc
    exact h.finishedDiscovered m hm ((hMem m).mp hc).2
  case openStacked =>
    intro m hlt hm hf
    by_cases hmn : m = n
    · simp [hmn]
    · have hm' : m ∉ undiscovered := fun hc => hm ((hMem m).mpr ⟨hmn, hc⟩)
      exact List.mem_append_right _ (h.openStacked m hlt hm' hf)
  case aboveReached =>
    intro m hlt hm hf x hx
    rw [hAbove m hm] at hx
    by_cases hmn : m = n
    · subst hmn
      rw [above_cons_self, List.append_nil] at hx
      exact .single ((hFresh x).mp hx).1
    · have hm' : m ∉ undiscovered := fun hc => hm ((hMem m).mpr ⟨hmn, hc⟩)
      have hReached := h.aboveReached m hlt hm' hf
      rcases List.mem_append.mp hx with hx | hx
      · have hn : n ∈ above (n :: rest) m := by simp [above_cons_of_ne (Ne.symm hmn)]
        exact (hReached n hn).tail ((hFresh x).mp hx).1
      · exact hReached x hx
  case nextPending =>
    intro m hlt hm hf x hStep hx
    rw [hAbove m hm]
    by_cases hmn : m = n
    · subst hmn
      exact List.mem_append_left _ ((hFresh x).mpr ⟨hStep, hx⟩)
    · have hm' : m ∉ undiscovered := fun hc => hm ((hMem m).mpr ⟨hmn, hc⟩)
      exact List.mem_append_right _ (h.nextPending m hlt hm' hf x hStep ((hMem x).mp hx).2)

/-- Dropping the topmost entry leaves what lies above other nodes as it was, but for that entry. -/
private theorem above_of_cons {m x : Nat} (hmn : m ≠ n) (hx : x ∈ above rest m) :
    x ∈ above (n :: rest) m := by
  rw [above_cons_of_ne (Ne.symm hmn)]
  exact List.mem_cons_of_mem _ hx

private theorem above_of_cons_ne {m x : Nat} (hmn : m ≠ n) (hxn : x ≠ n)
    (hx : x ∈ above (n :: rest) m) : x ∈ above rest m := by
  rw [above_cons_of_ne (Ne.symm hmn)] at hx
  exact (List.mem_cons.mp hx).resolve_left hxn

/-- Passing over the topmost entry, whose node has been left already. -/
theorem skip (h : Searching arcs count undiscovered finished (n :: rest))
    (hn : n ∉ undiscovered) (hDone : n ∈ finished) :
    Searching arcs count undiscovered finished rest := by
  have hne : ∀ m, m ∉ finished → m ≠ n := fun m hm hc => hm (hc ▸ hDone)
  refine ⟨h.undiscoveredNodup, h.finishedNodup, h.finishedInRange, ?_, h.finishedDiscovered, ?_,
    ?_, ?_, h.settled⟩
  · exact fun m hm => h.stackInRange m (by simp [hm])
  · intro m hlt hm hf
    exact (List.mem_cons.mp (h.openStacked m hlt hm hf)).resolve_left (hne m hf)
  · intro m hlt hm hf x hx
    exact h.aboveReached m hlt hm hf x (above_of_cons (hne m hf) hx)
  · intro m hlt hm hf x hStep hx
    exact above_of_cons_ne (hne m hf) (fun hc => hn (hc ▸ hx))
      (h.nextPending m hlt hm hf x hStep hx)

/-- Leaving the topmost node: everything it leads to was left before, or is open below it. -/
theorem leave (hArcs : ∀ a b, arcs.Step a b → b < count)
    (h : Searching arcs count undiscovered finished (n :: rest))
    (hn : n ∉ undiscovered) (hOpen : n ∉ finished) :
    Searching arcs count undiscovered (n :: finished) rest := by
  have hInRange : n < count := h.stackInRange n (by simp)
  have hOther : ∀ m, m ∉ n :: finished → m ≠ n ∧ m ∉ finished := by
    intro m hm
    simpa using hm
  refine ⟨h.undiscoveredNodup, List.nodup_cons.mpr ⟨hOpen, h.finishedNodup⟩, ?finishedInRange,
    ?stackInRange, ?finishedDiscovered, ?openStacked, ?aboveReached, ?nextPending, ?settled⟩
  case finishedInRange =>
    intro m hm
    rcases List.mem_cons.mp hm with rfl | hm
    · exact hInRange
    · exact h.finishedInRange m hm
  case stackInRange =>
    exact fun m hm => h.stackInRange m (by simp [hm])
  case finishedDiscovered =>
    intro m hm
    rcases List.mem_cons.mp hm with rfl | hm
    · exact hn
    · exact h.finishedDiscovered m hm
  case openStacked =>
    intro m hlt hm hf
    obtain ⟨hmn, hf⟩ := hOther m hf
    exact (List.mem_cons.mp (h.openStacked m hlt hm hf)).resolve_left hmn
  case aboveReached =>
    intro m hlt hm hf x hx
    obtain ⟨hmn, hf⟩ := hOther m hf
    exact h.aboveReached m hlt hm hf x (above_of_cons hmn hx)
  case nextPending =>
    intro m hlt hm hf x hStep hx
    obtain ⟨hmn, hf⟩ := hOther m hf
    exact above_of_cons_ne hmn (fun hc => hn (hc ▸ hx)) (h.nextPending m hlt hm hf x hStep hx)
  case settled =>
    intro m hm x hStep
    rcases List.mem_cons.mp hm with rfl | hm
    · have hx : x ∉ undiscovered := fun hc => by
        simpa using h.nextPending m hInRange hn hOpen x hStep hc
      by_cases hf : x ∈ finished
      · exact .inl ⟨[], finished, rfl, hf⟩
      · by_cases hxm : x = m
        · exact .inr (.single (hxm ▸ hStep))
        · have hTop : m ∈ above (m :: rest) x := by simp [above_cons_of_ne (Ne.symm hxm)]
          exact .inr (h.aboveReached x (hArcs m x hStep) hx hf m hTop)
    · rcases h.settled m hm x hStep with hBefore | hLeads
      · exact .inl (hBefore.cons n)
      · exact .inr hLeads

end Searching

/-- What a forward search comes to: the invariant without a stack, nothing new undiscovered, and
everything that was on the stack discovered. -/
theorem finishFrom_searching {count : Nat} (hArcs : ∀ a b, arcs.Step a b → b < count)
    (undiscovered finished stack : List Nat)
    (h : Searching arcs count undiscovered finished stack) :
    Searching arcs count (arcs.finishFrom undiscovered finished stack).1
        (arcs.finishFrom undiscovered finished stack).2 [] ∧
      (arcs.finishFrom undiscovered finished stack).1 ⊆ undiscovered ∧
      ∀ n ∈ stack, n ∉ (arcs.finishFrom undiscovered finished stack).1 := by
  induction undiscovered, finished, stack using finishFrom.induct arcs with
  | case1 undiscovered finished =>
      simp only [finishFrom]
      exact ⟨h, fun n hn => hn, by simp⟩
  | case2 undiscovered finished n rest hn left fresh ih =>
      rw [finishFrom, if_pos hn]
      obtain ⟨hAfter, hSubset, hStack⟩ := ih (h.discover hArcs)
      refine ⟨hAfter, fun m hm => List.mem_of_mem_erase (hSubset hm), ?_⟩
      exact fun m hm => hStack m (List.mem_append_right _ hm)
  | case3 undiscovered finished n rest hn hDone ih =>
      rw [finishFrom, if_neg hn, if_pos hDone]
      obtain ⟨hAfter, hSubset, hStack⟩ := ih (h.skip hn hDone)
      refine ⟨hAfter, hSubset, fun m hm => ?_⟩
      rcases List.mem_cons.mp hm with rfl | hm
      · exact fun hc => hn (hSubset hc)
      · exact hStack m hm
  | case4 undiscovered finished n rest hn hOpen ih =>
      rw [finishFrom, if_neg hn, if_neg hOpen]
      obtain ⟨hAfter, hSubset, hStack⟩ := ih (h.leave hArcs hn hOpen)
      refine ⟨hAfter, hSubset, fun m hm => ?_⟩
      rcases List.mem_cons.mp hm with rfl | hm
      · exact fun hc => hn (hSubset hc)
      · exact hStack m hm

/-! ### The order in which nodes are left -/

/-- Starting a search from a node, when no other is under way. -/
theorem Searching.push {count n : Nat} {undiscovered finished : List Nat}
    (h : Searching arcs count undiscovered finished []) (hn : n < count) :
    Searching arcs count undiscovered finished [n] := by
  have hNoneOpen : ∀ m < count, m ∉ undiscovered → m ∉ finished → False := fun m hlt hm hf => by
    simpa using h.openStacked m hlt hm hf
  refine ⟨h.undiscoveredNodup, h.finishedNodup, h.finishedInRange, ?_, h.finishedDiscovered, ?_,
    ?_, ?_, h.settled⟩
  · intro m hm
    rw [List.mem_singleton.mp hm]
    exact hn
  · exact fun m hlt hm hf => (hNoneOpen m hlt hm hf).elim
  · exact fun m hlt hm hf => (hNoneOpen m hlt hm hf).elim
  · exact fun m hlt hm hf => (hNoneOpen m hlt hm hf).elim

/-- Search from a node unless it has been discovered. -/
def finishStep (arcs : Arcs) (state : List Nat × List Nat) (n : Nat) : List Nat × List Nat :=
  if n ∈ state.1 then arcs.finishFrom state.1 state.2 [n] else state

theorem foldl_finishStep_searching {count : Nat} (hArcs : ∀ a b, arcs.Step a b → b < count)
    (l : List Nat) :
    ∀ state : List Nat × List Nat, (∀ n ∈ l, n < count) →
      Searching arcs count state.1 state.2 [] →
      Searching arcs count (l.foldl arcs.finishStep state).1 (l.foldl arcs.finishStep state).2 [] ∧
        (l.foldl arcs.finishStep state).1 ⊆ state.1 ∧
        ∀ n ∈ l, n ∉ (l.foldl arcs.finishStep state).1 := by
  induction l with
  | nil => intro state _ h; exact ⟨h, fun n hn => hn, by simp⟩
  | cons n l ih =>
      intro state hRange h
      have hStep : Searching arcs count (arcs.finishStep state n).1 (arcs.finishStep state n).2 [] ∧
          (arcs.finishStep state n).1 ⊆ state.1 ∧ n ∉ (arcs.finishStep state n).1 := by
        unfold finishStep
        by_cases hn : n ∈ state.1
        · rw [if_pos hn]
          obtain ⟨hAfter, hSubset, hStack⟩ :=
            finishFrom_searching hArcs _ _ _ (h.push (hRange n (by simp)))
          exact ⟨hAfter, hSubset, hStack n (by simp)⟩
        · rw [if_neg hn]
          exact ⟨h, fun m hm => hm, hn⟩
      obtain ⟨hAfter, hSubset, hGone⟩ :=
        ih (arcs.finishStep state n) (fun m hm => hRange m (by simp [hm])) hStep.1
      refine ⟨hAfter, fun m hm => hStep.2.1 (hSubset hm), fun m hm => ?_⟩
      rcases List.mem_cons.mp hm with rfl | hm
      · exact fun hc => hStep.2.2 (hSubset hc)
      · exact hGone m hm

theorem searching_finishOrder {count : Nat} (hArcs : ∀ a b, arcs.Step a b → b < count) :
    Searching arcs count [] (arcs.finishOrder count) [] := by
  have hStart : Searching arcs count (List.range count) [] [] := by
    refine ⟨List.nodup_range, List.nodup_nil, by simp, by simp, by simp, ?_, ?_, ?_, by simp⟩
    all_goals
      intro n hlt hn
      exact absurd (List.mem_range.mpr hlt) hn
  obtain ⟨hAfter, hSubset, hGone⟩ := foldl_finishStep_searching hArcs (List.range count)
    (List.range count, []) (fun n hn => List.mem_range.mp hn) hStart
  have hEmpty : ((List.range count).foldl arcs.finishStep (List.range count, [])).1 = [] :=
    List.eq_nil_iff_forall_not_mem.mpr fun n hn => hGone n (hSubset hn) hn
  rw [hEmpty] at hAfter
  exact hAfter

theorem nodup_finishOrder {count : Nat} (hArcs : ∀ a b, arcs.Step a b → b < count) :
    (arcs.finishOrder count).Nodup :=
  (searching_finishOrder hArcs).finishedNodup

/-- Every node is left, and nothing else. -/
theorem mem_finishOrder {count : Nat} (hArcs : ∀ a b, arcs.Step a b → b < count) (n : Nat) :
    n ∈ arcs.finishOrder count ↔ n < count := by
  have h := searching_finishOrder hArcs
  refine ⟨h.finishedInRange n, fun hlt => ?_⟩
  by_cases hn : n ∈ arcs.finishOrder count
  · exact hn
  · simpa using h.openStacked n hlt (by simp) hn

/-! ### The backward search -/

/-- An arc leads from a node to one that stands before it. -/
def LeadsBack (arcs : Arcs) (order : List Nat) (x : Nat) : Prop :=
  ∃ before n after, order = before ++ n :: after ∧ x ∈ after ∧ arcs.Step x n

theorem leadsBack_cons {order : List Nat} {n x : Nat} :
    arcs.LeadsBack (n :: order) x ↔ (arcs.Step x n ∧ x ∈ order) ∨ arcs.LeadsBack order x := by
  constructor
  · rintro ⟨before, m, after, hSplit, hx, hStep⟩
    cases before with
    | nil =>
        obtain ⟨rfl, rfl⟩ := List.cons.inj hSplit
        exact .inl ⟨hStep, hx⟩
    | cons k before => exact .inr ⟨before, m, after, (List.cons.inj hSplit).2, hx, hStep⟩
  · rintro (⟨hStep, hx⟩ | ⟨before, m, after, hSplit, hx, hStep⟩)
    · exact ⟨[], n, order, rfl, hx, hStep⟩
    · exact ⟨n :: before, m, after, by rw [hSplit, List.cons_append], hx, hStep⟩

/-- The backward search looks for an arc that leads back in the order. -/
theorem firstBeyond_spec (order : List Nat) :
    ∀ undiscovered : List Nat, undiscovered.Nodup → order.Nodup →
      (∀ n, n ∈ undiscovered ↔ n ∈ order) →
      match arcs.firstBeyond undiscovered order with
      | some x => arcs.LeadsBack order x
      | none => ∀ x, ¬arcs.LeadsBack order x := by
  induction order with
  | nil => intro undiscovered _ _ _; simp [firstBeyond, LeadsBack]
  | cons n order ih =>
      intro undiscovered hU hOrder hMem
      obtain ⟨hn, hRest⟩ := List.nodup_cons.mp hOrder
      have hLeft : ∀ m, m ∈ undiscovered.erase n ↔ m ∈ order := by
        intro m
        rw [hU.mem_erase_iff, hMem, List.mem_cons]
        constructor
        · rintro ⟨hne, rfl | hm⟩
          · exact absurd rfl hne
          · exact hm
        · exact fun hm => ⟨fun hc => hn (hc ▸ hm), .inr hm⟩
      have hFresh : ∀ m, m ∈ ((arcs.predecessors n).filter (· ∈ undiscovered.erase n)).reverse ↔
          arcs.Step m n ∧ m ∈ order := by
        intro m
        simp [hLeft]
      have hFirst : arcs.stepBack undiscovered [n] = some (n, undiscovered.erase n,
          ((arcs.predecessors n).filter (· ∈ undiscovered.erase n)).reverse ++ []) := by
        rw [stepBack, if_pos ((hMem n).mpr (by simp))]
      rw [firstBeyond, hFirst]
      generalize ((arcs.predecessors n).filter (· ∈ undiscovered.erase n)).reverse = fresh at *
      cases fresh with
      | nil =>
          -- Nothing behind `n` is left: no arc leads back to it.
          have hNone : ∀ x, arcs.LeadsBack (n :: order) x ↔ arcs.LeadsBack order x := by
            intro x
            rw [leadsBack_cons, ← hFresh x]
            simp
          have hNext := ih (undiscovered.erase n) (hU.erase n) hRest hLeft
          simp only [List.append_nil, stepBack, hNone]
          exact hNext
      | cons x fresh =>
          obtain ⟨hStep, hx⟩ := (hFresh x).mp (by simp)
          have hSecond : arcs.stepBack (undiscovered.erase n) (x :: fresh ++ []) =
              some (x, (undiscovered.erase n).erase x,
                ((arcs.predecessors x).filter (· ∈ (undiscovered.erase n).erase x)).reverse ++
                  (fresh ++ [])) := by
            rw [List.cons_append, stepBack, if_pos ((hLeft x).mpr hx)]
          simp only [hSecond]
          exact leadsBack_cons.mpr (.inl ⟨hStep, hx⟩)

/-! ### What the check answers -/

/-- In a list without repetitions, what stands behind an element has a higher place. -/
theorem idxOf_lt_idxOf_of_mem {l before after : List Nat} {n m : Nat} (hNodup : l.Nodup)
    (hSplit : l = before ++ n :: after) (hm : m ∈ after) : l.idxOf n < l.idxOf m := by
  subst hSplit
  obtain ⟨-, hTail, hDisjoint⟩ := List.nodup_append.mp hNodup
  have hn : n ∉ before := fun hc => hDisjoint n hc n (by simp) rfl
  have hm' : m ∉ before := fun hc => hDisjoint m hc m (by simp [hm]) rfl
  have hne : n ≠ m := fun hc => (List.nodup_cons.mp hTail).1 (hc ▸ hm)
  rw [List.idxOf_append_of_notMem hn, List.idxOf_append_of_notMem hm', List.idxOf_cons_self,
    List.idxOf_cons_ne _ hne]
  omega

private theorem cycleNode?_spec {count : Nat} (hArcs : ∀ a b, arcs.Step a b → b < count) :
    match arcs.cycleNode? count with
    | some x => arcs.LeadsBack (arcs.finishOrder count) x
    | none => ∀ x, ¬arcs.LeadsBack (arcs.finishOrder count) x :=
  firstBeyond_spec _ _ List.nodup_range (nodup_finishOrder hArcs)
    fun m => by rw [List.mem_range, mem_finishOrder hArcs]

/-- **A node that the check reports leads to itself.** -/
theorem leads_of_cycleNode? {count n : Nat} (hArcs : ∀ a b, arcs.Step a b → b < count)
    (h : arcs.cycleNode? count = some n) : arcs.Leads n n := by
  have hSpec := cycleNode?_spec hArcs
  rw [h] at hSpec
  obtain ⟨before, m, after, hSplit, hn, hStep⟩ := hSpec
  have hNodup := nodup_finishOrder hArcs
  have hFinished : n ∈ arcs.finishOrder count := by simp [hSplit, hn]
  rcases (searching_finishOrder hArcs).settled n hFinished m hStep with hBefore | hLeads
  · -- `m` stands before `n`, so it was not left before it.
    obtain ⟨later, earlier, hSplit', hm⟩ := hBefore
    have hLower := idxOf_lt_idxOf_of_mem hNodup hSplit hn
    have hHigher := idxOf_lt_idxOf_of_mem hNodup hSplit' hm
    omega
  · exact .head hStep hLeads

/-- **Without a report, places in the order increase along arcs between different nodes.** -/
theorem idxOf_lt_of_cycleNode?_eq_none {count a b : Nat}
    (hArcs : ∀ a b, arcs.Step a b → b < count) (h : arcs.cycleNode? count = none)
    (hStep : arcs.Step a b) (ha : a < count) (hne : a ≠ b) :
    (arcs.finishOrder count).idxOf a < (arcs.finishOrder count).idxOf b := by
  have hSpec := cycleNode?_spec hArcs
  rw [h] at hSpec
  obtain ⟨before, after, hSplit⟩ :=
    List.append_of_mem ((mem_finishOrder hArcs b).mpr (hArcs a b hStep))
  have hAfter : a ∉ after := fun hc => hSpec a ⟨before, b, after, hSplit, hc, hStep⟩
  have hMem : a ∈ arcs.finishOrder count := (mem_finishOrder hArcs a).mpr ha
  rw [hSplit] at hMem
  have hBefore : a ∈ before := by
    rcases List.mem_append.mp hMem with hMem | hMem
    · exact hMem
    · rcases List.mem_cons.mp hMem with rfl | hMem
      · exact absurd rfl hne
      · exact absurd hMem hAfter
  obtain ⟨earlier, middle, rfl⟩ := List.append_of_mem hBefore
  have hSplit' : arcs.finishOrder count = earlier ++ a :: (middle ++ b :: after) := by
    rw [hSplit, List.append_assoc, List.cons_append]
  exact idxOf_lt_idxOf_of_mem (nodup_finishOrder hArcs) hSplit' (by simp)

/-- Places in the order are below the number of nodes. -/
theorem idxOf_finishOrder_lt {count n : Nat} (hArcs : ∀ a b, arcs.Step a b → b < count)
    (hn : n < count) : (arcs.finishOrder count).idxOf n < count := by
  have hLength : (arcs.finishOrder count).length = count := by
    have hPerm : (arcs.finishOrder count).Perm (List.range count) :=
      (List.perm_ext_iff_of_nodup (nodup_finishOrder hArcs) List.nodup_range).mpr fun m => by
        rw [mem_finishOrder hArcs, List.mem_range]
    simpa using hPerm.length_eq
  have hLess := List.idxOf_lt_length_of_mem ((mem_finishOrder hArcs n).mpr hn)
  omega

end Arcs

end Patchbay
