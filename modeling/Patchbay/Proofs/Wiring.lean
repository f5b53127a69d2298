import Mathlib.Data.List.Basic
import Mathlib.Logic.Relation
import Patchbay.Graph.Cycle

/-
What adding nodes and connecting them keeps.

A graph comes about by two operations only, and `Built` is the set of graphs that they
lead to.  On all of these the two orders of the wires hold the same wires, every wire
starts at an outlet that is there and has the wire's rate, and it ends at a node that
is there.  That is `WellWired`.  A wire is taken out by moving the last one into its
place, which reorders one list and not the other, so the orders agree as collections
and in no stronger sense.
-/

namespace Patchbay

/-- Taking a wire out loses that wire and nothing else. -/
theorem swapRemove_perm {ws : List Wire} {w : Wire} (hw : w ∈ ws) :
    (swapRemove ws w).Perm (ws.erase w) := by
  unfold swapRemove
  cases hLast : ws.getLast? with
  | none => simp [List.getLast?_eq_none_iff.mp hLast]
  | some last =>
      have hSplit := List.dropLast_append_getLast? last hLast
      simp only
      generalize ws.dropLast = front at hSplit
      subst hSplit
      by_cases hFront : w ∈ front
      · obtain ⟨before, after, rfl, hBefore⟩ := List.eq_append_cons_of_mem hFront
        rw [List.replace_append_right hBefore, List.replace_cons_self,
          List.erase_append_left _ hFront, List.erase_append_right _ hBefore,
          List.erase_cons_head]
        exact List.perm_middle.trans (List.perm_append_singleton _ _).symm
      · have hw : w = last := by simpa [hFront] using hw
        rw [List.replace_of_not_mem hFront, List.erase_append_right _ hFront, hw,
          List.erase_cons_head, List.append_nil]

namespace Graph

variable {κ : Type} {g : Graph κ}

/-! ### Changing one node -/

@[simp] theorem size_modifyNode (g : Graph κ) (i : Nat) (f : Node κ → Node κ) :
    (g.modifyNode i f).size = g.size := by
  simp [modifyNode, size]

@[simp] theorem wires_modifyNode (g : Graph κ) (i : Nat) (f : Node κ → Node κ) :
    (g.modifyNode i f).wires = g.wires := rfl

@[simp] theorem recent_modifyNode (g : Graph κ) (i : Nat) (f : Node κ → Node κ) :
    (g.modifyNode i f).recent = g.recent := rfl

@[simp] theorem endpoints_modifyNode (g : Graph κ) (i : Nat) (f : Node κ → Node κ) :
    (g.modifyNode i f).endpoints = g.endpoints := rfl

theorem getElem?_modifyNode (g : Graph κ) (i : Nat) (f : Node κ → Node κ) (j : Nat) :
    (g.modifyNode i f).nodes[j]? = if i = j then g.nodes[j]?.map f else g.nodes[j]? := by
  simp [modifyNode, Array.getElem?_modify]

/-- What holds of every node, also of one that is changed. -/
theorem forall_modifyNode {p : Node κ → Prop} (h : ∀ n ∈ g.nodes, p n) (i : Nat)
    {f : Node κ → Node κ} (hf : ∀ n, g.nodes[i]? = some n → p n → p (f n)) :
    ∀ n ∈ (g.modifyNode i f).nodes, p n := by
  intro m hm
  obtain ⟨j, hj⟩ := Array.mem_iff_getElem?.mp hm
  rw [getElem?_modifyNode] at hj
  split at hj
  · rename_i hij
    subst hij
    obtain ⟨n, hNode, rfl⟩ := Option.map_eq_some_iff.mp hj
    exact hf n hNode (h n (Array.mem_of_getElem? hNode))
  · exact h m (Array.mem_of_getElem? hj)

/-! ### Connecting -/

/-- What an accepted connection does: the sink may grow, then the wire is put in. -/
theorem connect_eq_ok {source outlet sink inlet : Nat} {rate : Rate} {g' : Graph κ}
    {entries : List Entry} (h : g.connect source outlet sink inlet = .ok (rate, g', entries)) :
    ∃ grown, g.outletRate source outlet = .ok rate ∧ g.reachInlet sink inlet = .ok grown ∧
      g' = grown.putWire ⟨nodeIndex source, outlet, nodeIndex sink, inlet, rate⟩ := by
  unfold connect at h
  cases hRate : g.outletRate source outlet with
  | error fault => simp [hRate, bind, Except.bind] at h
  | ok r =>
      cases hGrown : g.reachInlet sink inlet with
      | error fault => simp [hRate, hGrown, bind, Except.bind] at h
      | ok grown =>
          simp only [hRate, hGrown, bind, Except.bind, pure, Except.pure, Except.ok.injEq,
            Prod.mk.injEq] at h
          obtain ⟨rfl, rfl, -⟩ := h
          exact ⟨grown, rfl, rfl, rfl⟩

theorem outletRate_eq_ok {source outlet : Nat} {rate : Rate}
    (h : g.outletRate source outlet = .ok rate) :
    ∃ n, g.nodes[nodeIndex source]? = some n ∧ n.outlets[outlet]? = some rate := by
  unfold outletRate node? at h
  split at h
  · simp at h
  · rename_i n hNode
    split at h
    · simp at h
    · rename_i r hOutlet
      cases h
      exact ⟨n, hNode, hOutlet⟩

/-- Reaching for an inlet of a node that is there. -/
theorem reachInlet_of_node {sink inlet : Nat} {n : Node κ}
    (hNode : g.nodes[nodeIndex sink]? = some n) : g.reachInlet sink inlet =
      if inlet < n.inlets.size then .ok g
      else if n.object.isPlaceholder then
        if inlet + 1 < twoTo 64 then
          .ok (g.modifyNode (nodeIndex sink) fun n =>
            { n with inlets := resizeInlets n.inlets (inlet + 1) })
        else .error .overflow
      else .error (.noInlet n.kind sink inlet) := by
  simp only [reachInlet, inletsFor, hNode]
  split
  · rfl
  · split
    · split <;> rfl
    · rfl

theorem reachInlet_of_none {sink inlet : Nat} (hNode : g.nodes[nodeIndex sink]? = none) :
    g.reachInlet sink inlet = .error (.noNode sink) := by
  simp only [reachInlet, hNode]

/-- An inlet is reached if it is there, and then the graph stays, or at a placeholder that can have
so many, which gets a new row of inlets. -/
theorem reachInlet_cases {sink inlet : Nat} {grown : Graph κ}
    (h : g.reachInlet sink inlet = .ok grown) : ∃ n, g.nodes[nodeIndex sink]? = some n ∧
      (inlet < n.inlets.size ∧ grown = g ∨
        n.inlets.size ≤ inlet ∧ inlet + 1 < twoTo 64 ∧ n.object.isPlaceholder = true ∧
          grown = g.modifyNode (nodeIndex sink) fun n =>
            { n with inlets := resizeInlets n.inlets (inlet + 1) }) := by
  cases hNode : g.nodes[nodeIndex sink]? with
  | none => cases (reachInlet_of_none hNode).symm.trans h
  | some n =>
      rw [reachInlet_of_node hNode] at h
      refine ⟨n, rfl, ?_⟩
      split at h
      · rename_i hThere
        exact .inl ⟨hThere, (Except.ok.inj h).symm⟩
      · rename_i hMissing
        split at h
        · rename_i hNull
          split at h
          · rename_i hCounted
            exact .inr ⟨Nat.le_of_not_lt hMissing, hCounted, hNull, (Except.ok.inj h).symm⟩
          · cases h
        · cases h

theorem reachInlet_eq_ok {sink inlet : Nat} {grown : Graph κ}
    (h : g.reachInlet sink inlet = .ok grown) :
    (∃ n, g.nodes[nodeIndex sink]? = some n) ∧
      (grown = g ∨ grown = g.modifyNode (nodeIndex sink) fun n =>
        { n with inlets := resizeInlets n.inlets (inlet + 1) }) := by
  obtain ⟨n, hNode, ⟨-, hSame⟩ | ⟨-, -, -, hGrown⟩⟩ := reachInlet_cases h
  · exact ⟨⟨n, hNode⟩, .inl hSame⟩
  · exact ⟨⟨n, hNode⟩, .inr hGrown⟩

@[simp] theorem size_resizeInlets (slots : Array InletSlot) (size : Nat) :
    (resizeInlets slots size).size = size := by
  simp only [resizeInlets, Array.size_append, Array.size_extract, Array.size_replicate]
  omega

/-- What holds of every node, also of a placeholder with another row of inlets, holds when an inlet
is reached for. -/
theorem forall_reachInlet {p : Node κ → Prop} (h : ∀ n ∈ g.nodes, p n)
    (hGrow : ∀ n inlets, n.object.isPlaceholder = true → p n → p { n with inlets })
    {sink inlet : Nat} {grown : Graph κ} (hReach : g.reachInlet sink inlet = .ok grown) :
    ∀ n ∈ grown.nodes, p n := by
  obtain ⟨n, hNode, ⟨-, rfl⟩ | ⟨-, -, hNull, rfl⟩⟩ := reachInlet_cases hReach
  · exact h
  · refine forall_modifyNode h _ fun m hm hp => hGrow m _ ?_ hp
    obtain rfl := Option.some.inj (hNode.symm.trans hm)
    exact hNull

/-- Asking for the rate of an outlet that is there. -/
theorem isOk_outletRate (g : Graph κ) (source outlet : Nat) : (g.outletRate source outlet).isOk =
    g.nodes[nodeIndex source]?.any fun n => outlet < n.outlets.length := by
  unfold outletRate node?
  cases g.nodes[nodeIndex source]? with
  | none => rfl
  | some n =>
      by_cases hThere : outlet < n.outlets.length
      · simp [hThere, Except.isOk, Except.toBool]
      · simp [hThere, Except.isOk, Except.toBool]

theorem outletRate_ne_overflow (g : Graph κ) (source outlet : Nat) :
    g.outletRate source outlet ≠ .error .overflow := by
  unfold outletRate
  split
  · simp
  · split <;> simp

/-- Whether a node has an inlet, or is a placeholder and grows it. -/
def takes (g : Graph κ) (sink inlet : Nat) : Bool :=
  g.nodes[nodeIndex sink]?.any fun n => inlet < n.inlets.size || n.object.isPlaceholder

/-- An inlet is refused exactly if its node does not take it. -/
theorem takes_eq_false_iff {sink inlet : Nat} : g.takes sink inlet = false ↔
    ∃ fault, fault ≠ .overflow ∧ g.reachInlet sink inlet = .error fault := by
  rw [takes]
  cases hNode : g.nodes[nodeIndex sink]? with
  | none => simp [reachInlet_of_none hNode]
  | some n =>
      rw [reachInlet_of_node hNode]
      by_cases hThere : inlet < n.inlets.size
      · simp [hThere]
      · cases hNull : n.object.isPlaceholder with
        | false => simp [hThere, hNull]
        | true => by_cases hCounted : inlet + 1 < twoTo 64 <;> simp [hThere, hNull, hCounted]

/-- Reaching for an inlet overflows at a placeholder that lacks it and cannot count so far. -/
theorem reachInlet_eq_overflow_iff {sink inlet : Nat} :
    g.reachInlet sink inlet = .error .overflow ↔ ∃ n, g.nodes[nodeIndex sink]? = some n ∧
      n.inlets.size ≤ inlet ∧ n.object.isPlaceholder = true ∧ twoTo 64 ≤ inlet + 1 := by
  cases hNode : g.nodes[nodeIndex sink]? with
  | none => simp [reachInlet_of_none hNode]
  | some n =>
      rw [reachInlet_of_node hNode]
      by_cases hThere : inlet < n.inlets.size
      · simp [hThere, Nat.not_le_of_lt hThere]
      · cases hNull : n.object.isPlaceholder with
        | false => simp [hThere, hNull]
        | true =>
            by_cases hCounted : inlet + 1 < twoTo 64
            · simp [hThere, hCounted, Nat.not_le_of_lt hCounted]
            · simp [hThere, hNull, hCounted, Nat.le_of_not_lt hThere, Nat.le_of_not_lt hCounted]

/-- Connecting overflows exactly where reaching for the inlet does. -/
theorem overflows_iff {source outlet sink inlet : Nat} :
    g.overflows source outlet sink inlet = true ↔
      (g.outletRate source outlet).isOk = true ∧ g.reachInlet sink inlet = .error .overflow := by
  have hRateFault := g.outletRate_ne_overflow source outlet
  unfold overflows connect
  cases hRate : g.outletRate source outlet with
  | error fault =>
      rw [hRate] at hRateFault
      cases fault <;> simp_all [bind, Except.bind, Except.isOk, Except.toBool]
  | ok rate =>
      cases g.reachInlet sink inlet with
      | error fault => cases fault <;> simp [bind, Except.bind, Except.isOk, Except.toBool]
      | ok grown => simp [bind, Except.bind, pure, Except.pure]

/-- Connecting in place comes to what connecting does, and a refusal changes nothing. -/
theorem connectInPlace_eq (g : Graph κ) (source outlet sink inlet : Nat) :
    g.connectInPlace source outlet sink inlet =
      match g.connect source outlet sink inlet with
      | .error fault => (.error fault, g)
      | .ok (rate, g', _) => (.ok rate, g') := by
  unfold connect connectInPlace
  cases g.outletRate source outlet with
  | error fault => rfl
  | ok rate => cases g.reachInlet sink inlet <;> rfl

/-! ### Putting a wire in -/

@[simp] theorem nodes_putWire (g : Graph κ) (w : Wire) : (g.putWire w).nodes = g.nodes := by
  unfold putWire
  split <;> rfl

@[simp] theorem size_putWire (g : Graph κ) (w : Wire) : (g.putWire w).size = g.size := by
  simp [size]

@[simp] theorem endpoints_putWire (g : Graph κ) (w : Wire) :
    (g.putWire w).endpoints = g.endpoints := by
  unfold putWire
  split <;> rfl

theorem mem_recent_of_replaced? {w old : Wire} (h : g.replaced? w = some old) :
    old ∈ g.recent := by
  unfold replaced? at h
  split at h
  · exact List.mem_of_find?_eq_some h
  · exact List.mem_of_find?_eq_some h

/-- Both orders of the wires change by the same wires. -/
theorem recent_perm_putWire (hPerm : g.recent.Perm g.wires) (w : Wire) :
    (g.putWire w).recent.Perm (g.putWire w).wires := by
  unfold putWire
  split
  · rename_i old hOld
    have hMem : old ∈ g.wires := hPerm.mem_iff.mp (mem_recent_of_replaced? hOld)
    refine List.Perm.trans ?_ (List.perm_append_singleton _ _).symm
    exact ((hPerm.erase old).trans (swapRemove_perm hMem).symm).cons w
  · exact (hPerm.cons w).trans (List.perm_append_singleton _ _).symm

/-- There are no wires after putting one in but that one and those before. -/
theorem mem_wires_putWire (hPerm : g.recent.Perm g.wires) {w x : Wire}
    (hx : x ∈ (g.putWire w).wires) : x = w ∨ x ∈ g.wires := by
  unfold putWire at hx
  split at hx
  · rename_i old hOld
    have hMem : old ∈ g.wires := hPerm.mem_iff.mp (mem_recent_of_replaced? hOld)
    rcases List.mem_append.mp hx with hx | hx
    · exact .inr (List.mem_of_mem_erase ((swapRemove_perm hMem).mem_iff.mp hx))
    · exact .inl (List.mem_singleton.mp hx)
  · rcases List.mem_append.mp hx with hx | hx
    · exact .inr hx
    · exact .inl (List.mem_singleton.mp hx)

/-! ### Graphs that come about -/

/-- Graphs that adding nodes and connecting them lead to. -/
inductive Built : Graph κ → Prop
  | empty : Built .empty
  | addNode {g : Graph κ} (h : Built g) (n : Node κ) : Built (g.addNode n)
  | connect {g g' : Graph κ} {source outlet sink inlet : Nat} {rate : Rate}
      {entries : List Entry} (h : Built g)
      (hConnect : g.connect source outlet sink inlet = .ok (rate, g', entries)) : Built g'

/-- The rate of an outlet, if both the node and the outlet are there. -/
def outletRate? (g : Graph κ) (source outlet : Nat) : Option Rate :=
  g.nodes[source]?.bind fun n => n.outlets[outlet]?

theorem outletRate?_modifyNode (g : Graph κ) (i : Nat) {f : Node κ → Node κ}
    (hOutlets : ∀ n, (f n).outlets = n.outlets) (source outlet : Nat) :
    (g.modifyNode i f).outletRate? source outlet = g.outletRate? source outlet := by
  rw [outletRate?, outletRate?, getElem?_modifyNode]
  split
  · cases g.nodes[source]? with
    | none => rfl
    | some n => simp [hOutlets]
  · rfl

/-- What holds of the wires of every graph that comes about. -/
structure WellWired (g : Graph κ) : Prop where
  /-- Both orders hold the same wires. -/
  recentPerm : g.recent.Perm g.wires
  /-- A wire starts at an outlet of its own rate. -/
  sourceRate : ∀ w ∈ g.wires, g.outletRate? w.source w.outlet = some w.rate
  sinkInRange : ∀ w ∈ g.wires, w.sink < g.size

namespace WellWired

theorem sourceInRange (h : g.WellWired) {w : Wire} (hw : w ∈ g.wires) : w.source < g.size := by
  have hRate := h.sourceRate w hw
  unfold outletRate? at hRate
  cases hNode : g.nodes[w.source]? with
  | none => simp [hNode] at hRate
  | some n => exact (Array.getElem?_eq_some_iff.mp hNode).1

protected theorem empty : (Graph.empty : Graph κ).WellWired :=
  ⟨.nil, by simp [Graph.empty], by simp [Graph.empty]⟩

protected theorem addNode (h : g.WellWired) (n : Node κ) : (g.addNode n).WellWired := by
  refine ⟨h.recentPerm, fun w hw => ?_, fun w hw => ?_⟩
  · have hIn := h.sourceInRange hw
    have hSame : (g.addNode n).nodes[w.source]? = g.nodes[w.source]? := by
      rw [size] at hIn
      simp [addNode, Array.getElem?_push, Nat.ne_of_lt hIn]
    rw [outletRate?, hSame]
    exact h.sourceRate w hw
  · have hIn := h.sinkInRange w hw
    simp only [addNode, size, Array.size_push] at hIn ⊢
    omega

/-- Changing a node matters only if its outlets change. -/
protected theorem modifyNode (h : g.WellWired) (i : Nat) {f : Node κ → Node κ}
    (hOutlets : ∀ n, (f n).outlets = n.outlets) : (g.modifyNode i f).WellWired := by
  refine ⟨h.recentPerm, fun w hw => ?_, fun w hw => ?_⟩
  · rw [outletRate?_modifyNode g i hOutlets]
    exact h.sourceRate w hw
  · rw [size_modifyNode]
    exact h.sinkInRange w hw

protected theorem putWire (h : g.WellWired) {w : Wire}
    (hSource : g.outletRate? w.source w.outlet = some w.rate) (hSink : w.sink < g.size) :
    (g.putWire w).WellWired := by
  refine ⟨recent_perm_putWire h.recentPerm w, fun x hx => ?_, fun x hx => ?_⟩
  · rw [outletRate?, nodes_putWire]
    rcases mem_wires_putWire h.recentPerm hx with rfl | hx
    · exact hSource
    · exact h.sourceRate x hx
  · rw [size_putWire]
    rcases mem_wires_putWire h.recentPerm hx with rfl | hx
    · exact hSink
    · exact h.sinkInRange x hx

protected theorem connect (h : g.WellWired) {source outlet sink inlet : Nat} {rate : Rate}
    {g' : Graph κ} {entries : List Entry}
    (hConnect : g.connect source outlet sink inlet = .ok (rate, g', entries)) : g'.WellWired := by
  obtain ⟨grown, hRate, hReach, rfl⟩ := connect_eq_ok hConnect
  obtain ⟨n, hNode, hOutlet⟩ := outletRate_eq_ok hRate
  obtain ⟨⟨k, hSink⟩, hGrown⟩ := reachInlet_eq_ok hReach
  have hLt : nodeIndex sink < g.size := (Array.getElem?_eq_some_iff.mp hSink).1
  have hSource : g.outletRate? (nodeIndex source) outlet = some rate := by
    rw [outletRate?, hNode]
    exact hOutlet
  rcases hGrown with rfl | rfl
  · exact h.putWire hSource hLt
  · have hOutlets : ∀ n : Node κ,
        { n with inlets := resizeInlets n.inlets (inlet + 1) }.outlets = n.outlets :=
      fun _ => rfl
    refine (h.modifyNode (nodeIndex sink) hOutlets).putWire ?_ ?_
    · rw [outletRate?_modifyNode _ _ hOutlets]
      exact hSource
    · rw [size_modifyNode]
      exact hLt

end WellWired

/-- Every graph that comes about is well wired. -/
theorem Built.wellWired (h : g.Built) : g.WellWired := by
  induction h with
  | empty => exact .empty
  | addNode _ n ih => exact ih.addNode n
  | connect _ hConnect ih => exact ih.connect hConnect

end Graph

end Patchbay
