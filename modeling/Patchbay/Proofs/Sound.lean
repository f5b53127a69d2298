import Patchbay.Proofs.Cycle
import Patchbay.Proofs.Evolution

/-
What a graph is like once it has been set up.

`Graph.Sound` says what computing a frame relies on.  The wires fit their boxes and can
be ranked; what feeds a signal inlet comes along a signal wire; the endpoints are listed
once each, in the order of their numbers; and every box is of a built-in kind, of which
`dac~` is the one that adds to the output, is pulled from, and has no outlet.

A graph that is still being put together is `Draft`: its inlets are not fed yet.
Setting up turns a draft into a sound graph, and a sound graph stays sound for as long
as its boxes only evolve.
-/

namespace Patchbay

namespace Node

variable {κ : Type}

/-- What every box of a built-in kind is like. -/
structure Proper (n : Node κ) : Prop where
  builtin : n.object.isBuiltin = true
  output : n.object.isOutput = true ↔ n.kind = "dac~"
  endpoint : n.endpoint = true ↔ n.kind = "dac~"
  outlets : n.kind = "dac~" → n.outlets = []

theorem Proper.evolves {n n' : Node κ} (h : n.Proper) (hEvolves : n.Evolves n') : n'.Proper := by
  obtain ⟨hBuiltin, hOutput⟩ := hEvolves.object h.builtin
  refine ⟨hBuiltin, ?_, ?_, ?_⟩
  · rw [hOutput, hEvolves.kind]
    exact h.output
  · rw [hEvolves.endpoint, hEvolves.kind]
    exact h.endpoint
  · rw [hEvolves.kind, hEvolves.outlets]
    exact h.outlets

/-- What a box is like before the graph is set up. -/
structure Fresh (n : Node κ) : Prop extends Proper n where
  unfed : ∀ slot ∈ n.inlets, slot.feed = .unresolved
  unstamped : n.stamp = 0

end Node

namespace Graph

variable {κ : Type} {g g' : Graph κ}

/-- The endpoints are listed once each, in the order of their numbers. -/
structure EndpointsListed (g : Graph κ) : Prop where
  ascending : g.endpoints.Pairwise (· < ·)
  mem : ∀ i : Nat, i ∈ g.endpoints ↔ ∃ n, g.nodes[i]? = some n ∧ n.endpoint = true

/-- What a graph is like while its patch is read. -/
structure Draft (g : Graph κ) : Prop where
  wired : g.WellWired
  listed : g.EndpointsListed
  boxes : ∀ n ∈ g.nodes, n.Fresh

/-- What computing a frame relies on. -/
structure Sound (g : Graph κ) : Prop where
  wired : g.WellWired
  ranked : ∃ rank, g.Ranked rank
  listed : g.EndpointsListed
  boxes : ∀ n ∈ g.nodes, n.Proper
  /-- What feeds an inlet comes along a signal wire. -/
  fed : ∀ (i : Nat) (n : Node κ), g.nodes[i]? = some n → ∀ slot ∈ n.inlets,
    ∀ source outlet, slot.feed = .aliased source outlet → g.SignalWire source i

/-! ### Graphs with the same frame -/

/-- The rate of an outlet is a matter of the outlets of its box. -/
theorem outletRate?_eq (g : Graph κ) (source outlet : Nat) :
    g.outletRate? source outlet = (g.nodes[source]?.map Node.outlets).bind (·[outlet]?) := by
  rw [outletRate?]
  cases g.nodes[source]? with
  | none => rfl
  | some n => rfl

/-- Graphs with the same wires, whose boxes have the same outlets, are wired alike. -/
theorem WellWired.congr (h : g.WellWired) (hWires : g'.wires = g.wires)
    (hRecent : g'.recent = g.recent) (hSize : g'.size = g.size)
    (hOutlets : ∀ i : Nat, g'.nodes[i]?.map Node.outlets = g.nodes[i]?.map Node.outlets) :
    g'.WellWired := by
  have hRate : ∀ source outlet, g'.outletRate? source outlet = g.outletRate? source outlet := by
    intro source outlet
    rw [outletRate?_eq, outletRate?_eq, hOutlets]
  refine ⟨?_, fun w hw => ?_, fun w hw => ?_⟩
  · rw [hWires, hRecent]
    exact h.recentPerm
  · rw [hWires] at hw
    rw [hRate]
    exact h.sourceRate w hw
  · rw [hWires] at hw
    rw [hSize]
    exact h.sinkInRange w hw

theorem signalWire_congr (hWires : g'.wires = g.wires) {source sink : Nat} :
    g'.SignalWire source sink ↔ g.SignalWire source sink := by
  rw [SignalWire, SignalWire, hWires]

theorem Ranked.congr {rank : Nat → Nat} (h : g.Ranked rank) (hWires : g'.wires = g.wires)
    (hSize : g'.size = g.size) : g'.Ranked rank := by
  refine ⟨fun source sink hWire => h.1 source sink ((signalWire_congr hWires).mp hWire), ?_⟩
  rw [hSize]
  exact h.2

theorem EndpointsListed.congr (h : g.EndpointsListed) (hEndpoints : g'.endpoints = g.endpoints)
    (hEndpoint : ∀ i : Nat, g'.nodes[i]?.map Node.endpoint = g.nodes[i]?.map Node.endpoint) :
    g'.EndpointsListed := by
  have hSame : ∀ (g : Graph κ) (i : Nat), (∃ n, g.nodes[i]? = some n ∧ n.endpoint = true) ↔
      g.nodes[i]?.map Node.endpoint = some true := by
    intro g i
    cases g.nodes[i]? with
    | none => simp
    | some n => simp
  refine ⟨?_, fun i => ?_⟩
  · rw [hEndpoints]
    exact h.ascending
  · rw [hEndpoints, hSame, hEndpoint, ← hSame]
    exact h.mem i

/-- A property of boxes that their counterparts have, too. -/
theorem Evolves.map_eq (h : g.Evolves g') {β : Type} {f : Node κ → β}
    (hf : ∀ n n' : Node κ, n.Evolves n' → f n' = f n) (i : Nat) :
    g'.nodes[i]?.map f = g.nodes[i]?.map f := by
  cases hAfter : g'.nodes[i]? with
  | some n' =>
      obtain ⟨n, hBefore, hNode⟩ := h.nodeBefore hAfter
      rw [hBefore, Option.map_some, Option.map_some, hf n n' hNode]
  | none =>
      have hOut := Array.getElem?_eq_none_iff.mp hAfter
      have hSize : g'.nodes.size = g.nodes.size := h.size
      rw [Array.getElem?_eq_none (by omega)]

/-- Boxes keep their outlets. -/
theorem Evolves.outletRate? (h : g.Evolves g') (source outlet : Nat) :
    g'.outletRate? source outlet = g.outletRate? source outlet := by
  rw [outletRate?_eq, outletRate?_eq, h.map_eq fun _ _ hNode => hNode.outlets]

/-- An inlet that points at an outlet pointed at it before. -/
theorem Evolves.aliasedBefore (h : g.Evolves g') {i : Nat} {n' : Node κ} {slot' : InletSlot}
    {source outlet : Nat} (hNode' : g'.nodes[i]? = some n') (hSlot' : slot' ∈ n'.inlets)
    (hFeed : slot'.feed = .aliased source outlet) :
    ∃ n slot, g.nodes[i]? = some n ∧ slot ∈ n.inlets ∧ slot.feed = .aliased source outlet := by
  obtain ⟨n, hNode, hEvolves⟩ := h.nodeBefore hNode'
  obtain ⟨k, hk⟩ := Array.mem_iff_getElem?.mp hSlot'
  have hLt : k < n.inlets.size := hEvolves.inletCount ▸ (Array.getElem?_eq_some_iff.mp hk).1
  have hSlot : n.inlets[k]? = some n.inlets[k] := Array.getElem?_eq_getElem hLt
  exact ⟨n, n.inlets[k], hNode, Array.getElem_mem hLt,
    (hEvolves.inlets k _ slot' hSlot hk).aliased hFeed⟩

/-- A sound graph stays sound while its boxes evolve. -/
theorem Sound.evolves (h : g.Sound) (hEvolves : g.Evolves g') : g'.Sound := by
  obtain ⟨rank, hRank⟩ := h.ranked
  refine ⟨?_, ⟨rank, hRank.congr hEvolves.wires hEvolves.size⟩, ?_, ?_, ?_⟩
  · exact h.wired.congr hEvolves.wires hEvolves.recent hEvolves.size
      (hEvolves.map_eq fun _ _ hNode => hNode.outlets)
  · exact h.listed.congr hEvolves.endpoints (hEvolves.map_eq fun _ _ hNode => hNode.endpoint)
  · intro n' hn'
    obtain ⟨i, hi⟩ := Array.mem_iff_getElem?.mp hn'
    obtain ⟨n, hBefore, hNode⟩ := hEvolves.nodeBefore hi
    exact (h.boxes n (Array.mem_of_getElem? hBefore)).evolves hNode
  · intro i n' hn' slot' hSlot' source outlet hFeed
    obtain ⟨n, slot, hBefore, hSlot, hOld⟩ := hEvolves.aliasedBefore hn' hSlot' hFeed
    exact (signalWire_congr hEvolves.wires).mpr (h.fed i n hBefore slot hSlot source outlet hOld)

/-! ### Reading a patch -/

theorem mem_nodes_modifyNode {i : Nat} {f : Node κ → Node κ} {n : Node κ}
    (h : n ∈ (g.modifyNode i f).nodes) : n ∈ g.nodes ∨ ∃ m ∈ g.nodes, n = f m := by
  obtain ⟨j, hj⟩ := Array.mem_iff_getElem?.mp h
  rw [getElem?_modifyNode] at hj
  split at hj
  · obtain ⟨m, hm, rfl⟩ := Option.map_eq_some_iff.mp hj
    exact .inr ⟨m, Array.mem_of_getElem? hm, rfl⟩
  · exact .inl (Array.mem_of_getElem? hj)

protected theorem EndpointsListed.addNode (h : g.EndpointsListed) (n : Node κ) :
    (g.addNode n).EndpointsListed := by
  have hLess : ∀ i ∈ g.endpoints, i < g.size := by
    intro i hi
    obtain ⟨m, hm, -⟩ := (h.mem i).mp hi
    exact (Array.getElem?_eq_some_iff.mp hm).1
  have hNodes : ∀ i : Nat, (g.addNode n).nodes[i]? = if i = g.size then some n else g.nodes[i]? :=
    fun i => Array.getElem?_push
  have hLast : ∀ i : Nat, (∃ m, (g.addNode n).nodes[i]? = some m ∧ m.endpoint = true) ↔
      i ∈ g.endpoints ∨ i = g.size ∧ n.endpoint = true := by
    intro i
    rw [hNodes, h.mem]
    by_cases hi : i = g.size
    · subst hi
      have hNone : g.nodes[g.size]? = none := Array.getElem?_eq_none (Nat.le_refl _)
      simp [hNone]
    · simp [hi]
  refine ⟨?_, fun i => ?_⟩
  · simp only [addNode]
    split
    · refine List.pairwise_append.mpr ⟨h.ascending, List.pairwise_singleton _ _, ?_⟩
      intro i hi j hj
      rw [List.mem_singleton.mp hj]
      exact hLess i hi
    · exact h.ascending
  · rw [hLast]
    simp only [addNode]
    split
    · rename_i hEndpoint
      simp [hEndpoint]
    · rename_i hEndpoint
      simp [hEndpoint]

/-- A box whose inlets point at what feeds them. -/
def resolvedNode (g : Graph κ) (i : Nat) (n : Node κ) : Node κ :=
  { n with inlets := n.inlets.mapIdx (g.resolveInlet i) }

theorem setup_eq_ok {resolved : Graph κ} (h : g.setup = .ok resolved) :
    g.signalCycle? = none ∧ resolved = { g with nodes := g.nodes.mapIdx g.resolvedNode } := by
  unfold setup at h
  split at h
  · simp at h
  · rename_i hNone
    exact ⟨hNone, (Except.ok.inj h).symm⟩

/-- Signal wires that only lead up form no circle. -/
theorem signalCycle?_eq_none_of_rank (h : g.WellWired) (rank : Nat → Nat)
    (hUp : ∀ w ∈ g.wires, w.rate = .signal → rank w.source < rank w.sink) :
    g.signalCycle? = none := by
  cases hCycle : g.signalCycle? with
  | none => rfl
  | some n =>
      have hLess : ∀ m, Relation.TransGen g.SignalWire n m → rank n < rank m := by
        intro m hLeads
        induction hLeads with
        | single hWire =>
            obtain ⟨w, hw, hRate, rfl, rfl⟩ := hWire
            exact hUp w hw hRate
        | tail _ hWire ih =>
            obtain ⟨w, hw, hRate, rfl, rfl⟩ := hWire
            exact Nat.lt_trans ih (hUp w hw hRate)
      exact absurd (hLess n (onSignalCycle_of_signalCycle? h hCycle)) (Nat.lt_irrefl _)

namespace Draft

protected theorem empty : (Graph.empty : Graph κ).Draft := by
  refine ⟨.empty, ⟨.nil, fun i => ?_⟩, fun n hn => ?_⟩
  · simp [Graph.empty]
  · simp [Graph.empty] at hn

protected theorem addNode (h : g.Draft) {n : Node κ} (hFresh : n.Fresh) :
    (g.addNode n).Draft := by
  refine ⟨h.wired.addNode n, h.listed.addNode n, fun m hm => ?_⟩
  rcases Array.mem_push.mp hm with hm | rfl
  · exact h.boxes m hm
  · exact hFresh

/-- A placeholder that grows stays unfed. -/
theorem fresh_resizeInlets {n : Node κ} (h : n.Fresh) (count : Nat) :
    { n with inlets := resizeInlets n.inlets count }.Fresh := by
  refine ⟨⟨h.builtin, h.output, h.endpoint, h.outlets⟩, fun slot hSlot => ?_, h.unstamped⟩
  rcases Array.mem_append.mp hSlot with hOld | hNew
  · obtain ⟨k, hk, rfl⟩ := Array.mem_extract_iff_getElem.mp hOld
    exact h.unfed _ (Array.getElem_mem _)
  · rw [(Array.mem_replicate.mp hNew).2]
    rfl

protected theorem connect (h : g.Draft) {source outlet sink inlet : Nat} {rate : Rate}
    {entries : List Entry}
    (hConnect : g.connect source outlet sink inlet = .ok (rate, g', entries)) : g'.Draft := by
  have hWired := h.wired.connect hConnect
  obtain ⟨grown, -, hReach, rfl⟩ := connect_eq_ok hConnect
  obtain ⟨-, hGrown⟩ := reachInlet_eq_ok hReach
  have hDraft : grown.EndpointsListed ∧ ∀ n ∈ grown.nodes, n.Fresh := by
    rcases hGrown with rfl | rfl
    · exact ⟨h.listed, h.boxes⟩
    · refine ⟨h.listed.congr rfl fun i => ?_, fun n hn => ?_⟩
      · rw [getElem?_modifyNode]
        split
        · rw [Option.map_map]
          rfl
        · rfl
      · rcases mem_nodes_modifyNode hn with hn | ⟨m, hm, rfl⟩
        · exact h.boxes n hn
        · exact fresh_resizeInlets (h.boxes m hm) _
  refine ⟨hWired, hDraft.1.congr (endpoints_putWire grown _) fun i => ?_, fun n hn => ?_⟩
  · rw [nodes_putWire]
  · rw [nodes_putWire] at hn
    exact hDraft.2 n hn

/-- The wire that an inlet points along once it has been resolved. -/
theorem wire_of_resolveInlet (h : g.Draft) {node inlet : Nat} {slot : InletSlot}
    (hUnfed : slot.feed = .unresolved) {source outlet : Nat}
    (hFeed : (g.resolveInlet node inlet slot).feed = .aliased source outlet) :
    ∃ w ∈ g.wires, w.rate = .signal ∧ w.source = source ∧ w.outlet = outlet ∧ w.sink = node := by
  unfold resolveInlet at hFeed
  split at hFeed
  · simp [hUnfed] at hFeed
  · split at hFeed
    · rename_i s o hSource
      obtain ⟨w, hWire, hEq⟩ := Option.map_eq_some_iff.mp hSource
      simp only [Feed.aliased.injEq] at hFeed
      obtain ⟨rfl, rfl⟩ := hFeed
      obtain ⟨rfl, rfl⟩ := Prod.mk.inj hEq
      have hFeeds : w.feeds node inlet = true := by simpa using List.find?_some hWire
      simp only [Wire.feeds, Bool.and_eq_true, beq_iff_eq] at hFeeds
      have hMem : w ∈ g.wires := h.wired.recentPerm.mem_iff.mp (List.mem_of_find?_eq_some hWire)
      exact ⟨w, hMem, hFeeds.1.1, rfl, rfl, hFeeds.1.2⟩
    · simp at hFeed

/-- What an inlet is fed by once it has been resolved. -/
theorem signalWire_of_resolveInlet (h : g.Draft) {node inlet : Nat} {slot : InletSlot}
    (hUnfed : slot.feed = .unresolved) {source outlet : Nat}
    (hFeed : (g.resolveInlet node inlet slot).feed = .aliased source outlet) :
    g.SignalWire source node := by
  obtain ⟨w, hw, hRate, hSource, -, hSink⟩ := h.wire_of_resolveInlet hUnfed hFeed
  exact ⟨w, hw, hRate, hSource, hSink⟩

/-- Setting up makes a draft sound, and computes nothing yet. -/
theorem setup (h : g.Draft) {resolved : Graph κ} (hSetup : g.setup = .ok resolved) :
    resolved.Sound ∧ ∀ n ∈ resolved.nodes, n.stamp = 0 := by
  obtain ⟨hNone, rfl⟩ := setup_eq_ok hSetup
  obtain ⟨rank, hRank⟩ := exists_ranked h.wired hNone
  have hSize : (g.nodes.mapIdx g.resolvedNode).size = g.nodes.size := Array.size_mapIdx
  have hNode : ∀ n' ∈ g.nodes.mapIdx g.resolvedNode, n'.Proper ∧ n'.stamp = 0 := by
    intro n' hn'
    obtain ⟨i, hi, rfl⟩ := Array.mem_mapIdx.mp hn'
    have hFresh := h.boxes g.nodes[i] (Array.getElem_mem hi)
    exact ⟨⟨hFresh.builtin, hFresh.output, hFresh.endpoint, hFresh.outlets⟩, hFresh.unstamped⟩
  refine ⟨⟨?_, ⟨rank, hRank.congr rfl hSize⟩, ?_, fun n hn => (hNode n hn).1, ?_⟩,
    fun n hn => (hNode n hn).2⟩
  · refine h.wired.congr rfl rfl hSize fun i => ?_
    simp only [Array.getElem?_mapIdx, Option.map_map]
    rfl
  · refine h.listed.congr rfl fun i => ?_
    simp only [Array.getElem?_mapIdx, Option.map_map]
    rfl
  · intro i n' hn' slot' hSlot' source outlet hFeed
    simp only [Array.getElem?_mapIdx] at hn'
    obtain ⟨n, hn, rfl⟩ := Option.map_eq_some_iff.mp hn'
    obtain ⟨k, hk, rfl⟩ := Array.mem_mapIdx.mp hSlot'
    have hUnfed := (h.boxes n (Array.mem_of_getElem? hn)).unfed n.inlets[k] (Array.getElem_mem hk)
    exact (signalWire_congr rfl).mpr (h.signalWire_of_resolveInlet hUnfed hFeed)

end Draft

end Graph

end Patchbay
