import Patchbay.Proofs.Alignment
import Patchbay.Proofs.Frame

/-
How often a frame computes a node.

Stamps keep a frame from computing a source again that several nodes read.  They are looked
at when a source is pulled, and only then: an endpoint is computed for itself whatever its
stamp says.  So a frame computes every endpoint once for itself, and besides that every
node once that some endpoint needs, unless it has been computed before it is needed.  An
endpoint that feeds an endpoint made before it is thus computed twice.  With the built-in
kinds this cannot happen, since nothing comes out of an output; a registry may hold other
endpoints.

`framePulls` lists what a frame computes while it does so, and the counting is an induction
along the endpoints: what has been computed is closed under sources, and what an endpoint
adds to it is what leads to it and has not been computed.
-/

namespace Patchbay

namespace Graph

variable {κ : Type} {g : Graph κ}

/-- Signal wires lead from the node to an endpoint, and if it is an endpoint itself, to one that was
made before it. -/
def PulledFor (g : Graph κ) (n : Nat) : Prop :=
  ∃ p ∈ g.endpoints, Relation.TransGen g.SignalWire n p ∧ (n ∈ g.endpoints → p < n)

/-- What leads to something that is on a closed list is on it. -/
theorem Closed.mem_of_leads {done : List Nat} (h : g.Closed done) {n m : Nat}
    (hLeads : Relation.TransGen g.SignalWire n m) (hm : m ∈ done) : n ∈ done := by
  induction hLeads using Relation.TransGen.head_induction_on with
  | single hWire => exact h _ hm _ hWire
  | head hWire _ ih => exact h _ ih _ hWire

/-- A node whose sources are all on a closed list may join it. -/
theorem Closed.concat {done : List Nat} (h : g.Closed done) {n : Nat}
    (hSources : ∀ source, g.SignalWire source n → source ∈ done) : g.Closed (done ++ [n]) := by
  intro m hm source hWire
  rcases List.mem_append.mp hm with hm | hm
  · exact List.mem_append_left _ (h m hm source hWire)
  · rw [List.mem_singleton.mp hm] at hWire
    exact List.mem_append_left _ (hSources source hWire)

end Graph

namespace Engine

variable {κ : Type} [CustomKind κ] {e e' : Engine κ}

/-! ### Listing what is computed -/

/-- What is listed is what is computed, if that holds of each part. -/
theorem foldl_eq_compute {α : Type} (f : Engine κ → α → Engine κ)
    (tell : Engine κ → α → List Nat) (h : ∀ e a, f e a = e.compute (tell e a)) (l : List α) :
    ∀ e, l.foldl f e = e.compute (listAlong f tell l e) := by
  induction l with
  | nil => exact fun e => rfl
  | cons a l ih =>
      intro e
      rw [List.foldl_cons, ih, listAlong, compute, compute, List.foldl_append, h]
      rfl

/-- A pull computes the nodes that it lists and does nothing else. -/
theorem tickWithin_eq_compute (bound : Nat) : ∀ (e : Engine κ) (node : Nat),
    tickWithin bound e node = e.compute (pulled bound e node) := by
  induction bound with
  | zero => exact fun e node => rfl
  | succ bound ih =>
      intro e node
      rw [tickWithin, pulled, compute_snoc, foldl_eq_compute]
      intro e source
      split
      · exact ih e source
      · rfl

/-- The nodes that a frame computes, in order, once the actions that are due have run. -/
def framePulls (e : Engine κ) : List Nat :=
  listAlong tick (fun e node => pulled e.graph.size e node) e.afterDue.graph.endpoints
    e.afterDue.silenced

/-- A frame computes the nodes that it lists and does nothing else after its actions. -/
theorem render_eq_pulls (e : Engine κ) :
    e.render = { e.afterDue.silenced.compute e.framePulls with rendering := false } := by
  rw [render_eq_afterDue, foldl_eq_compute tick (fun e node => pulled e.graph.size e node)
    fun e node => tickWithin_eq_compute _ e node]
  rfl

/-! ### Counting -/

omit [CustomKind κ] in
/-- What is pulled for a node is what leads to it and has not been computed. -/
theorem Pulled.mem_iff {p : Nat} {done more : List Nat} (h : Pulled e p done more)
    (hClosed : e.graph.Closed (done ++ more))
    (hSources : ∀ source, e.graph.SignalWire source p → source ∈ done ++ more) (n : Nat) :
    n ∈ more ↔ n ∉ done ∧ Relation.TransGen e.graph.SignalWire n p := by
  refine ⟨fun hn => ⟨h.continues.disjoint n hn, h.leads n hn⟩, ?_⟩
  rintro ⟨hNew, hLeads⟩
  obtain ⟨next, hTo, hWire⟩ := Relation.TransGen.tail'_iff.mp hLeads
  have hNext := hSources next hWire
  have hOn : n ∈ done ++ more := by
    rcases Relation.reflTransGen_iff_eq_or_transGen.mp hTo with rfl | hTo
    · exact hNext
    · exact hClosed.mem_of_leads hTo hNext
  exact (List.mem_append.mp hOn).resolve_left hNew

/-- Pulling some endpoints computes each of them for itself, and what leads to them. -/
theorem perm_listAlong_tick (hWired : e.graph.WellWired) (hStale : StampsAre (· < e.frame) e)
    {rank : Nat → Nat} (hRank : e.graph.Ranked rank) (left : List Nat)
    (hAscending : left.Pairwise (· < ·)) (hRange : ∀ p ∈ left, p < e.graph.size) :
    ∀ done, e.graph.Closed done → ∃ sources, sources.Nodup ∧
      (∀ n, n ∈ sources ↔ n ∉ done ∧ ∃ p ∈ left, Relation.TransGen e.graph.SignalWire n p ∧
        (n ∈ left → p < n)) ∧
      (listAlong tick (fun e node => pulled e.graph.size e node) left (e.compute done)).Perm
        (left ++ sources) := by
  induction left with
  | nil => exact fun done _ => ⟨[], List.nodup_nil, by simp, .nil⟩
  | cons p left ih =>
      intro done hClosed
      obtain ⟨hFirst, hAscending⟩ := List.pairwise_cons.mp hAscending
      have hSize : (e.compute done).graph.size = e.graph.size := (steady_compute e done).graph.size
      obtain ⟨more, hPulls, hPulled, hSources⟩ := pullsAs hWired hStale hRank e.graph.size done p
        (hRank.2 p (hRange p List.mem_cons_self)) hClosed
      have hDone := hPulled.continues.closed hClosed
      obtain ⟨sources, hNodup, hMem, hPerm⟩ := ih hAscending
        (fun q hq => hRange q (List.mem_cons_of_mem _ hq)) (done ++ more ++ [p])
        (hDone.concat hSources)
      have hMore := hPulled.mem_iff hDone hSources
      have hSelf : ¬Relation.TransGen e.graph.SignalWire p p := hRank.not_onSignalCycle p
      refine ⟨more ++ sources, ?_, fun n => ?_, ?_⟩
      · refine hPulled.continues.nodup.append hNodup fun n hn hLater => ?_
        exact ((hMem n).mp hLater).1 (by simp [hn])
      · rw [List.mem_append, hMem, hMore]
        constructor
        · rintro (⟨hNew, hLeads⟩ | ⟨hNew, q, hq, hLeads, hBefore⟩)
          · refine ⟨hNew, p, List.mem_cons_self, hLeads, fun hn => ?_⟩
            rcases List.mem_cons.mp hn with rfl | hn
            · exact absurd hLeads hSelf
            · exact hFirst n hn
          · have hOther : n ≠ p := by
              rintro rfl
              simp at hNew
            refine ⟨fun hn => hNew (by simp [hn]), q, List.mem_cons_of_mem _ hq, hLeads, fun hn => ?_⟩
            exact hBefore ((List.mem_cons.mp hn).resolve_left hOther)
        · rintro ⟨hNew, q, hq, hLeads, hBefore⟩
          by_cases hHere : Relation.TransGen e.graph.SignalWire n p
          · exact .inl ⟨hNew, hHere⟩
          · rcases List.mem_cons.mp hq with hSame | hLater
            · exact absurd (hSame ▸ hLeads) hHere
            · have hOther : n ≠ p := by
                intro hSame
                subst hSame
                exact Nat.lt_asymm (hFirst q hLater) (hBefore List.mem_cons_self)
              refine .inr ⟨?_, q, hLater, hLeads, fun hn => hBefore (List.mem_cons_of_mem _ hn)⟩
              simp [hNew, hMore, hHere, hOther]
      · have hTick : (e.compute done).tick p = e.compute (done ++ more ++ [p]) := by
          rw [tick, hSize, tickWithin_eq _ hPulls.ends]
        rw [listAlong, hSize, hPulls.listed, hTick, List.append_assoc]
        have hFront : (more ++ p :: (left ++ sources)).Perm (p :: (more ++ (left ++ sources))) :=
          List.perm_middle
        have hSwap : (more ++ (left ++ sources)).Perm (left ++ (more ++ sources)) := by
          rw [← List.append_assoc, ← List.append_assoc]
          exact List.perm_append_comm.append_right sources
        exact ((hPerm.append_left [p]).append_left more).trans (hFront.trans (hSwap.cons p))

/-! ### Engines whose frames can be counted -/

/-- What pulling a frame relies on, whatever the kinds are. -/
structure Pullable (e : Engine κ) : Prop where
  wired : e.graph.WellWired
  ranked : ∃ rank, e.graph.Ranked rank
  ascending : e.graph.endpoints.Pairwise (· < ·)
  inRange : ∀ p ∈ e.graph.endpoints, p < e.graph.size
  /-- No node is stamped later than the frame. -/
  stamps : StampsAre (· ≤ e.frame) e

omit [CustomKind κ] in
theorem Pullable.steady (h : e.Pullable) (hSteady : e.Steady e')
    (hStamps : StampsAre (· ≤ e'.frame) e') : e'.Pullable := by
  obtain ⟨rank, hRank⟩ := h.ranked
  have hGraph := hSteady.graph
  refine ⟨?_, ⟨rank, hRank.congr hGraph.wires hGraph.size⟩, ?_, ?_, hStamps⟩
  · exact h.wired.congr hGraph.wires hGraph.recent hGraph.size
      (hGraph.map_eq fun _ _ hNode => hNode.outlets)
  · rw [hGraph.endpoints]
    exact h.ascending
  · rw [hGraph.endpoints, hGraph.size]
    exact h.inRange

theorem Pullable.change (h : e.Pullable) (hChange : Change e e') : e'.Pullable :=
  h.steady hChange.steady (hChange.stampsAre_le h.stamps)

/-- Reading a patch computes nothing. -/
theorem unstamped_build (hGraph : e.graph = .empty) (statements : List (Except Error Statement)) :
    StampsAre (· = 0) (e.build statements) := by
  refine build_keeps (applyResult_keeps ?_ ?_ fun _ _ _ h => h) statements fun n hn => ?_
  · intro e kind position args h n hn
    rcases Array.mem_push.mp hn with hn | rfl
    · exact h n hn
    · rfl
  · intro e source outlet sink inlet rate graph entries hConnect h n hn
    obtain ⟨grown, -, hReach, rfl⟩ := Graph.connect_eq_ok hConnect
    replace hn : n ∈ (grown.putWire _).nodes := hn
    rw [Graph.nodes_putWire] at hn
    exact Graph.forall_reachInlet h (fun _ _ _ hm => hm) hReach n hn
  · simp [hGraph, Graph.empty] at hn

omit [CustomKind κ] in
/-- Resolving the inlets of a graph shows in nothing that a pull relies on. -/
theorem pullable_resolved {b : Engine κ} {resolved : Graph κ} (hWired : b.graph.WellWired)
    (hAscending : b.graph.endpoints.Pairwise (· < ·))
    (hRange : ∀ p ∈ b.graph.endpoints, p < b.graph.size) (hUnstamped : StampsAre (· = 0) b)
    (hSetup : b.graph.setup = .ok resolved) : ({ b with graph := resolved } : Engine κ).Pullable := by
  obtain ⟨hNone, rfl⟩ := Graph.setup_eq_ok hSetup
  obtain ⟨rank, hRank⟩ := Graph.exists_ranked hWired hNone
  have hSize : (b.graph.nodes.mapIdx b.graph.resolvedNode).size = b.graph.nodes.size :=
    Array.size_mapIdx
  refine ⟨?_, ⟨rank, hRank.congr rfl hSize⟩, hAscending, ?_, ?_⟩
  · refine hWired.congr rfl rfl hSize fun i => ?_
    simp only [Array.getElem?_mapIdx, Option.map_map]
    rfl
  · intro p hp
    show p < (b.graph.nodes.mapIdx b.graph.resolvedNode).size
    rw [hSize]
    exact hRange p hp
  · intro n hn
    obtain ⟨i, hi, rfl⟩ := Array.mem_mapIdx.mp hn
    show b.graph.nodes[i].stamp ≤ b.frame
    rw [hUnstamped _ (Array.getElem_mem hi)]
    exact Nat.zero_le _

/-- Frames can be counted once a patch has been loaded. -/
theorem pullable_load {settings : Settings} {registry : Registry κ}
    {before : List (Happening κ)} {source : String}
    (hBefore : Run (.new settings registry) before e) (hLoad : e.load source = (.ok (), e')) :
    e'.Pullable := by
  obtain ⟨hGraph, -, -, hRegistry⟩ := empty_of_run hBefore
  have hBuilt := built_build hGraph (Patch.read source)
  have hUnstamped := unstamped_build hGraph (Patch.read source)
  have hAligned : Aligned registry (legible (Patch.read source))
      (e.build (Patch.read source)).graph :=
    (assembled_reading hGraph hRegistry (Patch.read source)).aligned
  have hRange : ∀ p ∈ (e.build (Patch.read source)).graph.endpoints,
      p < (e.build (Patch.read source)).graph.size := by
    intro p hp
    obtain ⟨n, hNode, -⟩ := hAligned.mem_endpoints.mp hp
    exact (Array.getElem?_eq_some_iff.mp hNode).1
  obtain ⟨resolved, entry, -, hSetup, rfl⟩ := load_ok hLoad
  have hResolved : (e.resolvedBy source resolved).Pullable :=
    pullable_resolved hBuilt.wellWired hAligned.pairwise_endpoints hRange hUnstamped hSetup
  have hDressed := dresses_initNodes (e.resolvedBy source resolved)
  refine (hResolved.steady hDressed.toSteady ?_).change (.work (.touch (.note _ _)))
  rw [hDressed.frame]
  exact hResolved.stamps.congr hDressed.prints

/-- What a frame computes are its endpoints and, once each, the nodes that are pulled. -/
theorem Pullable.framePulls_perm (h : e.Pullable)
    (hDue : ∀ action ∈ e.beginFrame.1, ∀ c ∈ action, c.isPassive = true) :
    ∃ sources, sources.Nodup ∧ (∀ n, n ∈ sources ↔ e.graph.PulledFor n) ∧
      e.framePulls.Perm (e.graph.endpoints ++ sources) := by
  have hSteady := (afterDue_spec hDue).1
  have hStale := stale_afterDue h.stamps hDue
  have hGraph := hSteady.graph
  have hLater := h.steady hSteady fun n hn => Nat.le_of_lt (hStale n hn)
  obtain ⟨rank, hRank⟩ := hLater.ranked
  have hWire : e.afterDue.graph.SignalWire = e.graph.SignalWire := by
    funext source sink
    exact propext (Graph.signalWire_congr hGraph.wires)
  obtain ⟨sources, hNodup, hMem, hPerm⟩ := perm_listAlong_tick (e := e.afterDue.silenced)
    hLater.wired hStale hRank e.graph.endpoints h.ascending
    (fun p hp => hGraph.size ▸ h.inRange p hp) [] (fun n hn => absurd hn List.not_mem_nil)
  refine ⟨sources, hNodup, fun n => ?_, ?_⟩
  · have hLeads : e.afterDue.silenced.graph.SignalWire = e.graph.SignalWire := hWire
    rw [hMem, Graph.PulledFor, hLeads]
    simp only [List.not_mem_nil, not_false_eq_true, true_and]
  · rw [framePulls, hGraph.endpoints]
    exact hPerm

/-- A node is computed more than once exactly if it is an endpoint and is pulled, too. -/
theorem Pullable.count_framePulls (h : e.Pullable)
    (hDue : ∀ action ∈ e.beginFrame.1, ∀ c ∈ action, c.isPassive = true) (n : Nat) :
    e.framePulls.count n ≤ 1 ↔ ¬(n ∈ e.graph.endpoints ∧ e.graph.PulledFor n) := by
  obtain ⟨sources, hNodup, hSources, hPerm⟩ := h.framePulls_perm hDue
  have hOnce : e.graph.endpoints.Nodup := h.ascending.imp Nat.ne_of_lt
  rw [hPerm.count_eq, List.count_append, ← hSources]
  by_cases hEndpoint : n ∈ e.graph.endpoints
  · by_cases hSource : n ∈ sources
    · simp [hEndpoint, hSource, hOnce.count, hNodup.count]
    · simp [hEndpoint, hSource, hOnce.count, hNodup.count]
  · by_cases hSource : n ∈ sources
    · simp [hEndpoint, hSource, hOnce.count, hNodup.count]
    · simp [hEndpoint, hSource, hOnce.count, hNodup.count]

/--
**A frame computes every endpoint once for itself, and once each node that is pulled.**
Whatever kinds a registry holds, and whatever has been done since the patch was loaded: if
the actions of a frame are passive, what it computes are its endpoints and, once each, the
nodes from which signal wires lead to an endpoint, if they are no endpoints themselves or
lead to an earlier one.  So the only nodes that are computed more than once are endpoints
that feed earlier ones.
-/
theorem computed_once_but_fed_forward {settings : Settings} {registry : Registry κ}
    {before after : List (Happening κ)} {e₀ e₁ e : Engine κ} {source : String}
    (hBefore : Run (.new settings registry) before e₀)
    (hLoad : e₀.load source = (.ok (), e₁)) (hAfter : Run e₁ after e)
    (hDue : ∀ action ∈ e.beginFrame.1, ∀ c ∈ action, c.isPassive = true) :
    e.render = { e.framePulls.foldl processNode e.afterDue.silenced with rendering := false } ∧
      (∃ sources, sources.Nodup ∧ (∀ n, n ∈ sources ↔ e.graph.PulledFor n) ∧
        e.framePulls.Perm (e.graph.endpoints ++ sources)) ∧
      ∀ n, e.framePulls.count n ≤ 1 ↔ ¬(n ∈ e.graph.endpoints ∧ e.graph.PulledFor n) := by
  have hPullable : e.Pullable :=
    hAfter.tale.changes.keeps (fun _ _ hChange h => h.change hChange) (pullable_load hBefore hLoad)
  exact ⟨e.render_eq_pulls, hPullable.framePulls_perm hDue, hPullable.count_framePulls hDue⟩

/-! ### An output that feeds an output -/

/-- An adder that frames are pulled from. -/
def tap : KindDecl Empty :=
  (KindDecl.new "tap~" fun _ => .signalBinop ⟨.add⟩).withInlets 2 |>.withOutlets [.signal]
    |>.withSignalInlets [0, 1] |>.asEndpoint

/-- Two of them, of which the second feeds the first. -/
def tapsPatch : String :=
  "#X obj 0 0 tap~;\n#X obj 0 0 tap~;\n#X connect 1 0 0 0;\n"

def taps : Engine Empty :=
  loadedFrom .standard (Registry.empty.register tap) tapsPatch

theorem load_taps : (Engine.new .standard (Registry.empty.register tap)).load tapsPatch =
    (.ok (), taps) := by
  refine load_of_ranked (fun n => 1 - n) (by decide +kernel) ?_
  decide +kernel

theorem graph_taps : taps.graph.endpoints = [0, 1] ∧ taps.graph.wires = [⟨1, 0, 0, 0, .signal⟩] ∧
    taps.agenda.slots = [] := by
  decide +kernel

theorem idle_taps : ∀ action ∈ taps.beginFrame.1, ∀ c ∈ action, c.isPassive = true := by
  simp [beginFrame, Agenda.takeDue, graph_taps]

theorem pulledFor_taps : taps.graph.PulledFor 1 := by
  obtain ⟨hEndpoints, hWires, -⟩ := graph_taps
  refine ⟨0, by simp [hEndpoints], .single ⟨⟨1, 0, 0, 0, .signal⟩, ?_, rfl, rfl, rfl⟩,
    fun _ => Nat.zero_lt_one⟩
  rw [hWires]
  exact List.mem_singleton_self _

theorem computed_once_but_fed_forward_taps :
    Run (.new .standard (Registry.empty.register tap)) []
        (Engine.new .standard (Registry.empty.register tap)) ∧
      (Engine.new .standard (Registry.empty.register tap)).load tapsPatch = (.ok (), taps) ∧
      Run taps [] taps ∧
      (∀ action ∈ taps.beginFrame.1, ∀ c ∈ action, c.isPassive = true) ∧
      taps.framePulls.count 0 ≤ 1 := by
  obtain ⟨-, -, hCount⟩ := computed_once_but_fed_forward .start load_taps .start idle_taps
  refine ⟨.start, load_taps, .start, idle_taps, (hCount 0).mpr ?_⟩
  rintro ⟨-, p, -, hLeads, hBefore⟩
  exact Nat.not_lt_zero p (hBefore (by simp [graph_taps]))

/-- Not every frame computes a node at most once: the output that feeds an output is computed for
the other one and for itself. -/
theorem computed_twice_taps :
    (Engine.new .standard (Registry.empty.register tap)).load tapsPatch = (.ok (), taps) ∧
      taps.beginFrame.1 = [] ∧
      taps.render = { taps.framePulls.foldl processNode taps.afterDue.silenced with rendering := false } ∧
      ¬ taps.framePulls.count 1 ≤ 1 := by
  refine ⟨load_taps, by simp [beginFrame, Agenda.takeDue, graph_taps], taps.render_eq_pulls,
    fun hOnce => ?_⟩
  refine ((pullable_load .start load_taps).count_framePulls idle_taps 1).mp hOnce ⟨?_, pulledFor_taps⟩
  simp [graph_taps]

end Engine

end Patchbay
