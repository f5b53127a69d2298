import Mathlib.Data.List.Induction
import Patchbay.Proofs.Compute
import Patchbay.Proofs.Loading

/-
Pulling a frame computes every box that is heard, once, in dependency order.

A node is heard if signal wires lead from it to some `dac~`.  A `FrameOrder` lists
exactly these, each after all sources of its signal wires, with the `dac~` boxes in the
order of their creation.  Pulling the endpoints walks the wires in an order of its own
and looks at stamps on the way; the invariant that carries the proof is that what has
been pulled so far is a ready list, and that a box is stale exactly if it is not on it.
By rank no chain of sources is longer than there are nodes, so the bound of the pull is
never reached, which `tickWithin?` makes visible.

The walk of the wires shows nowhere in the result: any frame order comes to the same.
-/

namespace Patchbay

namespace Graph

variable {κ : Type} {g : Graph κ}

/-- Signal wires lead from the node to some output, or it is one. -/
def Heard (g : Graph κ) (n : Nat) : Prop :=
  ∃ out, g.isOutput out = true ∧ Relation.ReflTransGen g.SignalWire n out

/-- The orders in which a frame may be computed. -/
structure FrameOrder (g : Graph κ) (order : List Nat) : Prop where
  nodup : order.Nodup
  mem : ∀ n, n ∈ order ↔ g.Heard n
  /-- Every node follows all sources of its signal wires. -/
  sources : ∀ before n after, order = before ++ n :: after →
    ∀ source, g.SignalWire source n → source ∈ before
  /-- The outputs follow each other in the order of their creation. -/
  outputs : (order.filter g.isOutput).Pairwise (· < ·)

theorem FrameOrder.ready {order : List Nat} (h : g.FrameOrder order) : g.Ready order := by
  have hPrefix : ∀ before after, order = before ++ after → g.Ready before := by
    intro before
    induction before using List.reverseRecOn with
    | nil => intro after _; exact .nil
    | append_singleton before n ih =>
        intro after hSplit
        rw [List.append_assoc] at hSplit
        refine .snoc (ih _ hSplit) ?_ (h.sources before n after hSplit)
        have hNodup := h.nodup
        rw [hSplit] at hNodup
        intro hBefore
        exact List.disjoint_of_nodup_append hNodup hBefore (by simp)
  exact hPrefix order [] (List.append_nil order).symm

theorem Ready.before {order : List Nat} (h : g.Ready order) : ∀ before n after,
    order = before ++ n :: after → ∀ source, g.SignalWire source n → source ∈ before := by
  induction h with
  | nil => intro before n after hSplit; simp at hSplit
  | snoc h hNew hSources ih =>
      rename_i order k
      intro before n after hSplit source hWire
      induction after using List.reverseRecOn with
      | nil =>
          obtain ⟨rfl, hLast⟩ := List.append_inj' hSplit rfl
          obtain rfl := List.singleton_inj.mp hLast
          exact hSources source hWire
      | append_singleton after last _ =>
          rw [← List.cons_append, ← List.append_assoc] at hSplit
          obtain ⟨hSplit, -⟩ := List.append_inj' hSplit rfl
          exact ih before n after hSplit source hWire

/-- A ready list holds everything that leads to what it holds. -/
theorem Ready.closed {order : List Nat} (h : g.Ready order) {n m : Nat}
    (hLeads : Relation.ReflTransGen g.SignalWire n m) (hm : m ∈ order) : n ∈ order := by
  induction hLeads using Relation.ReflTransGen.head_induction_on with
  | refl => exact hm
  | head hWire _ ih => exact h.sources _ ih _ hWire

/-- Every node that is on the list comes with all sources of its signal wires. -/
def Closed (g : Graph κ) (done : List Nat) : Prop :=
  ∀ n ∈ done, ∀ source, g.SignalWire source n → source ∈ done

/-- Lists that go on from what is done: no node is on them twice or done already, and each follows
all sources of its signal wires. -/
inductive Continues (g : Graph κ) (done : List Nat) : List Nat → Prop
  | nil : Continues g done []
  | snoc {more : List Nat} {n : Nat} (h : Continues g done more) (hNew : n ∉ done ++ more)
      (hSources : ∀ source, g.SignalWire source n → source ∈ done ++ more) :
      Continues g done (more ++ [n])

namespace Continues

variable {done more later : List Nat}

theorem append (h : g.Continues done more) (h' : g.Continues (done ++ more) later) :
    g.Continues done (more ++ later) := by
  induction h' with
  | nil => rwa [List.append_nil]
  | snoc _ hNew hSources ih =>
      rw [List.append_assoc] at hNew hSources
      rw [← List.append_assoc]
      exact ih.snoc hNew hSources

theorem disjoint (h : g.Continues done more) : ∀ n ∈ more, n ∉ done := by
  induction h with
  | nil => exact fun n hn => absurd hn List.not_mem_nil
  | snoc _ hNew _ ih =>
      intro n hn
      rcases List.mem_append.mp hn with hn | hn
      · exact ih n hn
      · rw [List.mem_singleton.mp hn]
        exact fun hDone => hNew (List.mem_append_left _ hDone)

theorem nodup (h : g.Continues done more) : more.Nodup := by
  induction h with
  | nil => exact List.nodup_nil
  | snoc _ hNew _ ih =>
      refine ih.append (List.nodup_singleton _) ?_
      simpa using fun hMore => hNew (List.mem_append_right _ hMore)

theorem closed (h : g.Continues done more) (hDone : g.Closed done) : g.Closed (done ++ more) := by
  induction h with
  | nil => rwa [List.append_nil]
  | snoc _ _ hSources ih =>
      intro n hn source hWire
      rw [← List.append_assoc] at hn ⊢
      rcases List.mem_append.mp hn with hn | hn
      · exact List.mem_append_left _ (ih n hn source hWire)
      · rw [List.mem_singleton.mp hn] at hWire
        exact List.mem_append_left _ (hSources source hWire)

/-- What goes on from a ready list makes a longer one. -/
theorem ready (h : g.Continues done more) (hDone : g.Ready done) : g.Ready (done ++ more) := by
  induction h with
  | nil => rwa [List.append_nil]
  | snoc _ hNew hSources ih =>
      rw [← List.append_assoc]
      exact ih.snoc hNew hSources

end Continues

theorem mem_signalSources (hWired : g.WellWired) {source n : Nat} :
    source ∈ g.signalSources n ↔ g.SignalWire source n := by
  simp only [signalSources, SignalWire, List.mem_map, List.mem_filter, Bool.and_eq_true, beq_iff_eq,
    hWired.recentPerm.mem_iff]
  constructor
  · rintro ⟨w, ⟨hw, hRate, hSink⟩, hSource⟩
    exact ⟨w, hw, hRate, hSource, hSink⟩
  · rintro ⟨w, hw, hRate, hSource, hSink⟩
    exact ⟨w, ⟨hw, hRate, hSink⟩, hSource⟩

/-- No wire starts at an output. -/
theorem isOutput_eq_false (hSound : g.Sound) {source n : Nat} (hWire : g.SignalWire source n) :
    g.isOutput source = false := by
  obtain ⟨w, hw, -, rfl, -⟩ := hWire
  have hRate := hSound.wired.sourceRate w hw
  cases hOutput : g.isOutput w.source with
  | false => rfl
  | true =>
      obtain ⟨node, hNode, hKind⟩ := isOutput_iff.mp hOutput
      have hNone := (hSound.boxes node (Array.mem_of_getElem? hNode)).outlets hKind
      rw [outletRate?, hNode] at hRate
      simp [hNone] at hRate

theorem mem_endpoints (hSound : g.Sound) {n : Nat} :
    n ∈ g.endpoints ↔ g.isOutput n = true := by
  rw [hSound.listed.mem, isOutput_iff]
  constructor
  · rintro ⟨node, hNode, hEndpoint⟩
    have hProper := hSound.boxes node (Array.mem_of_getElem? hNode)
    exact ⟨node, hNode, hProper.endpoint.mp hEndpoint⟩
  · rintro ⟨node, hNode, hKind⟩
    have hProper := hSound.boxes node (Array.mem_of_getElem? hNode)
    exact ⟨node, hNode, hProper.endpoint.mpr hKind⟩

theorem lt_size_of_isOutput {n : Nat} (h : g.isOutput n = true) : n < g.size := by
  obtain ⟨node, hNode, -⟩ := isOutput_iff.mp h
  exact (Array.getElem?_eq_some_iff.mp hNode).1

theorem Heard.lt_size (hSound : g.Sound) {n : Nat} (h : g.Heard n) : n < g.size := by
  obtain ⟨out, hOutput, hLeads⟩ := h
  rcases Relation.ReflTransGen.cases_head hLeads with rfl | ⟨next, hWire, -⟩
  · exact lt_size_of_isOutput hOutput
  · exact (hSound.wired.signalInRange hWire).1

/-- A ready list of what is heard, with the endpoints as they are listed, is a frame order. -/
theorem Ready.frameOrder (hSound : g.Sound) {order : List Nat} (h : g.Ready order)
    (hHeard : ∀ n ∈ order, g.Heard n) (hEndpoints : order.filter g.isOutput = g.endpoints) :
    g.FrameOrder order := by
  refine ⟨h.nodup, fun n => ⟨hHeard n, ?_⟩, h.before, ?_⟩
  · rintro ⟨out, hOutput, hLeads⟩
    have hOut : out ∈ order.filter g.isOutput := hEndpoints ▸ (mem_endpoints hSound).mpr hOutput
    exact h.closed hLeads (List.mem_filter.mp hOut).1
  · rw [hEndpoints]
    exact hSound.listed.ascending

/-- Frame orders agree on the outputs. -/
theorem FrameOrder.filter_eq (hSound : g.Sound) {order : List Nat} (h : g.FrameOrder order) :
    order.filter g.isOutput = g.endpoints := by
  refine List.Pairwise.eq_of_mem_iff h.outputs hSound.listed.ascending fun n => ?_
  rw [List.mem_filter, h.mem, mem_endpoints hSound]
  constructor
  · exact fun hn => hn.2
  · exact fun hn => ⟨⟨n, hn, .refl⟩, hn⟩

end Graph

namespace Engine

variable {κ : Type} [CustomKind κ] {e : Engine κ}

/-! ### The pull -/

/-- Computing a node and what it needs, without an answer if the bound is reached. -/
def tickWithin? : Nat → Engine κ → Nat → Option (Engine κ)
  | 0, _, _ => none
  | bound + 1, e, node =>
    ((e.graph.signalSources node).foldlM (fun (e : Engine κ) source =>
      if e.isStale source then tickWithin? bound e source else some e) e).map fun e =>
        e.processNode node

/-- Where the bound is not reached it does not matter. -/
theorem tickWithin_eq (bound : Nat) : ∀ {e e' : Engine κ} {node : Nat},
    tickWithin? bound e node = some e' → tickWithin bound e node = e' := by
  induction bound with
  | zero => intro e e' node h; simp [tickWithin?] at h
  | succ bound ih =>
      intro e e' node h
      rw [tickWithin?] at h
      obtain ⟨pulled, hPulled, rfl⟩ := Option.map_eq_some_iff.mp h
      have hFold : ∀ (sources : List Nat) (e e' : Engine κ),
          sources.foldlM (fun (e : Engine κ) source =>
            if e.isStale source then tickWithin? bound e source else some e) e = some e' →
          sources.foldl (fun (e : Engine κ) source =>
            if e.isStale source then tickWithin bound e source else e) e = e' := by
        intro sources
        induction sources with
        | nil => intro e e' h; exact Option.some.inj h
        | cons source sources ihFold =>
            intro e e' h
            rw [List.foldlM_cons] at h
            obtain ⟨next, hNext, hRest⟩ := Option.bind_eq_some_iff.mp h
            rw [List.foldl_cons]
            split at hNext
            · rename_i hStale
              rw [if_pos hStale, ih hNext]
              exact ihFold _ _ hRest
            · rename_i hStale
              rw [if_neg hStale, Option.some.inj hNext]
              exact ihFold _ _ hRest
      rw [tickWithin]
      exact congrArg (fun e : Engine κ => e.processNode node) (hFold _ _ _ hPulled)

/-- What is listed while one thing is done after the other. -/
def listAlong {α : Type} (f : Engine κ → α → Engine κ) (tell : Engine κ → α → List Nat) :
    List α → Engine κ → List Nat
  | [], _ => []
  | a :: l, e => tell e a ++ listAlong f tell l (f e a)

/-- The nodes that computing a node and what it needs computes, in order. -/
def pulled : Nat → Engine κ → Nat → List Nat
  | 0, _, _ => []
  | bound + 1, e, node =>
    listAlong (fun e source => if e.isStale source then tickWithin bound e source else e)
      (fun e source => if e.isStale source then pulled bound e source else [])
      (e.graph.signalSources node) e ++ [node]

/-- Computing a node leaves only that one up to date. -/
theorem isStale_processNode (e : Engine κ) (m n : Nat) :
    (e.processNode m).isStale n = true ↔ e.isStale n = true ∧ n ≠ m := by
  unfold processNode
  split
  · rename_i hNone
    refine ⟨fun h => ⟨h, ?_⟩, And.left⟩
    rintro rfl
    simp [isStale, hNone] at h
  · simp only [isStale, onGraph, log, Graph.getElem?_modifyNode]
    by_cases hSame : m = n
    · subst hSame
      cases e.graph.nodes[m]? <;> simp
    · rw [if_neg hSame]
      exact ⟨fun h => ⟨h, Ne.symm hSame⟩, And.left⟩

/-- A node is stale exactly if it has not been computed. -/
theorem isStale_compute (hStale : StampsAre (· < e.frame) e) (order : List Nat) {n : Nat}
    (hn : n < e.graph.size) : (e.compute order).isStale n = true ↔ n ∉ order := by
  induction order using List.reverseRecOn with
  | nil =>
      have hNode : e.graph.nodes[n]? = some e.graph.nodes[n] := Array.getElem?_eq_getElem hn
      have hOld : e.graph.nodes[n].stamp < e.frame := hStale _ (Array.getElem_mem hn)
      simp [isStale, compute, hNode, hOld]
  | append_singleton order m ih =>
      rw [compute_snoc, isStale_processNode, ih, List.mem_append, List.mem_singleton, not_or]

/-- What a pull adds to what has been computed before. -/
structure Pulled (e : Engine κ) (n : Nat) (done more : List Nat) : Prop where
  continues : e.graph.Continues done more
  leads : ∀ m ∈ more, Relation.TransGen e.graph.SignalWire m n

omit [CustomKind κ] in
/-- What leads to something is no output. -/
theorem Pulled.filter_isOutput (hSound : e.graph.Sound) {n : Nat} {done more : List Nat}
    (h : Pulled e n done more) : more.filter e.graph.isOutput = [] := by
  refine List.filter_eq_nil_iff.mpr fun m hm => ?_
  obtain ⟨next, hWire, -⟩ := Relation.TransGen.head'_iff.mp (h.leads m hm)
  simp [Graph.isOutput_eq_false hSound hWire]

omit [CustomKind κ] in
/-- What has been pulled by an output is heard. -/
theorem Pulled.heard {n : Nat} {done more : List Nat} (h : Pulled e n done more)
    (hOutput : e.graph.isOutput n = true) (hHeard : ∀ m ∈ done, e.graph.Heard m) :
    ∀ m ∈ done ++ more ++ [n], e.graph.Heard m := by
  intro m hm
  rcases List.mem_append.mp hm with hm | hm
  · rcases List.mem_append.mp hm with hm | hm
    · exact hHeard m hm
    · exact ⟨n, hOutput, (h.leads m hm).to_reflTransGen⟩
  · rw [List.mem_singleton.mp hm]
    exact ⟨n, hOutput, .refl⟩

/-- What a pull comes to: the sources that have not been computed, then the node. -/
structure PullsAs (e : Engine κ) (bound n : Nat) (done more : List Nat) : Prop where
  ends : tickWithin? bound (e.compute done) n = some (e.compute (done ++ more ++ [n]))
  listed : pulled bound (e.compute done) n = more ++ [n]

/-- Pulling the sources of a node, if pulling one source works. -/
theorem foldlM_pull (hWired : e.graph.WellWired) (hStale : StampsAre (· < e.frame) e)
    {bound n : Nat}
    (hPull : ∀ source, e.graph.SignalWire source n → ∀ done, e.graph.Closed done →
      source ∉ done → ∃ more, PullsAs e bound source done more ∧
        Pulled e n done (more ++ [source]))
    (sources : List Nat) (hSources : ∀ source ∈ sources, e.graph.SignalWire source n) :
    ∀ done, e.graph.Closed done → ∃ more,
      sources.foldlM (fun (e : Engine κ) source =>
        if e.isStale source then tickWithin? bound e source else some e) (e.compute done) =
          some (e.compute (done ++ more)) ∧
        listAlong (fun e source => if e.isStale source then tickWithin bound e source else e)
          (fun e source => if e.isStale source then pulled bound e source else []) sources
          (e.compute done) = more ∧
        Pulled e n done more ∧ ∀ source ∈ sources, source ∈ done ++ more := by
  induction sources with
  | nil =>
      intro done _
      exact ⟨[], by simp, rfl, ⟨.nil, by simp⟩, by simp⟩
  | cons source sources ih =>
      intro done hClosed
      have hWire := hSources source List.mem_cons_self
      have hRange := (hWired.signalInRange hWire).1
      have ih := ih fun s hs => hSources s (List.mem_cons_of_mem _ hs)
      rw [List.foldlM_cons, listAlong]
      by_cases hOn : source ∈ done
      · have hNot : (e.compute done).isStale source ≠ true := by
          rw [ne_eq, isStale_compute hStale done hRange]
          exact not_not_intro hOn
        rw [if_neg hNot, if_neg hNot, if_neg hNot]
        obtain ⟨more, hFold, hListed, hPulled, hMem⟩ := ih done hClosed
        refine ⟨more, hFold, by rw [hListed]; rfl, hPulled, fun s hs => ?_⟩
        rcases List.mem_cons.mp hs with rfl | hs
        · exact List.mem_append_left _ hOn
        · exact hMem s hs
      · have hFirstStale := (isStale_compute hStale done hRange).mpr hOn
        rw [if_pos hFirstStale, if_pos hFirstStale, if_pos hFirstStale]
        obtain ⟨first, hPulls, hFirst⟩ := hPull source hWire done hClosed hOn
        obtain ⟨more, hFold, hListed, hPulled, hMem⟩ :=
          ih (done ++ (first ++ [source])) (hFirst.continues.closed hClosed)
        have hSplit : done ++ first ++ [source] = done ++ (first ++ [source]) :=
          List.append_assoc ..
        refine ⟨first ++ [source] ++ more, ?_, ?_,
          ⟨hFirst.continues.append hPulled.continues, fun m hm => ?_⟩, fun s hs => ?_⟩
        · rw [hPulls.ends, hSplit, Option.bind_eq_bind, Option.bind_some, hFold, List.append_assoc]
        · rw [hPulls.listed, tickWithin_eq _ hPulls.ends, hSplit, hListed]
        · rcases List.mem_append.mp hm with hm | hm
          · exact hFirst.leads m hm
          · exact hPulled.leads m hm
        · rw [← List.append_assoc]
          rcases List.mem_cons.mp hs with rfl | hs
          · simp
          · exact hMem s hs

/-- **Pulling a node computes it last**, after what leads to it and has not been computed. -/
theorem pullsAs (hWired : e.graph.WellWired) (hStale : StampsAre (· < e.frame) e)
    {rank : Nat → Nat} (hRank : e.graph.Ranked rank) (bound : Nat) :
    ∀ (done : List Nat) (n : Nat), rank n < bound → e.graph.Closed done →
      ∃ more, PullsAs e bound n done more ∧ Pulled e n done more ∧
        ∀ source, e.graph.SignalWire source n → source ∈ done ++ more := by
  induction bound with
  | zero => intro done n h; omega
  | succ bound ih =>
      intro done n hBound hClosed
      have hPull : ∀ source, e.graph.SignalWire source n → ∀ done, e.graph.Closed done →
          source ∉ done → ∃ more, PullsAs e bound source done more ∧
            Pulled e n done (more ++ [source]) := by
        intro source hWire done hClosed hOff
        have hLess := hRank.1 _ _ hWire
        obtain ⟨more, hPulls, hPulled, hSources⟩ := ih done source (by omega) hClosed
        have hNew : source ∉ done ++ more := by
          rw [List.mem_append, not_or]
          exact ⟨hOff, fun hMore => hRank.not_onSignalCycle source (hPulled.leads source hMore)⟩
        refine ⟨more, hPulls, hPulled.continues.snoc hNew hSources, fun m hm => ?_⟩
        rcases List.mem_append.mp hm with hm | hm
        · exact (hPulled.leads m hm).tail hWire
        · rw [List.mem_singleton.mp hm]
          exact .single hWire
      have hSame : (e.compute done).graph.signalSources n = e.graph.signalSources n := by
        rw [Graph.signalSources, (steady_compute e done).graph.recent]
        rfl
      obtain ⟨more, hFold, hListed, hPulled, hMem⟩ := foldlM_pull hWired hStale hPull
        (e.graph.signalSources n) (fun s hs => (Graph.mem_signalSources hWired).mp hs) done hClosed
      refine ⟨more, ⟨?_, ?_⟩, hPulled, fun source hWire => ?_⟩
      · rw [tickWithin?, hSame, hFold, Option.map_some, compute_snoc]
      · rw [pulled, hSame, hListed]
      · exact hMem source ((Graph.mem_signalSources hWired).mpr hWire)

/-- Pulling the endpoints that are left completes a ready list to a frame order. -/
theorem foldlM_endpoints (hSound : e.graph.Sound) (hStale : StampsAre (· < e.frame) e)
    (left : List Nat) : ∀ order, e.graph.Ready order → (∀ n ∈ order, e.graph.Heard n) →
      e.graph.endpoints = order.filter e.graph.isOutput ++ left →
      ∃ full, e.graph.FrameOrder full ∧
        left.foldlM (tickWithin? e.graph.size) (e.compute order) = some (e.compute full) ∧
        left.foldl tick (e.compute order) = e.compute full := by
  obtain ⟨rank, hRank⟩ := hSound.ranked
  induction left with
  | nil =>
      intro order hReady hHeard hEndpoints
      rw [List.append_nil] at hEndpoints
      exact ⟨order, hReady.frameOrder hSound hHeard hEndpoints.symm, rfl, rfl⟩
  | cons n left ih =>
      intro order hReady hHeard hEndpoints
      have hMem : n ∈ e.graph.endpoints := by simp [hEndpoints]
      have hOutput := (Graph.mem_endpoints hSound).mp hMem
      have hRange := Graph.lt_size_of_isOutput hOutput
      have hNew : n ∉ order := by
        intro hOn
        have hNodup := hSound.listed.ascending.imp Nat.ne_of_lt
        rw [hEndpoints] at hNodup
        exact List.disjoint_of_nodup_append hNodup (List.mem_filter.mpr ⟨hOn, hOutput⟩)
          List.mem_cons_self
      obtain ⟨more, hPulls, hPulled, hSources⟩ :=
        pullsAs hSound.wired hStale hRank e.graph.size order n (hRank.2 n hRange) hReady.sources
      have hTick := hPulls.ends
      have hOff : n ∉ order ++ more := by
        rw [List.mem_append, not_or]
        exact ⟨hNew, fun hMore => hRank.not_onSignalCycle n (hPulled.leads n hMore)⟩
      have hReady₁ := (hPulled.continues.ready hReady).snoc hOff hSources
      have hEndpoints₁ : e.graph.endpoints =
          (order ++ more ++ [n]).filter e.graph.isOutput ++ left := by
        rw [List.filter_append, List.filter_append, hPulled.filter_isOutput hSound,
          List.append_nil, List.filter_cons_of_pos hOutput, List.filter_nil, List.append_assoc]
        exact hEndpoints
      obtain ⟨full, hFull, hFoldM, hFold⟩ := ih (order ++ more ++ [n]) hReady₁
        (hPulled.heard hOutput hHeard) hEndpoints₁
      refine ⟨full, hFull, ?_, ?_⟩
      · rw [List.foldlM_cons, hTick]
        exact hFoldM
      · have hSize : (e.compute order).graph.size = e.graph.size :=
          (steady_compute e order).graph.size
        rw [List.foldl_cons, tick, hSize, tickWithin_eq _ hTick]
        exact hFold

/-! ### Frames -/

/-- An engine whose frame has begun, once the actions that are due have run. -/
def afterDue (e : Engine κ) : Engine κ :=
  e.beginFrame.1.foldl (fun e action => runAction action e) e.beginFrame.2

omit [CustomKind κ] in
/-- The output is silent before the endpoints are pulled. -/
def silenced (e : Engine κ) : Engine κ :=
  { e with output := e.output.map fun _ => 0 }

theorem render_eq_afterDue (e : Engine κ) : e.render =
    { e.afterDue.graph.endpoints.foldl tick e.afterDue.silenced with rendering := false } := by
  rw [render_eq]
  rfl

/-- What touches and schedules keep, an action of passive commands keeps. -/
theorem runAction_keeps {p : Engine κ → Prop} (hTouch : ∀ e e', Touch e e' → p e → p e')
    (hSchedule : ∀ e due commands, p e → p (e.schedule due commands)) (action : Action) :
    ∀ e : Engine κ, (∀ c ∈ action, c.isPassive = true) → p e → p (runAction action e) := by
  induction action with
  | nil => intro e _ he; exact he
  | cons c action ih =>
      intro e hPassive he
      refine ih _ (fun c hc => hPassive c (List.mem_cons_of_mem _ hc)) ?_
      obtain ⟨journal, hEq⟩ := performLogged_eq render e c
      rw [hEq]
      refine hTouch _ _ (.note _ journal) ?_
      rcases performWith_passive render (hPassive c List.mem_cons_self) e with
        ⟨due, commands, rfl⟩ | hChain
      · exact hSchedule e due commands he
      · exact hChain.keeps hTouch he

/-- What actions of passive commands keep, one after the other. -/
theorem foldl_runAction_keeps {p : Engine κ → Prop} (hTouch : ∀ e e', Touch e e' → p e → p e')
    (hSchedule : ∀ e due commands, p e → p (e.schedule due commands)) (actions : List Action) :
    ∀ e : Engine κ, (∀ action ∈ actions, ∀ c ∈ action, c.isPassive = true) → p e →
      p (actions.foldl (fun e action => runAction action e) e) := by
  induction actions with
  | nil => intro e _ he; exact he
  | cons action actions ih =>
      intro e hDue he
      refine ih _ (fun a ha => hDue a (List.mem_cons_of_mem _ ha)) ?_
      exact runAction_keeps hTouch hSchedule action e (hDue action List.mem_cons_self) he

/-- A frame computes the nodes on a list, one after the other, and nothing else. -/
structure RendersBy (e : Engine κ) (order : List Nat) : Prop where
  /-- The pull comes to an end without a bound, and has computed the list. -/
  ends : ∃ bound, e.afterDue.graph.endpoints.foldlM (tickWithin? bound) e.afterDue.silenced =
    some (order.foldl processNode e.afterDue.silenced)
  result : e.render = { order.foldl processNode e.afterDue.silenced with rendering := false }
  frame : e.render.frame = e.frame + 1
  stamped : ∀ n ∈ order, ∃ node, e.render.graph.nodes[n]? = some node ∧ node.stamp = e.render.frame
  /-- The other boxes are as the due actions leave them, ... -/
  others : ∀ n, n ∉ order → e.render.graph.nodes[n]? = e.afterDue.graph.nodes[n]?
  /-- ... with the stamp and the buffers from before the frame, ... -/
  kept : ∀ n, n ∉ order → e.render.printAt n = e.printAt n
  /-- ... which is an older one. -/
  older : ∀ n, n ∉ order → ∀ node, e.render.graph.nodes[n]? = some node →
    node.stamp < e.render.frame

/-- What holds once the due actions have run, if they are passive. -/
theorem afterDue_spec (hDue : ∀ action ∈ e.beginFrame.1, ∀ c ∈ action, c.isPassive = true) :
    e.Steady e.afterDue ∧ e.afterDue.frame = e.frame + 1 ∧
      ∀ n, e.afterDue.printAt n = e.printAt n := by
  refine foldl_runAction_keeps (p := fun e' : Engine κ => e.Steady e' ∧
    e'.frame = e.frame + 1 ∧ ∀ n, e'.printAt n = e.printAt n) ?_ ?_ _ _ hDue
    ⟨(Change.beginFrame e).steady, rfl, fun _ => rfl⟩
  · rintro e₁ e₂ hTouch ⟨hSteady, hFrame, hPrint⟩
    exact ⟨hSteady.trans hTouch.steady, (Work.touch hTouch).frame.trans hFrame,
      fun n => (hTouch.printAt n).trans (hPrint n)⟩
  · rintro e₁ due commands ⟨hSteady, hRest⟩
    exact ⟨hSteady.trans ⟨.refl _, rfl, rfl, rfl⟩, hRest⟩

/-- Boxes that are stamped no later than the frame are stale once the next one has begun. -/
theorem stale_afterDue (hStamps : StampsAre (· ≤ e.frame) e)
    (hDue : ∀ action ∈ e.beginFrame.1, ∀ c ∈ action, c.isPassive = true) :
    StampsAre (· < e.afterDue.frame) e.afterDue := by
  obtain ⟨-, hFrame, hPrint⟩ := afterDue_spec hDue
  refine StampsAre.congr (e := e) (fun n hn => ?_) hPrint
  rw [hFrame]
  exact Nat.lt_succ_of_le (hStamps n hn)

/-- If no box has been computed in this frame, any frame order says what the pull comes to. -/
theorem pull_eq (hSound : e.graph.Sound) (hStale : StampsAre (· < e.frame) e) {order : List Nat}
    (hOrder : e.graph.FrameOrder order) :
    e.graph.endpoints.foldlM (tickWithin? e.graph.size) e = some (e.compute order) ∧
      e.graph.endpoints.foldl tick e = e.compute order := by
  obtain ⟨full, hFull, hFoldM, hFold⟩ :=
    foldlM_endpoints hSound hStale e.graph.endpoints [] .nil (by simp) (by simp)
  have hSame : e.compute full = e.compute order := by
    refine compute_congr hSound hFull.ready hOrder.ready (fun n => ?_) ?_
    · rw [hFull.mem, hOrder.mem]
    · rw [hFull.filter_eq hSound, hOrder.filter_eq hSound]
  rw [← hSame]
  exact ⟨hFoldM, hFold⟩

/--
**Rendering a frame computes exactly the boxes that are heard, in any frame order.**
There is such an order, and whichever is taken, the engine is the same in the end.
-/
theorem render_by_frameOrder (h : e.Live)
    (hDue : ∀ action ∈ e.beginFrame.1, ∀ c ∈ action, c.isPassive = true) :
    (∃ order, e.afterDue.graph.FrameOrder order) ∧
      ∀ order, e.afterDue.graph.FrameOrder order → e.RendersBy order := by
  obtain ⟨hSteady, hFrame, hPrint⟩ := afterDue_spec hDue
  have hSound := h.sound.graph.evolves hSteady.graph
  have hStale := stale_afterDue h.sound.stamps hDue
  refine ⟨?_, fun order hOrder => ?_⟩
  · obtain ⟨full, hFull, -⟩ := foldlM_endpoints (e := e.afterDue.silenced) hSound hStale
      e.afterDue.graph.endpoints [] .nil (by simp) rfl
    exact ⟨full, hFull⟩
  · obtain ⟨hFoldM, hFold⟩ := pull_eq (e := e.afterDue.silenced) hSound hStale hOrder
    have hComputed := computed_compute (e := e.afterDue.silenced) hSound hOrder.ready
    have hResult : e.render = { e.afterDue.silenced.compute order with rendering := false } := by
      rw [render_eq_afterDue, ← hFold]
      rfl
    have hNodes : e.render.graph.nodes = (e.afterDue.silenced.compute order).graph.nodes := by
      rw [hResult]
    have hNow : e.render.frame = e.frame + 1 := by
      obtain ⟨nodes, output, hEq⟩ := hComputed.rest
      rw [hResult, hEq]
      exact hFrame
    have hOthers : ∀ n, n ∉ order → e.render.graph.nodes[n]? = e.afterDue.graph.nodes[n]? := by
      intro n hn
      rw [hNodes]
      exact hComputed.off n hn
    refine ⟨⟨_, hFoldM⟩, hResult, hNow, fun n hn => ?_, hOthers, fun n hn => ?_,
      fun n hn node hNode => ?_⟩
    · have hRange := ((hOrder.mem n).mp hn).lt_size hSound
      have hBefore : e.afterDue.graph.nodes[n]? = some e.afterDue.graph.nodes[n] :=
        Array.getElem?_eq_getElem hRange
      have hAfter := hComputed.on n hn
      rw [← hNodes] at hAfter
      refine ⟨_, hAfter.trans (congrArg _ hBefore), ?_⟩
      rw [hNow]
      exact hFrame
    · rw [printAt, hOthers n hn]
      exact hPrint n
    · rw [hOthers n hn] at hNode
      rw [hNow, ← hFrame]
      exact hStale node (Array.mem_of_getElem? hNode)

/-! ### A frame of a patch -/

end Engine

namespace Graph

variable {κ : Type} {g : Graph κ}

/-- The frame order where one signal wire leads to the only output. -/
theorem frameOrder_of_wire {source out : Nat} (hLess : source < out)
    (hOutput : ∀ n, g.isOutput n = true ↔ n = out)
    (hWire : ∀ n m, g.SignalWire n m ↔ n = source ∧ m = out) : g.FrameOrder [source, out] := by
  have hNone : ∀ n, ¬g.SignalWire n source := fun n h => by
    have hSame := ((hWire n source).mp h).2
    omega
  refine ⟨by simp [Nat.ne_of_lt hLess], fun n => ⟨fun hMem => ?_, ?_⟩, ?_, ?_⟩
  · refine ⟨out, (hOutput out).mpr rfl, ?_⟩
    rcases List.mem_pair.mp hMem with rfl | rfl
    · exact .single ((hWire n out).mpr ⟨rfl, rfl⟩)
    · exact .refl
  · rintro ⟨m, hm, hPath⟩
    obtain rfl := (hOutput m).mp hm
    rcases hPath.cases_tail with rfl | ⟨last, hPath, hLast⟩
    · simp
    obtain ⟨rfl, -⟩ := (hWire last m).mp hLast
    rcases hPath.cases_tail with rfl | ⟨_, -, hInto⟩
    · simp
    · exact absurd hInto (hNone _)
  · intro before n after hSplit first hFirst
    obtain ⟨rfl, rfl⟩ := (hWire first n).mp hFirst
    cases before with
    | nil =>
        obtain ⟨rfl, -⟩ := List.cons.inj hSplit
        exact absurd hLess (Nat.lt_irrefl _)
    | cons m before =>
        obtain ⟨rfl, -⟩ := List.cons.inj hSplit
        exact List.mem_cons_self
  · exact List.Pairwise.filter _ (by simpa using hLess)

end Graph

namespace Engine

/-- The bang that is due at first sets the pitch, and then the oscillator is computed before the
output that it feeds. -/
theorem render_chime :
    chime.Live ∧ chime.beginFrame.1.length = 1 ∧
      (∀ action ∈ chime.beginFrame.1, ∀ c ∈ action, c.isPassive = true) ∧
      chime.afterDue.graph.FrameOrder [0, 3] ∧ chime.RendersBy [0, 3] := by
  have hLive : chime.Live := (Live.new .standard).load load_chime
  have hFacts : chime.beginFrame.1.length = 1 ∧
      (∀ action ∈ chime.beginFrame.1, ∀ c ∈ action, c.isPassive = true) ∧
      chime.graph.wires = [⟨1, 0, 2, 0, .message⟩, ⟨2, 0, 0, 0, .message⟩, ⟨0, 0, 3, 0, .signal⟩] ∧
      chime.graph.endpoints = [3] := by
    decide +kernel
  obtain ⟨hLength, hDue, hWires, hEndpoints⟩ := hFacts
  obtain ⟨-, hRenders⟩ := render_by_frameOrder hLive hDue
  have hGraph := (afterDue_spec hDue).1.graph
  have hOrder : chime.afterDue.graph.FrameOrder [0, 3] := by
    refine Graph.frameOrder_of_wire (by decide) (fun n => ?_) (fun n m => ?_)
    · rw [← Graph.mem_endpoints (hLive.sound.graph.evolves hGraph), hGraph.endpoints, hEndpoints]
      simp
    · rw [Graph.signalWire_congr hGraph.wires, Graph.SignalWire, hWires]
      simp [eq_comm]
  exact ⟨hLive, hLength, hDue, hOrder, hRenders [0, 3] hOrder⟩

end Engine

end Patchbay
