import Patchbay.Proofs.Alignment
import Patchbay.Proofs.Connect

/-
The numbers that a connection is written with.

A patch may write numbers of up to sixty-four bits, while nodes are numbered in thirty-two.
A number is narrowed before it is looked up, and nothing checks what is lost by that.  So the
lower bits alone decide whether a connection is accepted and what it joins: a number that no
node has is refused if its lower bits are no node's either, and taken for another node's
otherwise.

`Joinable` says when there is something to join, and `refuses_iff` that a connection is refused
exactly otherwise, whatever the graph and the numbers are.  What follows for a patch is read off
`Aligned`, which knows the nodes that there are at each of its directives.
-/

namespace Patchbay

/-- A number stands for itself exactly if it is short. -/
theorem nodeIndex_eq_self_iff {n : Nat} : nodeIndex n = n ↔ n < twoTo 32 := by
  constructor
  · intro hSelf
    rw [← hSelf]
    exact Nat.mod_lt n (twoTo_pos 32)
  · exact Nat.mod_eq_of_lt

namespace Graph

variable {κ : Type} {g : Graph κ} {source outlet sink inlet : Nat}

/-! ### Slots that can be joined -/

/-- The outlet is there, and the inlet is, or its node grows one. -/
structure Joinable (g : Graph κ) (source outlet sink inlet : Nat) : Prop where
  outlet : ∃ n, g.nodes[source]? = some n ∧ outlet < n.outlets.length
  inlet : ∃ n, g.nodes[sink]? = some n ∧ (inlet < n.inlets.size ∨ n.object.isPlaceholder = true)

/-- A connection is refused, and the graph stays as it was.  To stop at an overflow is not to
refuse. -/
def Refuses (g : Graph κ) (source outlet sink inlet : Nat) : Prop :=
  ∃ fault, fault ≠ .overflow ∧ g.connectInPlace source outlet sink inlet = (.error fault, g)

theorem joinable_iff : g.Joinable (nodeIndex source) outlet (nodeIndex sink) inlet ↔
    (g.outletRate source outlet).isOk = true ∧ g.takes sink inlet = true := by
  rw [isOk_outletRate, takes, Option.any_eq_true, Option.any_eq_true]
  simp only [decide_eq_true_eq, Bool.or_eq_true]
  exact ⟨fun h => ⟨h.outlet, h.inlet⟩, fun h => ⟨h.1, h.2⟩⟩

/-- **The lower bits decide.**  A connection is refused exactly if the nodes that they name cannot
be joined. -/
theorem refuses_iff : g.Refuses source outlet sink inlet ↔
    ¬g.Joinable (nodeIndex source) outlet (nodeIndex sink) inlet := by
  rw [joinable_iff]
  unfold Refuses connectInPlace
  cases hRate : g.outletRate source outlet with
  | error fault =>
      have hFault : fault ≠ .overflow :=
        fun hEq => g.outletRate_ne_overflow source outlet (hEq ▸ hRate)
      simp [Except.isOk, Except.toBool, hFault]
  | ok rate =>
      rw [not_and, Bool.not_eq_true, takes_eq_false_iff]
      cases g.reachInlet sink inlet <;> simp [Except.isOk, Except.toBool]

/-- No node is joined that there is not. -/
theorem refuses_of_missing (h : g.size ≤ nodeIndex source ∨ g.size ≤ nodeIndex sink) :
    g.Refuses source outlet sink inlet := by
  rw [refuses_iff]
  intro hJoinable
  obtain ⟨n, hSource, -⟩ := hJoinable.outlet
  obtain ⟨m, hSink, -⟩ := hJoinable.inlet
  have hSourceIn : nodeIndex source < g.size := (Array.getElem?_eq_some_iff.mp hSource).1
  have hSinkIn : nodeIndex sink < g.size := (Array.getElem?_eq_some_iff.mp hSink).1
  omega

/-- Two boxes that pass on what they get. -/
def couple : Graph Empty :=
  let box : Node Empty := .new "f" [] ⟨0, 0⟩ false [.message] [.message] .null 1
  (empty.addNode box).addNode box

/-- A connection to a node that is not there is accepted, as its number has the lower bits of
another node's. -/
theorem not_refuses_couple : ¬∀ (g : Graph Empty) (source outlet sink inlet : Nat),
    source < twoTo 64 → outlet < twoTo 64 → sink < twoTo 64 → inlet < twoTo 64 →
      g.size ≤ source ∨ g.size ≤ sink → g.Refuses source outlet sink inlet := by
  intro hAll
  have hRefused := hAll couple 0 0 4294967297 0 (by decide) (by decide) (by decide) (by decide)
    (.inr (by decide))
  rw [refuses_iff] at hRefused
  exact hRefused ⟨⟨_, rfl, by decide⟩, ⟨_, rfl, .inl (by decide)⟩⟩

end Graph

/-! ### Connections of a patch -/

namespace Engine

variable {κ : Type} [CustomKind κ]

/-- A directive that connects does to the graph what connecting in place does. -/
theorem graph_apply_connect (b : Build κ) {s : Statement} {source outlet sink inlet : Nat}
    (h : s.directive = .connect source outlet sink inlet) :
    (apply b s).engine.graph = (b.engine.graph.connectInPlace source outlet sink inlet).2 := by
  obtain ⟨_, hEq⟩ := b.engine.exists_connect_eq s.line source outlet sink inlet
  rw [apply, h]
  simp only [hEq]

/--
**A connection joins the nodes that the lower bits of its numbers name.**  It is refused exactly if
these cannot be joined, and then changes nothing; so it is refused if one of them is not there,
and whatever numbers beyond the nodes it has as long as they are short.  When a patch is loaded,
the nodes that are there are those created so far.  Each of its wires comes from a directive
between two of them, and joins the nodes that are written there exactly if both numbers
are short.
-/
theorem connections_by_lower_bits {settings : Settings} {registry : Registry κ}
    {before after : List (Happening κ)} {e₀ e₁ e : Engine κ} {text : String}
    (hBefore : Run (.new settings registry) before e₀)
    (hLoad : e₀.load text = (.ok (), e₁)) (hAfter : Run e₁ after e) :
    (∀ (g : Graph κ) (source outlet sink inlet : Nat),
      (g.Refuses source outlet sink inlet ↔
        ¬g.Joinable (nodeIndex source) outlet (nodeIndex sink) inlet) ∧
      (g.size ≤ nodeIndex source ∨ g.size ≤ nodeIndex sink →
        g.Refuses source outlet sink inlet) ∧
      (source < twoTo 32 → sink < twoTo 32 → g.size ≤ source ∨ g.size ≤ sink →
        g.Refuses source outlet sink inlet)) ∧
    (∀ (done rest : List (Except Error Statement)) (s : Statement)
        (source outlet sink inlet : Nat), Patch.read text = done ++ .ok s :: rest →
      s.directive = .connect source outlet sink inlet →
        (e₀.reading done).engine.graph.size = created (legible done) ∧
        (e₀.reading (done ++ [.ok s])).engine.graph =
          ((e₀.reading done).engine.graph.connectInPlace source outlet sink inlet).2) ∧
    ∀ w ∈ e.graph.wires, ∃ done s later source sink,
      legible (Patch.read text) = done ++ s :: later ∧
        s.directive = .connect source w.outlet sink w.inlet ∧
        w.source = nodeIndex source ∧ w.sink = nodeIndex sink ∧
        w.source < created done ∧ w.sink < created done ∧
        (w.source = source ∧ w.sink = sink ↔ source < twoTo 32 ∧ sink < twoTo 32) := by
  obtain ⟨hGraph, -, -, hRegistry⟩ := empty_of_run hBefore
  have hReading := assembled_reading hGraph hRegistry
  refine ⟨fun g source outlet sink inlet => ⟨Graph.refuses_iff, Graph.refuses_of_missing, ?_⟩,
    fun done rest s source outlet sink inlet _ hDirective => ⟨(hReading done).aligned.size, ?_⟩,
    fun w hw => ?_⟩
  · intro hSource hSink hMissing
    refine Graph.refuses_of_missing ?_
    rwa [nodeIndex_eq_self_iff.mpr hSource, nodeIndex_eq_self_iff.mpr hSink]
  · rw [reading_concat]
    exact graph_apply_connect _ hDirective
  · have hAligned := (hReading (Patch.read text)).aligned.like
      ((lasts_load hLoad).graph.trans hAfter.lasts.graph)
    obtain ⟨done, s, later, source, sink, hSplit, hDirective, hSource, hSink, hRest⟩ :=
      hAligned.wires w hw
    refine ⟨done, s, later, source, sink, hSplit, hDirective, hSource, hSink, hRest.1, hRest.2, ?_⟩
    rw [hSource, hSink, nodeIndex_eq_self_iff, nodeIndex_eq_self_iff]

/-- Two connections, one of which names no node by its lower bits either. -/
def narrowPatch : String :=
  "#X obj 0 0 f;\n#X obj 0 0 print;\n#X connect 0 0 4294967298 0;\n#X connect 0 0 1 0;\n"

theorem connections_by_lower_bits_narrow : ∃ loaded : Engine Empty,
    (Engine.new .standard .builtin : Engine Empty).load narrowPatch = (.ok (), loaded) ∧
      loaded.graph.wires = [⟨0, 0, 1, 0, .message⟩] ∧
      loaded.graph.Refuses 0 0 4294967298 0 ∧
      (⟨0, 0, 1, 0, .message⟩ : Wire).Asked (legible (Patch.read narrowPatch)) := by
  have hFacts : ((Engine.new .standard .builtin : Engine Empty).build
      (Patch.read narrowPatch)).graph.wires = [⟨0, 0, 1, 0, .message⟩] ∧
      ((Engine.new .standard .builtin : Engine Empty).build
        (Patch.read narrowPatch)).graph.casings.length = 2 := by
    decide +kernel
  obtain ⟨hWires, hNodes⟩ := hFacts
  have hForward : ∀ w ∈ ((Engine.new .standard .builtin : Engine Empty).build
      (Patch.read narrowPatch)).graph.wires, w.rate = .signal → w.source < w.sink := by
    simp [hWires]
  obtain ⟨loaded, hLoad⟩ := loads_of_forward (by decide +kernel) hForward
  have hLike := (lasts_load hLoad).graph
  have hSize : loaded.graph.size = 2 := by
    rw [← Graph.length_casings, hLike.casings]
    exact hNodes
  have hLoaded : loaded.graph.wires = [⟨0, 0, 1, 0, .message⟩] := hLike.wires.trans hWires
  obtain ⟨hConnect, -, hAsked⟩ := connections_by_lower_bits .start hLoad .start
  refine ⟨loaded, hLoad, hLoaded, (hConnect loaded.graph 0 0 4294967298 0).2.1 (.inr ?_), ?_⟩
  · rw [hSize]
    decide
  · obtain ⟨done, s, later, source, sink, hSplit, hDirective, hSource, hSink, hFrom, hTo, -⟩ :=
      hAsked ⟨0, 0, 1, 0, .message⟩ (by simp [hLoaded])
    exact ⟨done, s, later, source, sink, hSplit, hDirective, hSource, hSink, hFrom, hTo⟩

end Engine

end Patchbay
