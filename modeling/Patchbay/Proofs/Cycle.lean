import Patchbay.Proofs.Search
import Patchbay.Proofs.Wiring

/-
A graph is set up exactly if its signal wires form no circle.

Both directions rest on what the two searches find.  A node that is reported leads to
itself, either by a wire of its own or by the argument on the order of leaving.  And
where nothing is reported, that order ranks the nodes so that every signal wire leads
to a higher rank, which leaves no room for a circle.  The ranks are kept as a result of
their own, because they are also what a frame is computed by.

Message wires do not enter: they are no arcs.
-/

namespace Patchbay

namespace Graph

variable {κ : Type} {g : Graph κ}

/-- A signal wire leads from one node to the other. -/
def SignalWire (g : Graph κ) (source sink : Nat) : Prop :=
  ∃ w ∈ g.wires, w.rate = .signal ∧ w.source = source ∧ w.sink = sink

/-- Signal wires lead from a node back to itself. -/
def OnSignalCycle (g : Graph κ) (n : Nat) : Prop :=
  Relation.TransGen g.SignalWire n n

theorem step_signalArcs {source sink : Nat} :
    g.signalArcs.Step source sink ↔ g.SignalWire source sink := by
  simp [Arcs.Step, signalArcs, SignalWire, and_assoc]

theorem leads_signalArcs (n m : Nat) :
    g.signalArcs.Leads n m ↔ Relation.TransGen g.SignalWire n m := by
  have hSame : g.signalArcs.Step = g.SignalWire := by
    funext source sink
    exact propext step_signalArcs
  rw [Arcs.Leads, hSame]

theorem WellWired.signalInRange (h : g.WellWired) {source sink : Nat}
    (hWire : g.SignalWire source sink) : source < g.size ∧ sink < g.size := by
  obtain ⟨w, hw, -, rfl, rfl⟩ := hWire
  exact ⟨h.sourceInRange hw, h.sinkInRange w hw⟩

theorem WellWired.arcsInRange (h : g.WellWired) :
    ∀ a b, g.signalArcs.Step a b → b < g.size := fun _ _ hStep =>
  (h.signalInRange (step_signalArcs.mp hStep)).2

/-- A node that the check reports is on a circle. -/
theorem onSignalCycle_of_signalCycle? (h : g.WellWired) {n : Nat}
    (hFound : g.signalCycle? = some n) : g.OnSignalCycle n := by
  unfold signalCycle? at hFound
  split at hFound
  · rename_i a hLoop
    obtain rfl := Option.some.inj hFound
    have hEq : a.1 = a.2 := by simpa using List.find?_some hLoop
    have hStep : g.signalArcs.Step a.1 a.1 := by
      show (a.1, a.1) ∈ g.signalArcs
      rw [show (a.1, a.1) = a from Prod.ext rfl hEq]
      exact List.mem_of_find?_eq_some hLoop
    exact .single (step_signalArcs.mp hStep)
  · exact (leads_signalArcs n n).mp (Arcs.leads_of_cycleNode? h.arcsInRange hFound)

/-- Nodes can be ranked so that every signal wire leads to a higher rank. -/
def Ranked (g : Graph κ) (rank : Nat → Nat) : Prop :=
  (∀ source sink, g.SignalWire source sink → rank source < rank sink) ∧
    ∀ n < g.size, rank n < g.size

/-- Where the check reports nothing, the order in which its search leaves the nodes ranks them. -/
theorem exists_ranked (h : g.WellWired) (hNone : g.signalCycle? = none) :
    ∃ rank, g.Ranked rank := by
  unfold signalCycle? at hNone
  split at hNone
  · simp at hNone
  · rename_i hNoLoop
    refine ⟨(g.signalArcs.finishOrder g.size).idxOf, fun source sink hWire => ?_, fun n hn =>
      Arcs.idxOf_finishOrder_lt h.arcsInRange hn⟩
    have hStep := step_signalArcs.mpr hWire
    have hne : source ≠ sink := by
      rintro rfl
      simpa using List.find?_eq_none.mp hNoLoop _ hStep
    exact Arcs.idxOf_lt_of_cycleNode?_eq_none h.arcsInRange hNone hStep
      (h.signalInRange hWire).1 hne

/-- Ranked nodes are on no circle. -/
theorem Ranked.not_onSignalCycle {rank : Nat → Nat} (h : g.Ranked rank) (n : Nat) :
    ¬g.OnSignalCycle n := by
  intro hCycle
  have hLess : ∀ m, Relation.TransGen g.SignalWire n m → rank n < rank m := by
    intro m hm
    induction hm with
    | single hWire => exact h.1 _ _ hWire
    | tail _ hWire ih => exact Nat.lt_trans ih (h.1 _ _ hWire)
  exact Nat.lt_irrefl _ (hLess n hCycle)

/-- What setting up in place comes to, by what the check reports. -/
theorem setupInPlace_eq (g : Graph κ) :
    (∃ n, g.signalCycle? = some n ∧ g.setupInPlace = (.error (.signalCycle n), g)) ∨
      (g.signalCycle? = none ∧ ∃ resolved, g.setup = .ok resolved ∧
        g.setupInPlace = (.ok (), resolved)) := by
  unfold setupInPlace setup
  cases g.signalCycle? with
  | some n => exact .inl ⟨n, rfl, rfl⟩
  | none => exact .inr ⟨rfl, _, rfl, rfl⟩

/--
**A graph is set up exactly if its signal wires form no circle.**  Otherwise the node
that the error names is on a circle, and the graph stays what it was.
-/
theorem setup_refuses_exactly_cycles (h : g.Built) :
    (g.setupInPlace.1 = .ok () ↔ ∀ n, ¬g.OnSignalCycle n) ∧
      ∀ fault, g.setupInPlace.1 = .error fault →
        (∃ n, fault = .signalCycle n ∧ g.OnSignalCycle n) ∧ g.setupInPlace.2 = g := by
  rcases g.setupInPlace_eq with ⟨n, hFound, hSetup⟩ | ⟨hNone, resolved, -, hSetup⟩
  · have hCycle := onSignalCycle_of_signalCycle? h.wellWired hFound
    rw [hSetup]
    refine ⟨⟨fun hOk => by simp at hOk, fun hNo => absurd hCycle (hNo n)⟩, ?_⟩
    intro fault hFault
    obtain rfl := Except.error.inj hFault
    exact ⟨⟨n, rfl, hCycle⟩, rfl⟩
  · obtain ⟨rank, hRank⟩ := exists_ranked h.wellWired hNone
    rw [hSetup]
    exact ⟨⟨fun _ => hRank.not_onSignalCycle, fun _ => rfl⟩, fun fault hFault => by simp at hFault⟩

/-! ### Two boxes that feed each other -/

/-- Two adders, with these wires between them. -/
def twoAdders (wires : List Wire) : Graph Empty :=
  let adder : Node Empty :=
    .new "+~" [] ⟨0, 0⟩ false [.signal, .signal] [.signal] (.signalBinop ⟨.add⟩) 1
  ⟨#[adder, adder], [], wires, wires.reverse⟩

def wireThere : Wire := ⟨0, 0, 1, 0, .signal⟩

def wireBack : Wire := ⟨1, 0, 0, 1, .signal⟩

theorem built_twoAdders : (twoAdders [wireThere, wireBack]).Built := by
  have hNodes : (twoAdders []).Built := (Built.empty.addNode _).addNode _
  have hThere : (twoAdders []).connect 0 0 1 0 =
      .ok (.signal, twoAdders [wireThere], (twoAdders []).wireEntries wireThere 0 0 1 0) := rfl
  have hBack : (twoAdders [wireThere]).connect 1 0 0 1 =
      .ok (.signal, twoAdders [wireThere, wireBack],
        (twoAdders [wireThere]).wireEntries wireBack 1 0 0 1) := rfl
  exact (hNodes.connect hThere).connect hBack

theorem setup_refuses_twoAdders :
    (twoAdders [wireThere, wireBack]).Built ∧
      ∃ n, (twoAdders [wireThere, wireBack]).OnSignalCycle n ∧
        (twoAdders [wireThere, wireBack]).setupInPlace =
          (.error (.signalCycle n), twoAdders [wireThere, wireBack]) := by
  have hSetup := setup_refuses_exactly_cycles built_twoAdders
  have hCycle : (twoAdders [wireThere, wireBack]).OnSignalCycle 0 := by
    refine .tail (b := 1) (.single ⟨wireThere, ?_, rfl, rfl, rfl⟩) ⟨wireBack, ?_, rfl, rfl, rfl⟩
    · simp [twoAdders]
    · simp [twoAdders]
  cases hResult : (twoAdders [wireThere, wireBack]).setupInPlace.1 with
  | ok u => exact absurd hCycle (hSetup.1.mp hResult 0)
  | error fault =>
      obtain ⟨⟨n, rfl, hn⟩, hGraph⟩ := hSetup.2 fault hResult
      exact ⟨built_twoAdders, n, hn, Prod.ext hResult hGraph⟩

end Graph

end Patchbay
