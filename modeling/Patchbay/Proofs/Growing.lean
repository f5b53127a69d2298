import Patchbay.Proofs.Landing
import Patchbay.Proofs.Numbering

/-
How far placeholders grow.

A placeholder takes a wire into any inlet and grows until it has that inlet.  How many inlets
this takes is one more than the number of the inlet, and it is counted in sixty-four bits, as
are the numbers that a patch may write.  So the last inlet of all cannot be had.  A connection to
it is not refused like one to an inlet that another box has not got: the count overflows, and
the program stops in the middle of the load.  Every connection that is made ends at an inlet
that is there and takes none away.

`Overflows` is the one case, `Refuses` and `Reaches` are what holds in the others, and
`connectInPlace_cases` tells the three apart whatever was connected before.
`getsThrough_eq_false_iff` is the run: a load stops at an overflow exactly if it gets to a
connection that overflows, and until then all wires end at inlets that are there.

Data of a table has no such case.  It ends at a sum of two numbers that may be too large to
count, but it is only taken if it ends within the table, and tables are short.
-/

namespace Patchbay

/-! ### Numbers in a patch -/

/-- The numbers that a directive counts with. -/
def Directive.numbers : Directive → List Nat
  | .array _ size _ => [size]
  | .connect source outlet sink inlet => [source, outlet, sink, inlet]
  | .fill start _ => [start]
  | _ => []

namespace Patch

theorem lt_of_index {line : Nat} {token : String} {n : Nat} (h : index line token = .ok n) :
    n < indexLimit := by
  unfold index at h
  split at h
  · rename_i m hRead
    obtain rfl := Except.ok.inj h
    simp only [readIndex?, Option.ite_none_left_eq_some, Option.ite_none_right_eq_some,
      Option.some.injEq] at hRead
    obtain ⟨-, hLess, hValue⟩ := hRead
    exact hValue ▸ hLess
  · simp at h

/-- All numbers that can be read have sixty-four bits. -/
theorem numbers_lt_of_readDirective {line : Nat} {tokens : List String} {d : Directive}
    (h : readDirective line tokens = .ok d) : ∀ n ∈ d.numbers, n < indexLimit := by
  unfold readDirective at h
  split at h
  case h_4 =>
    obtain ⟨size, hSize, h⟩ := bind_eq_ok.mp h
    split at h
    · simp at h
    · cases h
      simp [Directive.numbers, lt_of_index hSize]
  case h_7 =>
    obtain ⟨source, hSource, h⟩ := bind_eq_ok.mp h
    obtain ⟨outlet, hOutlet, h⟩ := bind_eq_ok.mp h
    obtain ⟨sink, hSink, h⟩ := bind_eq_ok.mp h
    obtain ⟨inlet, hInlet, h⟩ := bind_eq_ok.mp h
    cases h
    simp [Directive.numbers, lt_of_index hSource, lt_of_index hOutlet, lt_of_index hSink,
      lt_of_index hInlet]
  case h_9 =>
    obtain ⟨values, -, h⟩ := bind_eq_ok.mp h
    obtain ⟨start, hStart, h⟩ := bind_eq_ok.mp h
    cases h
    simp [Directive.numbers, lt_of_index hStart]
  case h_1 =>
    obtain ⟨position, -, h⟩ := bind_eq_ok.mp h
    split at h <;> cases h <;> simp [Directive.numbers]
  case h_2 | h_3 =>
    obtain ⟨position, -, h⟩ := bind_eq_ok.mp h
    cases h
    simp [Directive.numbers]
  case h_6 | h_11 =>
    cases h
    simp [Directive.numbers]
  case h_5 | h_8 | h_10 => cases h

theorem numbers_lt_of_mem_read {source : String} {s : Statement} (hs : .ok s ∈ read source) :
    ∀ n ∈ s.directive.numbers, n < indexLimit := by
  obtain ⟨line, tokens, hRead⟩ := exists_readDirective hs
  exact numbers_lt_of_readDirective hRead

end Patch

namespace Graph

variable {κ : Type} {g g' : Graph κ} {source outlet sink inlet : Nat}

/-! ### Connections that grow too far -/

/-- The outlet is there, and to have the inlet, the sink would need more inlets than can be
counted. -/
structure Overflows (g : Graph κ) (source outlet sink inlet : Nat) : Prop where
  outlet : ∃ n, g.nodes[nodeIndex source]? = some n ∧ outlet < n.outlets.length
  lacking : ∃ n, g.nodes[nodeIndex sink]? = some n ∧ n.inlets.size ≤ inlet ∧
    n.object.isPlaceholder = true
  beyond : twoTo 64 ≤ inlet + 1

theorem overflows_eq_true_iff : g.overflows source outlet sink inlet = true ↔
    g.Overflows source outlet sink inlet := by
  rw [overflows_iff, isOk_outletRate, reachInlet_eq_overflow_iff, Option.any_eq_true]
  simp only [decide_eq_true_eq]
  constructor
  · rintro ⟨hOutlet, n, hNode, hLacking, hNull, hBeyond⟩
    exact ⟨hOutlet, ⟨n, hNode, hLacking, hNull⟩, hBeyond⟩
  · rintro ⟨hOutlet, ⟨n, hNode, hLacking, hNull⟩, hBeyond⟩
    exact ⟨hOutlet, n, hNode, hLacking, hNull, hBeyond⟩

/-- A connection that overflows changes nothing. -/
theorem Overflows.connectInPlace (h : g.Overflows source outlet sink inlet) :
    g.connectInPlace source outlet sink inlet = (.error .overflow, g) := by
  obtain ⟨hRate, hReach⟩ := overflows_iff.mp (overflows_eq_true_iff.mpr h)
  unfold Graph.connectInPlace
  cases hOutlet : g.outletRate source outlet with
  | error fault => simp [hOutlet, Except.isOk, Except.toBool] at hRate
  | ok rate => simp only [hReach]

/-- Stopping is not refusing. -/
theorem Overflows.not_refuses (h : g.Overflows source outlet sink inlet) :
    ¬g.Refuses source outlet sink inlet := by
  rintro ⟨fault, hFault, hRefused⟩
  cases h.connectInPlace.symm.trans hRefused
  exact hFault rfl

/-- What becomes of the inlets if a sink has an inlet or grows until it has it. -/
structure Reaches (g g' : Graph κ) (sink inlet : Nat) : Prop where
  there : inlet < g'.inletCount (nodeIndex sink)
  /-- Every inlet is where it was. -/
  kept : ∀ (node : Nat) (n : Node κ), g.nodes[node]? = some n →
    ∃ n', g'.nodes[node]? = some n' ∧
      ∀ (i : Nat) (slot : InletSlot), n.inlets[i]? = some slot → n'.inlets[i]? = some slot
  /-- The wires that ended at an inlet still do. -/
  landed : ∀ w ∈ g.wires, w.inlet < g.inletCount w.sink → w.inlet < g'.inletCount w.sink

/-- The sink has not got the inlet, and nothing is done about it. -/
theorem Overflows.not_reaches (h : g.Overflows source outlet sink inlet) :
    ¬g.Reaches g sink inlet := by
  intro hReaches
  obtain ⟨n, hNode, hLacking, -⟩ := h.lacking
  have hThere := hReaches.there
  rw [inletCount_of_node hNode] at hThere
  exact Nat.not_lt_of_le hLacking hThere

theorem inletCount_putWire (g : Graph κ) (w : Wire) (node : Nat) :
    (g.putWire w).inletCount node = g.inletCount node := by
  rw [inletCount, inletCount, nodes_putWire]

theorem Reaches.putWire {grown : Graph κ} (h : g.Reaches grown sink inlet) (w : Wire) :
    g.Reaches (grown.putWire w) sink inlet := by
  refine ⟨?_, ?_, ?_⟩
  · rw [inletCount_putWire]
    exact h.there
  · rw [nodes_putWire]
    exact h.kept
  · simp only [inletCount_putWire]
    exact h.landed

/-- An inlet that is there is reached as it is, and growing takes no inlet away. -/
theorem Reaches.of_reachInlet {grown : Graph κ} (hReach : g.reachInlet sink inlet = .ok grown) :
    g.Reaches grown sink inlet := by
  obtain ⟨hThere, hMore⟩ := inletCount_grows hReach
  refine ⟨hThere, fun node m hNode => ?_, fun w _ hw => Nat.lt_of_lt_of_le hw (hMore w.sink)⟩
  obtain ⟨k, hGrown, ⟨-, rfl⟩ | ⟨-, -, rfl⟩⟩ := reachInlet_grows hReach
  · exact ⟨m, hNode, fun i slot hSlot => hSlot⟩
  · rw [getElem?_modifyNode]
    split
    · rename_i hSame
      obtain rfl := Option.some.inj (hGrown.symm.trans (hSame ▸ hNode))
      refine ⟨grownNode k inlet, by rw [hNode]; rfl, fun i slot hSlot => ?_⟩
      have hOld : i < k.inlets.size := (Array.getElem?_eq_some_iff.mp hSlot).1
      rw [grownNode, Array.getElem?_append_left hOld]
      exact hSlot
    · exact ⟨m, hNode, fun i slot hSlot => hSlot⟩

theorem mem_wires_putWire_self (g : Graph κ) (w : Wire) : w ∈ (g.putWire w).wires := by
  unfold putWire
  split <;> exact List.mem_append_right _ (List.mem_singleton_self w)

/-- **A connection is refused, reaches its inlet, or overflows**, and nothing else can happen. -/
theorem connectInPlace_cases (g : Graph κ) (source outlet sink inlet : Nat) :
    (∃ fault, fault ≠ .overflow ∧ g.connect source outlet sink inlet = .error fault ∧
      g.connectInPlace source outlet sink inlet = (.error fault, g)) ∨
    (∃ rate g', g.connectInPlace source outlet sink inlet = (.ok rate, g') ∧
      ⟨nodeIndex source, outlet, nodeIndex sink, inlet, rate⟩ ∈ g'.wires ∧
        g.Reaches g' sink inlet) ∨
    g.Overflows source outlet sink inlet ∧ g.connect source outlet sink inlet = .error .overflow ∧
      g.connectInPlace source outlet sink inlet = (.error .overflow, g) := by
  rw [connectInPlace_eq]
  cases hConnect : g.connect source outlet sink inlet with
  | ok made =>
      obtain ⟨rate, g', entries⟩ := made
      obtain ⟨grown, -, hReach, rfl⟩ := connect_eq_ok hConnect
      exact .inr (.inl ⟨rate, _, rfl, mem_wires_putWire_self grown _,
        (Reaches.of_reachInlet hReach).putWire _⟩)
  | error fault =>
      by_cases hFault : fault = .overflow
      · subst hFault
        exact .inr (.inr ⟨overflows_eq_true_iff.mp (by rw [overflows, hConnect]), rfl, rfl⟩)
      · exact .inl ⟨fault, hFault, rfl, rfl⟩

end Graph

/-! ### While a patch is loaded -/

namespace Engine

variable {κ : Type} [CustomKind κ] {e : Engine κ}

/-- What carrying out a connection comes to. -/
inductive Connects (b b' : Build κ) (line source outlet sink inlet : Nat) : Prop
  | refused (fault : WireFault) (hFault : fault ≠ .overflow)
      (hRefused : b.engine.graph.connectInPlace source outlet sink inlet =
        (.error fault, b.engine.graph))
      (hLogged : b' = { b with
        engine := b.engine.log
          [.warn (Error.malformed line (.refusedWire source outlet sink inlet fault)).message] })
  | accepted (rate : Rate)
      (hAccepted : b.engine.graph.connectInPlace source outlet sink inlet =
        (.ok rate, b'.engine.graph))
      (hWire : ⟨nodeIndex source, outlet, nodeIndex sink, inlet, rate⟩ ∈ b'.engine.graph.wires)
      (hReaches : b.engine.graph.Reaches b'.engine.graph sink inlet)
  /-- The program stops, and nothing has been done. -/
  | overflowed (hOverflows : b.engine.graph.Overflows source outlet sink inlet)
      (hLast : inlet + 1 = twoTo 64) (hSame : b' = b)

theorem connects_apply (b : Build κ) {s : Statement} {source outlet sink inlet : Nat}
    (hDirective : s.directive = .connect source outlet sink inlet) (hInlet : inlet < twoTo 64) :
    Connects b (apply b s) s.line source outlet sink inlet := by
  have hGraph := graph_apply_connect b hDirective
  rcases b.engine.graph.connectInPlace_cases source outlet sink inlet with
    ⟨fault, hFault, hRefused, hInPlace⟩ | ⟨rate, g', hAccepted, hWire, hReaches⟩ |
      ⟨hOverflows, hStopped, -⟩
  · refine .refused fault hFault hInPlace ?_
    rw [apply, hDirective]
    simp only [connect_of_refused hRefused hFault]
  · obtain rfl : (apply b s).engine.graph = g' := by rw [hGraph, hAccepted]
    exact .accepted rate hAccepted hWire hReaches
  · refine .overflowed hOverflows (Nat.le_antisymm hInlet hOverflows.beyond) ?_
    rw [apply, hDirective]
    simp only [connect, hStopped]

/-- The program gets as far as a connection that overflows. -/
def OverflowsAfter (e : Engine κ) (read done : List (Except Error Statement)) : Prop :=
  ∃ s rest source outlet sink inlet, read = done ++ .ok s :: rest ∧
    s.directive = .connect source outlet sink inlet ∧
      (e.reading done).engine.graph.Overflows source outlet sink inlet

/-- **The program gets through what is read, or gets to a connection that overflows.** -/
theorem getsThrough_eq_false_iff {read : List (Except Error Statement)} :
    e.getsThrough read = false ↔ ∃ done, e.OverflowsAfter read done := by
  constructor
  · intro hStopped
    obtain ⟨done, r, rest, hSplit, -, hStops⟩ := exists_stop hStopped
    obtain ⟨s, source, outlet, sink, inlet, rfl, hDirective, hOverflows⟩ := stopsAt_iff.mp hStops
    exact ⟨done, s, rest, source, outlet, sink, inlet, hSplit, hDirective,
      Graph.overflows_eq_true_iff.mp hOverflows⟩
  · rintro ⟨done, s, rest, source, outlet, sink, inlet, rfl, hDirective, hOverflows⟩
    refine Bool.eq_false_iff.mpr fun hThrough => ?_
    have hGoes := (stopsAt_of_getsThrough hThrough).2
    rw [stopsAt_iff.mpr ⟨s, source, outlet, sink, inlet, rfl, hDirective,
      Graph.overflows_eq_true_iff.mpr hOverflows⟩] at hGoes
    cases hGoes

/-- A load that stops leaves what was built before the first connection that overflows. -/
theorem load_of_overflow (hUnloaded : e.loaded = false) {text : String}
    (hOverflow : (e.load text).1 = .error .overflow) :
    ∃ done, e.OverflowsAfter (Patch.read text) done ∧
      e.load text = (.error .overflow, (e.reading done).engine) := by
  rcases loadRead_cases hUnloaded (Patch.read text) with
    ⟨-, hFinish⟩ | ⟨-, done, r, rest, hSplit, -, hStops, hStopped⟩
  · rw [load, hFinish] at hOverflow
    exact absurd hOverflow (finish_ne_overflow _)
  · obtain ⟨s, source, outlet, sink, inlet, rfl, hDirective, hOverflows⟩ := stopsAt_iff.mp hStops
    exact ⟨done, ⟨s, rest, source, outlet, sink, inlet, hSplit, hDirective,
      Graph.overflows_eq_true_iff.mp hOverflows⟩, hStopped⟩

/-- **A load stops exactly if it gets to a connection that overflows.** -/
theorem load_overflows_iff (hUnloaded : e.loaded = false) (text : String) :
    (e.load text).1 = .error .overflow ↔ ∃ done, e.OverflowsAfter (Patch.read text) done := by
  refine ⟨fun hOverflow => ?_, fun hAfter => ?_⟩
  · obtain ⟨done, hAfter, -⟩ := load_of_overflow hUnloaded hOverflow
    exact ⟨done, hAfter⟩
  · exact loadRead_of_stopped hUnloaded (getsThrough_eq_false_iff.mpr hAfter)

/-- What carrying out data of a table comes to. -/
inductive Fills (b b' : Build κ) (line start : Nat) (values : List Float32) : Prop
  | refused (fault : Error)
      (hRefused : b.engine.fillTable line b.openTable start values = .error fault)
      (hLogged : b' = { b with engine := b.engine.log [.error fault.message] })
  | taken (name : String) (t t' : Table) (hOpen : b.openTable = some name)
      (hThere : b.engine.tables.get? name = some t) (hWrite : t.write start values = .ok t')
      (hTables : b'.engine.tables = b.engine.tables.insert name t')
      (hFits : start + values.length ≤ t.size) (hCounted : start + values.length < twoTo 64)

theorem fills_apply (b : Build κ)
    (hShort : ∀ name t, b.engine.tables.get? name = some t → t.size ≤ maxTableSize)
    {s : Statement} {start : Nat} {values : List Float32}
    (hDirective : s.directive = .fill start values) :
    Fills b (apply b s) s.line start values := by
  rw [apply, hDirective]
  cases hFill : b.engine.fillTable s.line b.openTable start values with
  | error fault => exact .refused fault hFill (by simp only [hFill])
  | ok tables =>
      obtain ⟨name, t, t', hOpen, hThere, hWrite, rfl⟩ := fillTable_eq_ok hFill
      obtain ⟨hFits, -, -⟩ := toList_write hWrite
      have hCounted : start + values.length < twoTo 64 :=
        Nat.lt_of_le_of_lt (Nat.le_trans hFits (hShort name t hThere)) (by decide)
      exact .taken name t t' hOpen hThere hWrite (by simp only [hFill]) hFits hCounted

/--
**Whatever a patch connects is refused, reaches its inlet, or stops the load.**  All numbers in a
patch that can be read have sixty-four bits.  A connection is refused and noted, or its wire is put
in; then the inlet is there, every inlet stays where it was, and no wire loses the inlet that it
ends at.  The one exception is the last inlet of all at a placeholder that has not got it: this
overflows and changes nothing.  A load stops exactly if it gets to such a connection, with what it
has built by then, and so it does not if no number of an inlet is the last of all.  At every point
of the patch, all wires end at inlets that are there.  Data is refused and noted, or it ends
within its table, at a place that can be counted.
-/
theorem loading_reaches_inlets {settings : Settings} {registry : Registry κ}
    {before : List (Happening κ)} (hBefore : Run (.new settings registry) before e)
    (text : String) :
    (∀ done s rest, Patch.read text = done ++ .ok s :: rest →
      (∀ n ∈ s.directive.numbers, n < twoTo 64) ∧
      (∀ source outlet sink inlet, s.directive = .connect source outlet sink inlet →
        Connects (e.reading done) (e.reading (done ++ [.ok s])) s.line source outlet sink inlet) ∧
      (∀ start values, s.directive = .fill start values →
        Fills (e.reading done) (e.reading (done ++ [.ok s])) s.line start values)) ∧
    (∀ done rest, Patch.read text = done ++ rest → (e.reading done).engine.graph.Landed) ∧
    ((e.load text).1 = .error .overflow ↔ ∃ done, e.OverflowsAfter (Patch.read text) done) ∧
    ((e.load text).1 = .error .overflow → ∃ done, e.OverflowsAfter (Patch.read text) done ∧
      e.load text = (.error .overflow, (e.reading done).engine)) ∧
    ((∀ s, .ok s ∈ Patch.read text → ∀ source outlet sink inlet,
        s.directive = .connect source outlet sink inlet → inlet + 1 < twoTo 64) →
      (e.load text).1 ≠ .error .overflow) := by
  obtain ⟨hGraph, hTables, -⟩ := empty_of_run hBefore
  have hUnloaded : e.loaded = false := hBefore.tale.steady.loaded
  refine ⟨fun done s rest hSplit => ?_,
    fun done _ _ => (assembled_reading hGraph rfl done).built.landed,
    load_overflows_iff hUnloaded text, load_of_overflow hUnloaded, fun hSmall hOverflow => ?_⟩
  · have hMem : .ok s ∈ Patch.read text := by simp [hSplit]
    have hNumbers := Patch.numbers_lt_of_mem_read hMem
    refine ⟨hNumbers, fun source outlet sink inlet hDirective => ?_,
      fun start values hDirective => ?_⟩
    · rw [reading_concat]
      exact connects_apply _ hDirective (hNumbers inlet (by simp [hDirective, Directive.numbers]))
    · rw [reading_concat]
      exact fills_apply _ (midway_reading hTables hSplit).short hDirective
  · obtain ⟨done, s, rest, source, outlet, sink, inlet, hSplit, hDirective, hOverflows⟩ :=
      (load_overflows_iff hUnloaded text).mp hOverflow
    have hInlet := hSmall s (by simp [hSplit]) source outlet sink inlet hDirective
    exact Nat.not_lt_of_le hOverflows.beyond hInlet

/-- A placeholder that grows, a connection that it grew far enough for, and data. -/
def growingPatch : String :=
  "#X obj 0 0 f;\n#X obj 0 0 f;\n#X obj 0 0;\n#X connect 0 0 2 3;\n#X connect 1 0 2 1;\n" ++
    "#X array t 4 float;\n#A 2 1 2;\n#X restore;\n"

theorem loading_reaches_inlets_growing :
    let e : Engine Empty := .new .standard .builtin
    (e.reading (Patch.read growingPatch)).engine.graph.inletCount 2 = 4 ∧
      (e.reading (Patch.read growingPatch)).engine.graph.wires =
        [⟨0, 0, 2, 3, .message⟩, ⟨1, 0, 2, 1, .message⟩] ∧
      (e.reading (Patch.read growingPatch)).engine.graph.Landed ∧
      (∀ s, .ok s ∈ Patch.read growingPatch → ∀ source outlet sink inlet,
        s.directive = .connect source outlet sink inlet → inlet + 1 < twoTo 64) ∧
      (e.load growingPatch).1 ≠ .error .overflow := by
  intro e
  have hFacts : (e.reading (Patch.read growingPatch)).engine.graph.inletCount 2 = 4 ∧
      (e.reading (Patch.read growingPatch)).engine.graph.wires =
        [⟨0, 0, 2, 3, .message⟩, ⟨1, 0, 2, 1, .message⟩] ∧
      ∀ s ∈ legible (Patch.read growingPatch), ∀ n ∈ s.directive.numbers, n < 5 := by
    decide +kernel
  obtain ⟨hInlets, hWires, hNumbers⟩ := hFacts
  have hSmall : ∀ s, .ok s ∈ Patch.read growingPatch → ∀ source outlet sink inlet,
      s.directive = .connect source outlet sink inlet → inlet + 1 < twoTo 64 := by
    intro s hs source outlet sink inlet hDirective
    have hInlet := hNumbers s (mem_legible.mpr hs) inlet (by simp [hDirective, Directive.numbers])
    exact Nat.lt_of_lt_of_le (Nat.succ_lt_succ hInlet) (by decide)
  obtain ⟨-, hLanded, -, -, hLoads⟩ := loading_reaches_inlets (e := e) .start growingPatch
  exact ⟨hInlets, hWires, hLanded (Patch.read growingPatch) [] (List.append_nil _).symm, hSmall,
    hLoads hSmall⟩

/-- A connection to the last inlet of all, after another one to the same placeholder. -/
def lastInletPatch : String :=
  "#X obj 0 0 f;\n#X obj 0 0 f;\n#X obj 0 0;\n#X connect 0 0 2 0;\n" ++
    "#X connect 1 0 2 18446744073709551615;\n"

/-- Not every connection that a patch writes is refused or reaches its inlet: at the last inlet of
all the load stops. -/
theorem not_reaches_lastInlet :
    let e : Engine Empty := .new .standard .builtin
    (e.load lastInletPatch).1 = .error .overflow ∧
      ¬∀ (done : List (Except Error Statement)) (s : Statement)
          (rest : List (Except Error Statement)) (source outlet sink inlet : Nat),
        Patch.read lastInletPatch = done ++ .ok s :: rest →
          s.directive = .connect source outlet sink inlet →
            (e.reading done).engine.graph.Refuses source outlet sink inlet ∨
              (e.reading done).engine.graph.Reaches (e.reading (done ++ [.ok s])).engine.graph
                sink inlet := by
  intro e
  have hStopped : e.getsThrough (Patch.read lastInletPatch) = false := by decide +kernel
  refine ⟨loadRead_of_stopped rfl hStopped, fun hAll => ?_⟩
  obtain ⟨done, s, rest, source, outlet, sink, inlet, hSplit, hDirective, hOverflows⟩ :=
    getsThrough_eq_false_iff.mp hStopped
  have hSame : (e.reading (done ++ [.ok s])).engine.graph = (e.reading done).engine.graph := by
    rw [reading_concat, applyResult, graph_apply_connect _ hDirective, hOverflows.connectInPlace]
  rcases hAll done s rest source outlet sink inlet hSplit hDirective with hRefuses | hReaches
  · exact hOverflows.not_refuses hRefuses
  · exact hOverflows.not_reaches (hSame ▸ hReaches)

end Engine

end Patchbay
