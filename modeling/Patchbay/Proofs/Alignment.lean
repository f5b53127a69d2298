import Patchbay.Proofs.Lasting
import Patchbay.Proofs.Reading

/-
The nodes of a graph are the boxes of its patch.

A connection in a patch names boxes by counting them, so a node that is missing or that
comes twice would move every wire after it.  `written` counts as the patch does: the boxes
that its statements write, in order.  `Aligned` says that the nodes of a graph are these
boxes, that the endpoints are those whose kind is one, and that each wire comes from a
statement that connects two boxes written before it.

Reading keeps this statement by statement, whatever a registry makes of the kinds, and
nothing done later moves a box, an endpoint or a wire.

A connection counts in sixty-four bits, but nodes are numbered in thirty-two.  So a wire
joins the nodes that the lower bits stand for, which are the boxes that were written as long
as the numbers are not longer than that.
-/

namespace Patchbay

/-! ### What statements write -/

/-- The box that a directive writes. -/
def Directive.box? : Directive → Option Box
  | .object position kind args => some ⟨Engine.writtenKind kind, args, position⟩
  | .message position text => some ⟨"msg", text, position⟩
  | .comment position text => some ⟨"text", text, position⟩
  | .array name size args => some ⟨"table", name :: toString size :: args, ⟨0, 0⟩⟩
  | _ => none

theorem Directive.isSome_box? (d : Directive) : d.box?.isSome = d.createsNode := by
  cases d <;> rfl

/-- The boxes that some statements write, in order. -/
def written (statements : List Statement) : List Box :=
  statements.filterMap fun s => s.directive.box?

/-- How many nodes some statements create. -/
def created (statements : List Statement) : Nat :=
  statements.countP fun s => s.directive.createsNode

theorem written_append (statements later : List Statement) :
    written (statements ++ later) = written statements ++ written later :=
  List.filterMap_append

theorem length_written (statements : List Statement) :
    (written statements).length = created statements := by
  rw [written, List.length_filterMap_eq_countP, created]
  simp only [Directive.isSome_box?]

/-- A wire that some statement asks for, between two of the nodes created before it. -/
def Wire.Asked (w : Wire) (statements : List Statement) : Prop :=
  ∃ done s later source sink, statements = done ++ s :: later ∧
    s.directive = .connect source w.outlet sink w.inlet ∧
      w.source = nodeIndex source ∧ w.sink = nodeIndex sink ∧
        w.source < created done ∧ w.sink < created done

theorem Wire.Asked.append {w : Wire} {statements : List Statement} (h : w.Asked statements)
    (more : List Statement) : w.Asked (statements ++ more) := by
  obtain ⟨done, s, later, source, sink, rfl, hRest⟩ := h
  exact ⟨done, s, later ++ more, source, sink, by simp, hRest⟩

/-- A wire that some statement asks for by the numbers of the nodes themselves. -/
def Wire.Joins (w : Wire) (statements : List Statement) : Prop :=
  ∃ done s later source sink, statements = done ++ s :: later ∧
    s.directive = .connect source w.outlet sink w.inlet ∧
      source < created done ∧ sink < created done

/-- The node that a directive connects from, as it is written. -/
def Directive.source? : Directive → Option Nat
  | .connect source .. => some source
  | _ => none

/-- The node that a directive connects to, as it is written. -/
def Directive.sink? : Directive → Option Nat
  | .connect _ _ sink _ => some sink
  | _ => none

/-- Short numbers stand for themselves. -/
theorem Wire.Asked.joins {w : Wire} {statements : List Statement} (h : w.Asked statements)
    (hSource : ∀ s ∈ statements, ∀ n ∈ s.directive.source?, n < twoTo 32)
    (hSink : ∀ s ∈ statements, ∀ n ∈ s.directive.sink?, n < twoTo 32) :
    w.Joins statements := by
  obtain ⟨done, s, later, source, sink, rfl, hDirective, hFrom, hTo, hFromIn, hToIn⟩ := h
  have hs : s ∈ done ++ s :: later := List.mem_append_right _ List.mem_cons_self
  have hSourceShort := hSource s hs source (by rw [hDirective]; rfl)
  have hSinkShort := hSink s hs sink (by rw [hDirective]; rfl)
  rw [hFrom, nodeIndex, Nat.mod_eq_of_lt hSourceShort] at hFromIn
  rw [hTo, nodeIndex, Nat.mod_eq_of_lt hSinkShort] at hToIn
  exact ⟨done, s, later, source, sink, rfl, hDirective, hFromIn, hToIn⟩

/-! ### Kinds that nobody knows -/

/-- An object without any effect. -/
structure Object.Inert {κ : Type} [CustomKind κ] (o : Object κ) : Prop where
  init : ∀ scope, o.init scope = (o, [])
  process : ∀ scope inputs outputs, o.process scope inputs outputs = .buffers o outputs
  onMessage : ∀ scope arrival m, o.onMessage scope arrival m = (o, [])

theorem Object.inert_null {κ : Type} [CustomKind κ] : (.null : Object κ).Inert :=
  ⟨fun _ => rfl, fun _ _ _ => rfl, fun _ _ _ => rfl⟩

/-- A box that does nothing and that nothing comes out of. -/
structure Node.Inert {κ : Type} [CustomKind κ] (n : Node κ) : Prop where
  object : n.object.Inert
  outlets : n.outlets = []
  endpoint : n.endpoint = false

/-- The casing of a box of a kind that nobody knows. -/
def Casing.Blank (c : Casing) : Prop :=
  c.idle = true ∧ c.outlets = [] ∧ c.endpoint = false

theorem Casing.Blank.inert {κ : Type} [CustomKind κ] {n : Node κ} (h : n.casing.Blank) :
    n.Inert := by
  obtain ⟨hIdle, hOutlets, hEndpoint⟩ := h
  refine ⟨?_, hOutlets, hEndpoint⟩
  rw [Object.isPlaceholder_iff.mp hIdle]
  exact Object.inert_null

/-! ### Graphs that are as the statements say -/

namespace Registry

variable {κ : Type}

/-- Which of some boxes are endpoints, in ascending order. -/
def endpointsOf (registry : Registry κ) (boxes : List Box) : List Nat :=
  (List.range boxes.length).filter fun i =>
    boxes[i]?.any fun b => (registry.resolve b.kind).1.endpoint

theorem endpointsOf_concat (registry : Registry κ) (boxes : List Box) (b : Box) :
    registry.endpointsOf (boxes ++ [b]) = if (registry.resolve b.kind).1.endpoint then
      registry.endpointsOf boxes ++ [boxes.length] else registry.endpointsOf boxes := by
  have hOld : ∀ i ∈ List.range boxes.length,
      ((boxes ++ [b])[i]?.any fun b => (registry.resolve b.kind).1.endpoint) =
        boxes[i]?.any fun b => (registry.resolve b.kind).1.endpoint := by
    intro i hi
    rw [List.getElem?_append_left (List.mem_range.mp hi)]
  rw [endpointsOf, List.length_append, List.length_singleton, List.range_succ, List.filter_append,
    List.filter_congr hOld]
  split <;> simp [endpointsOf, *]

end Registry

/-- The nodes, the endpoints and the wires of a graph are those that some statements ask for. -/
structure Aligned {κ : Type} (registry : Registry κ) (statements : List Statement)
    (g : Graph κ) : Prop where
  boxes : g.boxes = written statements
  blank : ∀ c ∈ g.casings, registry.get? c.kind = none → c.Blank
  endpoints : g.endpoints = registry.endpointsOf (written statements)
  wires : ∀ w ∈ g.wires, w.Asked statements

namespace Aligned

variable {κ : Type} {registry : Registry κ} {statements : List Statement} {g g' : Graph κ}
  {s : Statement}

theorem empty : Aligned registry [] .empty :=
  ⟨rfl, fun _ h => (nomatch h), rfl, fun _ h => (nomatch h)⟩

theorem size (h : Aligned registry statements g) : g.size = created statements := by
  rw [← length_written, ← h.boxes, Graph.boxes, List.length_map, Graph.length_casings]

theorem getElem?_boxes (h : Aligned registry statements g) (i : Nat) :
    g.nodes[i]?.map Node.box = (written statements)[i]? := by
  rw [← h.boxes, Graph.getElem?_boxes]

theorem inert [CustomKind κ] (h : Aligned registry statements g) {i : Nat} {n : Node κ}
    (hNode : g.nodes[i]? = some n) (hUnknown : registry.get? n.kind = none) : n.Inert := by
  have hCasing : g.casings[i]? = some n.casing := by rw [Graph.getElem?_casings, hNode]; rfl
  exact (h.blank n.casing (List.mem_of_getElem? hCasing) hUnknown).inert

theorem mem_endpoints (h : Aligned registry statements g) {i : Nat} : i ∈ g.endpoints ↔
    ∃ n, g.nodes[i]? = some n ∧ (registry.resolve n.kind).1.endpoint = true := by
  have hNode := h.getElem?_boxes i
  rw [h.endpoints, Registry.endpointsOf, List.mem_filter, List.mem_range, ← hNode]
  constructor
  · rintro ⟨-, hAny⟩
    rw [Option.any_map] at hAny
    exact (Option.any_eq_true _ _).mp hAny
  · rintro ⟨n, hSome, hEndpoint⟩
    rw [hSome] at hNode ⊢
    exact ⟨(List.getElem?_eq_some_iff.mp hNode.symm).1, hEndpoint⟩

theorem pairwise_endpoints (h : Aligned registry statements g) : g.endpoints.Pairwise (· < ·) := by
  rw [h.endpoints]
  exact List.pairwise_lt_range.filter _

/-- It only depends on what lasts. -/
theorem like (h : Aligned registry statements g) (hLike : g.Like g') :
    Aligned registry statements g' := by
  refine ⟨?_, ?_, hLike.endpoints.trans h.endpoints, ?_⟩
  · rw [Graph.boxes, hLike.casings]
    exact h.boxes
  · rw [hLike.casings]
    exact h.blank
  · rw [hLike.wires]
    exact h.wires

/-- A statement that writes no box, if the graph stays. -/
theorem pass (h : Aligned registry statements g) (hNone : s.directive.box? = none) :
    Aligned registry (statements ++ [s]) g := by
  have hWritten : written (statements ++ [s]) = written statements := by
    rw [written_append, written, written, List.filterMap_cons_none (a := s) hNone]
    exact List.append_nil _
  exact ⟨hWritten ▸ h.boxes, h.blank, hWritten ▸ h.endpoints, fun w hw => (h.wires w hw).append _⟩

/-- A statement that writes a box, if its node is added. -/
theorem addNode (h : Aligned registry statements g) {n : Node κ}
    (hSome : s.directive.box? = some n.box)
    (hEndpoint : n.endpoint = (registry.resolve n.kind).1.endpoint)
    (hBlank : registry.get? n.kind = none → n.casing.Blank) :
    Aligned registry (statements ++ [s]) (g.addNode n) := by
  have hWritten : written (statements ++ [s]) = written statements ++ [n.box] := by
    rw [written_append]
    exact congrArg _ (List.filterMap_cons_some hSome)
  refine ⟨?_, fun c hc => ?_, ?_, fun w hw => (h.wires w hw).append _⟩
  · rw [hWritten, Graph.boxes, Graph.casings_addNode, List.map_append, ← h.boxes]
    rfl
  · rw [Graph.casings_addNode] at hc
    rcases List.mem_append.mp hc with hc | hc
    · exact h.blank c hc
    · obtain rfl := List.mem_singleton.mp hc
      exact hBlank
  · rw [hWritten, Registry.endpointsOf_concat, length_written, ← h.endpoints, ← h.size]
    exact congrArg (fun b : Bool => if b then g.endpoints ++ [g.size] else g.endpoints) hEndpoint

/-- A statement that connects two boxes. -/
theorem connect (h : Aligned registry statements g) (hWired : g.WellWired)
    {source outlet sink inlet : Nat} {rate : Rate} {entries : List Entry}
    (hConnect : g.connect source outlet sink inlet = .ok (rate, g', entries))
    (hDirective : s.directive = .connect source outlet sink inlet) :
    Aligned registry (statements ++ [s]) g' := by
  obtain ⟨grown, hRate, hReach, rfl⟩ := Graph.connect_eq_ok hConnect
  obtain ⟨n, hSource, -⟩ := Graph.outletRate_eq_ok hRate
  obtain ⟨⟨m, hSink⟩, hGrown⟩ := Graph.reachInlet_eq_ok hReach
  have hLike : g.Like grown ∧ grown.recent = g.recent := by
    rcases hGrown with rfl | rfl
    · exact ⟨.refl _, rfl⟩
    · exact ⟨g.like_modifyNode _ fun n _ => n.casing_object rfl _ _ _, rfl⟩
  have hAsked : Wire.Asked ⟨nodeIndex source, outlet, nodeIndex sink, inlet, rate⟩
      (statements ++ [s]) :=
    ⟨statements, s, [], source, sink, rfl, hDirective, rfl, rfl,
      h.size ▸ (Array.getElem?_eq_some_iff.mp hSource).1,
      h.size ▸ (Array.getElem?_eq_some_iff.mp hSink).1⟩
  have hPassed : Aligned registry (statements ++ [s]) grown :=
    (h.pass (by rw [hDirective]; rfl)).like hLike.1
  refine ⟨?_, ?_, ?_, fun w hw => ?_⟩
  · rw [Graph.boxes, Graph.casings, Graph.nodes_putWire]
    exact hPassed.boxes
  · rw [Graph.casings, Graph.nodes_putWire]
    exact hPassed.blank
  · rw [Graph.endpoints_putWire]
    exact hPassed.endpoints
  · have hPerm : grown.recent.Perm grown.wires := by
      rw [hLike.2, hLike.1.wires]
      exact hWired.recentPerm
    rcases Graph.mem_wires_putWire hPerm hw with rfl | hOld
    · exact hAsked
    · exact hPassed.wires w hOld

end Aligned

/-! ### While a patch is read -/

namespace Engine

variable {κ : Type} [CustomKind κ] {e e' : Engine κ}

/-- The node that is made for a box is the box that was written, of the kind that the registry
knows by its name. -/
theorem aligned_createNode {statements : List Statement} {s : Statement}
    (h : Aligned e.registry statements e.graph) {kind : String} {position : Position}
    {args : List String} (hBox : s.directive.box? = some ⟨writtenKind kind, args, position⟩) :
    Aligned e.registry (statements ++ [s]) (e.createNode kind position args).graph := by
  refine h.addNode hBox rfl fun hNone => ?_
  replace hNone : e.registry.get? (writtenKind kind) = none := hNone
  simp only [Casing.Blank, Node.casing, Node.new, hNone]
  exact ⟨rfl, rfl, rfl⟩

/-- What has been built is as the statements so far say. -/
structure Assembled (registry : Registry κ) (statements : List Statement) (b : Build κ) : Prop where
  kinds : b.engine.registry = registry
  built : b.engine.graph.Built
  aligned : Aligned registry statements b.engine.graph

variable {registry : Registry κ} {statements : List Statement} {b : Build κ}

theorem aligned_apply (h : Assembled registry statements b) (s : Statement) :
    Aligned registry (statements ++ [s]) (apply b s).engine.graph := by
  obtain ⟨rfl, hBuilt, hAligned⟩ := h
  cases hDirective : s.directive with
  | object position kind args =>
      rw [apply, hDirective]
      exact aligned_createNode hAligned (by rw [hDirective]; rfl)
  | message position text =>
      rw [apply, hDirective]
      exact aligned_createNode hAligned (by rw [hDirective]; rfl)
  | comment position text =>
      rw [apply, hDirective]
      exact aligned_createNode hAligned (by rw [hDirective]; rfl)
  | array name size args =>
      have hBox : s.directive.box? =
          some ⟨writtenKind "table", name :: toString size :: args, ⟨0, 0⟩⟩ := by
        rw [hDirective]
        rfl
      rw [apply, hDirective]
      exact aligned_createNode (e := { b.engine with
        tables := (Tables.create b.engine.tables name size).1 }.log _) hAligned hBox
  | connect source outlet sink inlet =>
      rw [apply, hDirective]
      simp only [Engine.connect]
      split
      · rename_i rate graph entries hConnect
        exact hAligned.connect hBuilt.wellWired hConnect hDirective
      all_goals exact hAligned.pass (by rw [hDirective]; rfl)
  | fill start values =>
      rw [apply, hDirective]
      have hPass := hAligned.pass (s := s) (by rw [hDirective]; rfl)
      simp only
      split
      · exact hPass
      · exact hPass
  | _ =>
      rw [apply, hDirective]
      exact hAligned.pass (by rw [hDirective]; rfl)

/-- **While a patch is read, the nodes are the boxes of the statements so far.** -/
theorem assembled_reading (hGraph : e.graph = .empty) (hRegistry : e.registry = registry)
    (read : List (Except Error Statement)) :
    Assembled registry (legible read) (e.reading read) := by
  refine reading_keeps (p := Assembled registry) ⟨hRegistry, ?_, ?_⟩
    (fun _ _ _ h => ⟨h.kinds, h.built, h.aligned⟩) read fun _ b s _ h => ?_
  · exact hGraph ▸ .empty
  · exact hGraph ▸ .empty
  · obtain ⟨_, _, _, hEngine⟩ := engine_applyResult b (.ok s)
    exact ⟨(congrArg Engine.registry hEngine).trans h.kinds,
      built_applyResult b (.ok s) h.built, aligned_apply h s⟩

/-! ### For good -/

/--
**The nodes of a graph are the boxes of its patch.**  Whatever the registry holds, and whatever
is done after a load, there are as many nodes as statements that create one, and each is of the
kind, with the arguments and at the position that its statement writes.  A box of a kind that
nobody knows does nothing.  The endpoints are the boxes whose kind is one, in ascending order.
Each wire is one that a statement asks for, between nodes that were created before, and these
are the nodes that it names unless it counts beyond thirty-two bits.  The nodes were the boxes
written so far after every directive.
-/
theorem nodes_follow_statements {settings : Settings} {registry : Registry κ}
    {before after : List (Happening κ)} {e₀ e₁ e : Engine κ} {source : String}
    (hBefore : Run (.new settings registry) before e₀)
    (hLoad : e₀.load source = (.ok (), e₁)) (hAfter : Run e₁ after e) :
    e.graph.size = created (legible (Patch.read source)) ∧
      (∀ i : Nat, e.graph.nodes[i]?.map Node.box = (written (legible (Patch.read source)))[i]?) ∧
      (∀ (i : Nat) (n : Node κ), e.graph.nodes[i]? = some n → registry.get? n.kind = none →
        n.Inert) ∧
      (∀ i, i ∈ e.graph.endpoints ↔
        ∃ n, e.graph.nodes[i]? = some n ∧ (registry.resolve n.kind).1.endpoint = true) ∧
      e.graph.endpoints.Pairwise (· < ·) ∧
      (∀ w ∈ e.graph.wires, w.Asked (legible (Patch.read source)) ∧
        ((∀ s ∈ legible (Patch.read source), ∀ n ∈ s.directive.source?, n < twoTo 32) →
          (∀ s ∈ legible (Patch.read source), ∀ n ∈ s.directive.sink?, n < twoTo 32) →
            w.Joins (legible (Patch.read source)))) ∧
      ∀ done rest, Patch.read source = done ++ rest →
        Aligned registry (legible done) (e₀.reading done).engine.graph := by
  obtain ⟨hGraph, -, -, hRegistry⟩ := empty_of_run hBefore
  have hReading : ∀ done, Aligned registry (legible done) (e₀.reading done).engine.graph :=
    fun done => (assembled_reading hGraph hRegistry done).aligned
  have hAligned : Aligned registry (legible (Patch.read source)) e.graph :=
    (hReading (Patch.read source)).like ((lasts_load hLoad).graph.trans hAfter.lasts.graph)
  exact ⟨hAligned.size, hAligned.getElem?_boxes, fun _ _ hNode => hAligned.inert hNode,
    fun _ => hAligned.mem_endpoints, hAligned.pairwise_endpoints,
    fun w hw => ⟨hAligned.wires w hw, (hAligned.wires w hw).joins⟩, fun done _ _ => hReading done⟩

/-- A comment, an alias, a box of no known kind, an array and an empty box. -/
def mixedPatch : String :=
  "#X text 5 5 a comment;\n#X obj 10 20 f 3;\n#X obj 30 40 wobble 1 2;\n#X bogus;\n" ++
    "#X array t 2 float;\n#X restore;\n#X obj 1 2;\n#X obj 0 0 dac~;\n#X connect 1 0 2 4;\n"

theorem nodes_follow_statements_mixed : ∃ loaded : Engine Empty,
    (Engine.new .standard .builtin : Engine Empty).load mixedPatch = (.ok (), loaded) ∧
      (loaded.perform (.render 1)).2.graph.size = 6 ∧
      (loaded.perform (.render 1)).2.graph.nodes[2]?.map Node.box =
        some ⟨"wobble", ["1", "2"], ⟨30, 40⟩⟩ ∧
      (loaded.perform (.render 1)).2.graph.nodes[3]?.map Node.box =
        some ⟨"table", ["t", "2", "float"], ⟨0, 0⟩⟩ := by
  have hForward : ∀ w ∈ ((Engine.new .standard .builtin : Engine Empty).build
      (Patch.read mixedPatch)).graph.wires, w.rate = .signal → w.source < w.sink := by
    decide +kernel
  have hWritten : created (legible (Patch.read mixedPatch)) = 6 ∧
      (written (legible (Patch.read mixedPatch)))[2]? =
        some ⟨"wobble", ["1", "2"], ⟨30, 40⟩⟩ ∧
      (written (legible (Patch.read mixedPatch)))[3]? =
        some ⟨"table", ["t", "2", "float"], ⟨0, 0⟩⟩ := by
    decide +kernel
  obtain ⟨loaded, hLoad⟩ := loads_of_forward (by decide +kernel) hForward
  obtain ⟨hSize, hBoxes, -⟩ :=
    nodes_follow_statements .start hLoad (.perform .start (.render 1))
  exact ⟨loaded, hLoad, hSize.trans hWritten.1, (hBoxes 2).trans hWritten.2.1,
    (hBoxes 3).trans hWritten.2.2⟩

/-- A connection from a node that there is not, whose number in thirty-two bits is that of another
one. -/
def farPatch : String :=
  "#X obj 0 0 f;\n#X obj 0 0 print;\n#X connect 4294967296 0 1 0;\n"

/-- Not every wire is between the nodes that a statement names. -/
theorem not_joins_farPatch : ∃ loaded : Engine Empty,
    (Engine.new .standard .builtin : Engine Empty).load farPatch = (.ok (), loaded) ∧
      ∃ w ∈ loaded.graph.wires, ¬ w.Joins (legible (Patch.read farPatch)) := by
  have hFacts : ((Engine.new .standard .builtin : Engine Empty).build
      (Patch.read farPatch)).graph.wires = [⟨0, 0, 1, 0, .message⟩] ∧
      created (legible (Patch.read farPatch)) = 2 ∧
      ∀ s ∈ legible (Patch.read farPatch), ∀ n ∈ s.directive.source?, n = 4294967296 := by
    decide +kernel
  obtain ⟨hWires, hCreated, hSource⟩ := hFacts
  have hForward : ∀ w ∈ ((Engine.new .standard .builtin : Engine Empty).build
      (Patch.read farPatch)).graph.wires, w.rate = .signal → w.source < w.sink := by
    simp [hWires]
  obtain ⟨loaded, hLoad⟩ := loads_of_forward (by decide +kernel) hForward
  refine ⟨loaded, hLoad, ⟨0, 0, 1, 0, .message⟩, ?_, ?_⟩
  · rw [(lasts_load hLoad).graph.wires, hWires]
    exact List.mem_singleton_self _
  · rintro ⟨done, s, later, source, sink, hSplit, hDirective, hThere, -⟩
    have hs : s ∈ legible (Patch.read farPatch) :=
      hSplit ▸ List.mem_append_right _ List.mem_cons_self
    have hFar : source = 4294967296 := hSource s hs source (by rw [hDirective]; rfl)
    have hFew : created done ≤ 2 := by
      rw [← hCreated, hSplit, created, created, List.countP_append]
      exact Nat.le_add_right _ _
    omega

end Engine

end Patchbay
