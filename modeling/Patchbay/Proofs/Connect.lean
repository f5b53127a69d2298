import Mathlib.Data.List.Nodup
import Mathlib.Logic.Function.Basic
import Patchbay.Proofs.Evolution

/-
The wires of a graph are two maps.

One leads from signal inlets to the outlets that feed them, the other from message
outlets to the inlets that they reach.  Connecting inserts into one of the two and
leaves the other as it was, although the two are kept in the same lists and a wire that
is replaced is taken out in two different ways.

A wire has a `key`: the end of it that no other wire of its rate may have.  All that is
asked of the lists is that no two wires have the same key.  Then it does not matter that
a lookup takes the first wire that it comes to, nor where the other wires end up when
one is removed.
-/

namespace Patchbay

namespace Wire

/-- The end of a wire that it shares with no other wire of its rate. -/
def key (w : Wire) : Rate × Nat × Nat :=
  match w.rate with
  | .signal => (.signal, w.sink, w.inlet)
  | .message => (.message, w.source, w.outlet)

theorem feeds_iff {w : Wire} {node inlet : Nat} :
    w.feeds node inlet = true ↔ w.key = (.signal, node, inlet) := by
  obtain ⟨source, outlet, sink, inlet', rate⟩ := w
  cases rate <;> simp [feeds, key]

theorem carries_iff {w : Wire} {node outlet : Nat} :
    w.carries node outlet = true ↔ w.key = (.message, node, outlet) := by
  obtain ⟨source, outlet', sink, inlet, rate⟩ := w
  cases rate <;> simp [carries, key]

end Wire

namespace Graph

variable {κ : Type} {g g' : Graph κ}

/-! ### Looking up by key -/

/-- The wire with a key. -/
def wireAt? (g : Graph κ) (key : Rate × Nat × Nat) : Option Wire :=
  g.recent.find? fun w => w.key == key

theorem wireInto?_eq (g : Graph κ) (node inlet : Nat) :
    g.wireInto? node inlet = g.wireAt? (.signal, node, inlet) := by
  have hSame : (fun w : Wire => w.feeds node inlet) = fun w => w.key == (.signal, node, inlet) := by
    funext w
    rw [Bool.eq_iff_iff, Wire.feeds_iff, beq_iff_eq]
  rw [wireInto?, wireAt?, hSame]

theorem wireFrom?_eq (g : Graph κ) (node outlet : Nat) :
    g.wireFrom? node outlet = g.wireAt? (.message, node, outlet) := by
  have hSame : (fun w : Wire => w.carries node outlet) =
      fun w => w.key == (.message, node, outlet) := by
    funext w
    rw [Bool.eq_iff_iff, Wire.carries_iff, beq_iff_eq]
  rw [wireFrom?, wireAt?, hSame]

theorem replaced?_eq (g : Graph κ) (w : Wire) : g.replaced? w = g.wireAt? w.key := by
  unfold replaced? Wire.key
  cases w.rate with
  | signal => exact g.wireInto?_eq w.sink w.inlet
  | message => exact g.wireFrom?_eq w.source w.outlet

/-- No two wires have the same key. -/
def Exclusive (g : Graph κ) : Prop :=
  (g.recent.map Wire.key).Nodup

theorem key_of_wireAt? {key : Rate × Nat × Nat} {w : Wire} (h : g.wireAt? key = some w) :
    w ∈ g.recent ∧ w.key = key :=
  ⟨List.mem_of_find?_eq_some h, by simpa using List.find?_some h⟩

/-- Where keys are exclusive, a lookup finds whatever wire has the key. -/
theorem wireAt?_eq_some_iff (h : g.Exclusive) {key : Rate × Nat × Nat} {w : Wire} :
    g.wireAt? key = some w ↔ w ∈ g.recent ∧ w.key = key := by
  refine ⟨key_of_wireAt?, fun ⟨hMem, hKey⟩ => ?_⟩
  cases hFound : g.wireAt? key with
  | none =>
      have hNone := List.find?_eq_none.mp hFound w hMem
      simp [hKey] at hNone
  | some x =>
      obtain ⟨hx, hxKey⟩ := key_of_wireAt? hFound
      rw [List.inj_on_of_nodup_map h hx hMem (hxKey.trans hKey.symm)]

/-- What is there after a wire has been put in: that wire, and all but the one that it replaces. -/
theorem recent_putWire (h : g.Exclusive) (w : Wire) : ∃ rest, (g.putWire w).recent = w :: rest ∧
    rest.Sublist g.recent ∧ ∀ x, x ∈ rest ↔ x ∈ g.recent ∧ x.key ≠ w.key := by
  unfold putWire
  rw [replaced?_eq]
  cases hOld : g.wireAt? w.key with
  | none =>
      refine ⟨g.recent, rfl, .refl _, fun x => ⟨fun hx => ⟨hx, fun hKey => ?_⟩, And.left⟩⟩
      rw [(wireAt?_eq_some_iff h).mpr ⟨hx, hKey⟩] at hOld
      simp at hOld
  | some old =>
      obtain ⟨hMem, hKey⟩ := key_of_wireAt? hOld
      have hNodup : g.recent.Nodup := List.Nodup.of_map _ h
      refine ⟨g.recent.erase old, rfl, List.erase_sublist, fun x => ?_⟩
      rw [hNodup.mem_erase_iff]
      refine ⟨fun ⟨hNe, hx⟩ => ⟨hx, fun hSame => hNe ?_⟩, fun ⟨hx, hOther⟩ => ⟨?_, hx⟩⟩
      · exact List.inj_on_of_nodup_map h hx hMem (hSame.trans hKey.symm)
      · rintro rfl
        exact hOther hKey

protected theorem Exclusive.putWire (h : g.Exclusive) (w : Wire) : (g.putWire w).Exclusive := by
  obtain ⟨rest, hRecent, hSub, hMem⟩ := recent_putWire h w
  rw [Exclusive, hRecent]
  refine List.nodup_cons.mpr ⟨fun hSame => ?_, h.sublist (hSub.map _)⟩
  obtain ⟨x, hx, hKey⟩ := List.mem_map.mp hSame
  exact ((hMem x).mp hx).2 hKey

/-- **Putting a wire in inserts it under its key.** -/
theorem wireAt?_putWire (h : g.Exclusive) (w : Wire) (key : Rate × Nat × Nat) :
    (g.putWire w).wireAt? key = if key = w.key then some w else g.wireAt? key := by
  obtain ⟨rest, hRecent, -, hMem⟩ := recent_putWire h w
  apply Option.ext
  intro x
  rw [wireAt?_eq_some_iff (h.putWire w), hRecent, List.mem_cons, hMem]
  split
  · rename_i hSame
    subst hSame
    constructor
    · rintro ⟨rfl | ⟨-, hOther⟩, hKey⟩
      · rfl
      · exact absurd hKey hOther
    · intro hx
      obtain rfl := Option.some.inj hx
      exact ⟨.inl rfl, rfl⟩
  · rename_i hOther
    rw [wireAt?_eq_some_iff h]
    constructor
    · rintro ⟨rfl | ⟨hx, -⟩, hKey⟩
      · exact absurd hKey.symm hOther
      · exact ⟨hx, hKey⟩
    · rintro ⟨hx, hKey⟩
      exact ⟨.inr ⟨hx, fun hSame => hOther (hKey.symm.trans hSame)⟩, hKey⟩

/-! ### Inlets that are there -/

/-- How many inlets a node has. -/
def inletCount (g : Graph κ) (node : Nat) : Nat :=
  (g.nodes[node]?.map fun n => n.inlets.size).getD 0

/-- Every wire ends at an inlet that is there. -/
def Landed (g : Graph κ) : Prop :=
  ∀ w ∈ g.wires, w.inlet < g.inletCount w.sink

/-- What growing a placeholder comes to: as many message inlets are added as the wire needs. -/
def grownNode (n : Node κ) (inlet : Nat) : Node κ :=
  { n with
    inlets := n.inlets ++ Array.replicate (inlet + 1 - n.inlets.size) (InletSlot.fresh .message) }

theorem size_grownNode {n : Node κ} {inlet : Nat} (h : n.inlets.size ≤ inlet) :
    (grownNode n inlet).inlets.size = inlet + 1 := by
  simp only [grownNode, Array.size_append, Array.size_replicate]
  omega

/-- Reaching for an inlet changes nothing if it is there, and otherwise grows a placeholder. -/
theorem reachInlet_grows {sink inlet : Nat} {grown : Graph κ}
    (h : g.reachInlet sink inlet = .ok grown) : ∃ n, g.nodes[nodeIndex sink]? = some n ∧
      (inlet < n.inlets.size ∧ grown = g ∨
        n.inlets.size ≤ inlet ∧ n.object.isPlaceholder = true ∧
          grown = g.modifyNode (nodeIndex sink) fun _ => grownNode n inlet) := by
  obtain ⟨n, hNode, ⟨hThere, hSame⟩ | ⟨hLe, -, hPlaceholder, hGrown⟩⟩ := reachInlet_cases h
  · exact ⟨n, hNode, .inl ⟨hThere, hSame⟩⟩
  · have hKept : n.inlets.extract 0 (inlet + 1) = n.inlets :=
      Array.extract_eq_self_of_le (Nat.le_succ_of_le hLe)
    have hResized : { n with inlets := resizeInlets n.inlets (inlet + 1) } =
        grownNode n inlet := by
      rw [resizeInlets, hKept, grownNode]
    exact ⟨n, hNode, .inr ⟨hLe, hPlaceholder, hGrown.trans (modifyNode_congr hNode hResized)⟩⟩

theorem inletCount_of_node {node : Nat} {n : Node κ} (h : g.nodes[node]? = some n) :
    g.inletCount node = n.inlets.size := by
  rw [inletCount, h]
  rfl

/-- Growing a placeholder takes no inlet away. -/
theorem inletCount_grows {sink inlet : Nat} {grown : Graph κ}
    (h : g.reachInlet sink inlet = .ok grown) :
    inlet < grown.inletCount (nodeIndex sink) ∧ ∀ i, g.inletCount i ≤ grown.inletCount i := by
  obtain ⟨n, hNode, ⟨hThere, rfl⟩ | ⟨hLe, -, rfl⟩⟩ := reachInlet_grows h
  · rw [inletCount_of_node hNode]
    exact ⟨hThere, fun i => Nat.le_refl _⟩
  · have hGrown : (g.modifyNode (nodeIndex sink) fun _ => grownNode n inlet).inletCount
        (nodeIndex sink) = inlet + 1 := by
      rw [inletCount, getElem?_modifyNode, if_pos rfl, hNode]
      exact size_grownNode hLe
    refine ⟨by omega, fun i => ?_⟩
    by_cases hi : nodeIndex sink = i
    · subst hi
      rw [hGrown, inletCount_of_node hNode]
      omega
    · have hSame : (g.modifyNode (nodeIndex sink) fun _ => grownNode n inlet).nodes[i]? =
          g.nodes[i]? := by
        rw [getElem?_modifyNode, if_neg hi]
      exact Nat.le_of_eq (by rw [inletCount, inletCount, hSame])

protected theorem Landed.addNode (h : g.Landed) (hWired : g.WellWired) (n : Node κ) :
    (g.addNode n).Landed := by
  intro w hw
  have hIn : w.sink < g.nodes.size := hWired.sinkInRange w hw
  have hSame : (g.addNode n).nodes[w.sink]? = g.nodes[w.sink]? := by
    simp [addNode, Array.getElem?_push, Nat.ne_of_lt hIn]
  rw [inletCount, hSame]
  exact h w hw

/-- A wire that is put in between slots that are there. -/
protected theorem Landed.putWire (h : g.Landed) (hPerm : g.recent.Perm g.wires) {w : Wire}
    (hNew : w.inlet < g.inletCount w.sink) : (g.putWire w).Landed := by
  intro x hx
  rw [inletCount, nodes_putWire]
  rcases mem_wires_putWire hPerm hx with rfl | hx
  · exact hNew
  · exact h x hx

/-- Growing a placeholder leaves the wires as they are. -/
theorem wires_reachInlet {sink inlet : Nat} {grown : Graph κ}
    (hReach : g.reachInlet sink inlet = .ok grown) :
    grown.wires = g.wires ∧ grown.recent = g.recent := by
  rcases (reachInlet_eq_ok hReach).2 with rfl | rfl
  · exact ⟨rfl, rfl⟩
  · exact ⟨rfl, rfl⟩

protected theorem Landed.connect (h : g.Landed) (hWired : g.WellWired)
    {source outlet sink inlet : Nat} {rate : Rate} {entries : List Entry}
    (hConnect : g.connect source outlet sink inlet = .ok (rate, g', entries)) : g'.Landed := by
  obtain ⟨grown, -, hReach, rfl⟩ := connect_eq_ok hConnect
  obtain ⟨hNew, hOld⟩ := inletCount_grows hReach
  obtain ⟨hWires, hRecent⟩ := wires_reachInlet hReach
  have hGrown : grown.Landed := fun w hw =>
    Nat.lt_of_lt_of_le (h w (hWires ▸ hw)) (hOld w.sink)
  exact hGrown.putWire (by rw [hWires, hRecent]; exact hWired.recentPerm) hNew

/-! ### Two maps -/

theorem Built.exclusive (h : g.Built) : g.Exclusive := by
  induction h with
  | empty => exact List.nodup_nil
  | addNode _ n ih => exact ih
  | connect _ hConnect ih =>
      obtain ⟨grown, -, hReach, rfl⟩ := connect_eq_ok hConnect
      rcases (reachInlet_eq_ok hReach).2 with rfl | rfl
      · exact ih.putWire _
      · exact Exclusive.putWire (g := modifyNode _ _ _) ih _

theorem Built.landed (h : g.Built) : g.Landed := by
  induction h with
  | empty => intro w hw; simp [Graph.empty] at hw
  | addNode h n ih => exact ih.addNode h.wellWired n
  | connect h hConnect ih => exact ih.connect h.wellWired hConnect

/-- What feeds each signal inlet. -/
def signalMap (g : Graph κ) (inlet : Nat × Nat) : Option (Nat × Nat) :=
  g.signalSource? inlet.1 inlet.2

/-- What each message outlet reaches. -/
def messageMap (g : Graph κ) (outlet : Nat × Nat) : Option (Nat × Nat) :=
  g.messageTarget? outlet.1 outlet.2

/-- The wires are the entries of two maps, between slots that are there. -/
structure TwoMaps (g : Graph κ) : Prop where
  oneSignal : ∀ node inlet, g.wires.countP (fun w => w.feeds node inlet) ≤ 1
  oneMessage : ∀ node outlet, g.wires.countP (fun w => w.carries node outlet) ≤ 1
  signalEntry : ∀ node inlet source outlet, g.signalMap (node, inlet) = some (source, outlet) ↔
    ⟨source, outlet, node, inlet, .signal⟩ ∈ g.wires
  messageEntry : ∀ node outlet sink inlet, g.messageMap (node, outlet) = some (sink, inlet) ↔
    ⟨node, outlet, sink, inlet, .message⟩ ∈ g.wires
  /-- A wire has the rate of its outlet, which is there. -/
  outlets : ∀ w ∈ g.wires, g.outletRate? w.source w.outlet = some w.rate
  inlets : ∀ w ∈ g.wires, ∃ n, g.nodes[w.sink]? = some n ∧ w.inlet < n.inlets.size

theorem countP_key_le_one (h : g.Exclusive) (hPerm : g.recent.Perm g.wires)
    (key : Rate × Nat × Nat) : g.wires.countP (fun w => w.key == key) ≤ 1 := by
  have hOnce := List.nodup_iff_count_le_one.mp ((hPerm.map Wire.key).nodup_iff.mp h) key
  rwa [List.count, List.countP_map] at hOnce

theorem signalMap_eq_some_iff (h : g.Exclusive) (hPerm : g.recent.Perm g.wires)
    {node inlet source outlet : Nat} : g.signalMap (node, inlet) = some (source, outlet) ↔
      ⟨source, outlet, node, inlet, .signal⟩ ∈ g.wires := by
  rw [signalMap, signalSource?, wireInto?_eq, Option.map_eq_some_iff, ← hPerm.mem_iff]
  constructor
  · rintro ⟨⟨s, o, k, i, rate⟩, hFound, hEq⟩
    obtain ⟨hMem, hKey⟩ := key_of_wireAt? hFound
    cases rate with
    | message => simp [Wire.key] at hKey
    | signal =>
        obtain ⟨rfl, rfl⟩ : k = node ∧ i = inlet := by simpa [Wire.key] using hKey
        obtain ⟨rfl, rfl⟩ := Prod.mk.inj hEq
        exact hMem
  · intro hMem
    exact ⟨_, (wireAt?_eq_some_iff h).mpr ⟨hMem, rfl⟩, rfl⟩

theorem messageMap_eq_some_iff (h : g.Exclusive) (hPerm : g.recent.Perm g.wires)
    {node outlet sink inlet : Nat} : g.messageMap (node, outlet) = some (sink, inlet) ↔
      ⟨node, outlet, sink, inlet, .message⟩ ∈ g.wires := by
  rw [messageMap, messageTarget?, wireFrom?_eq, Option.map_eq_some_iff, ← hPerm.mem_iff]
  constructor
  · rintro ⟨⟨s, o, k, i, rate⟩, hFound, hEq⟩
    obtain ⟨hMem, hKey⟩ := key_of_wireAt? hFound
    cases rate with
    | signal => simp [Wire.key] at hKey
    | message =>
        obtain ⟨rfl, rfl⟩ : s = node ∧ o = outlet := by simpa [Wire.key] using hKey
        obtain ⟨rfl, rfl⟩ := Prod.mk.inj hEq
        exact hMem
  · intro hMem
    exact ⟨_, (wireAt?_eq_some_iff h).mpr ⟨hMem, rfl⟩, rfl⟩

theorem Built.twoMaps (h : g.Built) : g.TwoMaps := by
  have hWired := h.wellWired
  have hExclusive := h.exclusive
  have hKeys := countP_key_le_one hExclusive hWired.recentPerm
  refine ⟨fun node inlet => ?_, fun node outlet => ?_,
    fun node inlet source outlet => signalMap_eq_some_iff hExclusive hWired.recentPerm,
    fun node outlet sink inlet => messageMap_eq_some_iff hExclusive hWired.recentPerm,
    hWired.sourceRate, fun w hw => ?_⟩
  · have hOnce := hKeys (.signal, node, inlet)
    simpa only [Bool.eq_iff_iff.mpr (Wire.feeds_iff.trans beq_iff_eq.symm)] using hOnce
  · have hOnce := hKeys (.message, node, outlet)
    simpa only [Bool.eq_iff_iff.mpr (Wire.carries_iff.trans beq_iff_eq.symm)] using hOnce
  · have hRange : w.sink < g.nodes.size := hWired.sinkInRange w hw
    have hNode : g.nodes[w.sink]? = some g.nodes[w.sink] := Array.getElem?_eq_getElem hRange
    exact ⟨_, hNode, inletCount_of_node hNode ▸ h.landed w hw⟩

/-! ### Connecting -/

/-- What an accepted connection makes of a graph. -/
structure Inserts (g g' : Graph κ) (w : Wire) : Prop where
  rate : g.outletRate? w.source w.outlet = some w.rate
  signalMap : g'.signalMap = match w.rate with
    | .signal => Function.update g.signalMap (w.sink, w.inlet) (some (w.source, w.outlet))
    | .message => g.signalMap
  messageMap : g'.messageMap = match w.rate with
    | .signal => g.messageMap
    | .message => Function.update g.messageMap (w.source, w.outlet) (some (w.sink, w.inlet))
  /-- The boxes stay as they are, but for a placeholder that lacks the inlet. -/
  nodes : ∃ n, g.nodes[w.sink]? = some n ∧
    (w.inlet < n.inlets.size ∧ g'.nodes = g.nodes ∨
      n.inlets.size ≤ w.inlet ∧ n.object.isPlaceholder = true ∧
        g'.nodes = g.nodes.modify w.sink fun _ => grownNode n w.inlet)
  endpoints : g'.endpoints = g.endpoints

theorem signalMap_putWire (h : g.Exclusive) (w : Wire) :
    (g.putWire w).signalMap = match w.rate with
      | .signal => Function.update g.signalMap (w.sink, w.inlet) (some (w.source, w.outlet))
      | .message => g.signalMap := by
  funext ⟨node, inlet⟩
  rw [signalMap, signalSource?, wireInto?_eq, wireAt?_putWire h]
  obtain ⟨source, outlet, sink, inlet', rate⟩ := w
  cases rate with
  | message => simp [Wire.key, signalMap, signalSource?, wireInto?_eq]
  | signal =>
      by_cases hKey : (node, inlet) = (sink, inlet')
      · obtain ⟨rfl, rfl⟩ := Prod.mk.inj hKey
        simp [Wire.key]
      · have hOther : ((Rate.signal, node, inlet) : Rate × Nat × Nat) ≠ (.signal, sink, inlet') :=
          fun hSame => hKey (Prod.mk.inj hSame).2
        change _ = Function.update g.signalMap (sink, inlet') (some (source, outlet)) (node, inlet)
        rw [Wire.key, if_neg hOther, Function.update_of_ne hKey, signalMap, signalSource?,
          wireInto?_eq]

theorem messageMap_putWire (h : g.Exclusive) (w : Wire) :
    (g.putWire w).messageMap = match w.rate with
      | .signal => g.messageMap
      | .message => Function.update g.messageMap (w.source, w.outlet) (some (w.sink, w.inlet)) := by
  funext ⟨node, outlet⟩
  rw [messageMap, messageTarget?, wireFrom?_eq, wireAt?_putWire h]
  obtain ⟨source, outlet', sink, inlet, rate⟩ := w
  cases rate with
  | signal => simp [Wire.key, messageMap, messageTarget?, wireFrom?_eq]
  | message =>
      by_cases hKey : (node, outlet) = (source, outlet')
      · obtain ⟨rfl, rfl⟩ := Prod.mk.inj hKey
        simp [Wire.key]
      · have hOther : ((Rate.message, node, outlet) : Rate × Nat × Nat) ≠
            (.message, source, outlet') := fun hSame => hKey (Prod.mk.inj hSame).2
        change _ = Function.update g.messageMap (source, outlet') (some (sink, inlet)) (node, outlet)
        rw [Wire.key, if_neg hOther, Function.update_of_ne hKey, messageMap, messageTarget?,
          wireFrom?_eq]

theorem inserts_connect (h : g.Built) {source outlet sink inlet : Nat} {rate : Rate}
    {entries : List Entry}
    (hConnect : g.connect source outlet sink inlet = .ok (rate, g', entries)) :
    g.Inserts g' ⟨nodeIndex source, outlet, nodeIndex sink, inlet, rate⟩ := by
  obtain ⟨grown, hRate, hReach, rfl⟩ := connect_eq_ok hConnect
  obtain ⟨node, hNode, hOutlet⟩ := outletRate_eq_ok hRate
  obtain ⟨n, hSink, hGrown⟩ := reachInlet_grows hReach
  -- Growing a placeholder leaves the wires alone, so the maps are those of the graph before.
  have hSame : grown.recent = g.recent ∧ grown.endpoints = g.endpoints := by
    rcases hGrown with ⟨-, rfl⟩ | ⟨-, -, rfl⟩
    · exact ⟨rfl, rfl⟩
    · exact ⟨rfl, rfl⟩
  have hSignal : grown.signalMap = g.signalMap := by
    funext inlet
    rw [signalMap, signalMap, signalSource?, signalSource?, wireInto?, wireInto?, hSame.1]
  have hMessage : grown.messageMap = g.messageMap := by
    funext outlet
    rw [messageMap, messageMap, messageTarget?, messageTarget?, wireFrom?, wireFrom?, hSame.1]
  have hExclusive : grown.Exclusive := by
    rw [Exclusive, hSame.1]
    exact h.exclusive
  refine ⟨?_, ?_, ?_, ⟨n, hSink, ?_⟩, ?_⟩
  · rw [outletRate?, hNode]
    exact hOutlet
  · rw [signalMap_putWire hExclusive, hSignal]
  · rw [messageMap_putWire hExclusive, hMessage]
  · rw [nodes_putWire]
    rcases hGrown with ⟨hThere, rfl⟩ | ⟨hLe, hPlaceholder, rfl⟩
    · exact .inl ⟨hThere, rfl⟩
    · exact .inr ⟨hLe, hPlaceholder, rfl⟩
  · rw [endpoints_putWire, hSame.2]

/--
**The wires of a graph are two maps, and connecting inserts into one of them.**  The
rate of the outlet decides which.  The other map and all other entries stay, and of the
boxes only a placeholder may change, which gets the inlets that it lacks.  A connection
that is not made leaves the graph as it was.
-/
theorem connect_inserts (h : g.Built) :
    g.TwoMaps ∧ ∀ source outlet sink inlet : Nat, source < twoTo 32 → sink < twoTo 32 →
        (∀ rate, (g.connectInPlace source outlet sink inlet).1 = .ok rate →
          g.Inserts (g.connectInPlace source outlet sink inlet).2
            ⟨source, outlet, sink, inlet, rate⟩) ∧
        ∀ fault, (g.connectInPlace source outlet sink inlet).1 = .error fault →
          (g.connectInPlace source outlet sink inlet).2 = g := by
  refine ⟨h.twoMaps, fun source outlet sink inlet hSource hSink => ?_⟩
  rw [connectInPlace_eq]
  cases hConnect : g.connect source outlet sink inlet with
  | error fault => exact ⟨fun rate hRate => by simp at hRate, fun _ _ => rfl⟩
  | ok result =>
      obtain ⟨rate, g', entries⟩ := result
      refine ⟨fun r hRate => ?_, fun fault hFault => by simp at hFault⟩
      obtain rfl := Except.ok.inj hRate
      have hInserts := inserts_connect h hConnect
      rwa [nodeIndex, nodeIndex, Nat.mod_eq_of_lt hSource, Nat.mod_eq_of_lt hSink] at hInserts

/-! ### A comment that boxes are connected to -/

/-- Two adders and a comment, with these inlets at the comment and these wires. -/
def commented (inlets : List Rate) (wires : List Wire) : Graph Empty :=
  let adder : Node Empty :=
    .new "+~" [] ⟨0, 0⟩ false [.signal, .signal] [.signal] (.signalBinop ⟨.add⟩) 1
  ⟨#[adder, adder, .new "text" [] ⟨0, 0⟩ false inlets [] .null 1], [], wires, wires⟩

/-- The wire from the first adder to the comment. -/
def commentWire : Wire := ⟨0, 0, 2, 1, .signal⟩

theorem built_commented : (commented [.message, .message] [commentWire]).Built := by
  have hNodes : (commented [] []).Built := ((Built.empty.addNode _).addNode _).addNode _
  have hConnect : (commented [] []).connect 0 0 2 1 =
      .ok (.signal, commented [.message, .message] [commentWire],
        (commented [] []).wireEntries commentWire 0 0 2 1) := rfl
  exact hNodes.connect hConnect

theorem connect_inserts_commented :
    (commented [.message, .message] [commentWire]).Built ∧
      ∃ g', (commented [.message, .message] [commentWire]).connectInPlace 1 0 2 3 =
          (.ok .signal, g') ∧
        g'.signalMap (2, 3) = some (1, 0) ∧ g'.signalMap (2, 1) = some (0, 0) := by
  obtain ⟨hMaps, hConnect⟩ := connect_inserts built_commented
  obtain ⟨hInserts, -⟩ := hConnect 1 0 2 3 (by decide) (by decide)
  generalize hResult : (commented [.message, .message] [commentWire]).connectInPlace 1 0 2 3 =
    result at hInserts ⊢
  obtain ⟨answer, g'⟩ := result
  obtain rfl : answer = .ok .signal := (congrArg Prod.fst hResult).symm
  have hMap := (hInserts .signal rfl).signalMap
  have hOld := (hMaps.signalEntry 2 1 0 0).mpr (List.mem_singleton_self _)
  refine ⟨built_commented, g', rfl, ?_, ?_⟩
  · exact (congrFun hMap (2, 3)).trans (Function.update_self ..)
  · exact (congrFun hMap (2, 1)).trans ((Function.update_of_ne (by decide) ..).trans hOld)

end Graph

end Patchbay
