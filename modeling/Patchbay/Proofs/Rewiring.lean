import Mathlib.Data.List.Induction
import Patchbay.Proofs.Connect
import Patchbay.Proofs.Lasting

/-
Connecting in another order.

What the wires of a graph are can be asked by key, and a wire that is put in only shows at its
own key.  So for each key the last connection counts, and connections may be made in any order
in which those that claim the same key follow each other as before.  The numbers of the wires
and the order in which a node's wires are walked do depend on the order, but nothing that is
asked by key does.

Whether a connection is refused is decided by the boxes.  The only boxes that connecting
changes are placeholders, which get the inlets that they lack.  How many they have got in the
end may depend on the order, so graphs are compared up to the inlets of placeholders.  Whether
a connection overflows is no matter of these either, as long as they can be counted.
-/

namespace Patchbay

/-- What a connection is asked for with. -/
structure Cord where
  source : Nat
  outlet : Nat
  sink : Nat
  inlet : Nat
  deriving DecidableEq

def Cord.directive (c : Cord) : Directive :=
  .connect c.source c.outlet c.sink c.inlet

/-! ### Boxes up to the inlets of placeholders -/

namespace Node

variable {κ : Type} {n n' : Node κ}

/-- The box without its inlets if it is a placeholder. -/
def bare (n : Node κ) : Node κ :=
  if n.object.isPlaceholder then { n with inlets := #[] } else n

theorem bare_of_null (h : n.object = .null) : n.bare = { n with inlets := #[] } := by
  rw [bare, h]
  rfl

theorem object_bare (n : Node κ) : n.bare.object = n.object := by
  unfold bare
  split <;> rfl

/-- Boxes that are the same up to that are the same, or placeholders. -/
theorem eq_or_null_of_bare (h : n'.bare = n.bare) :
    n' = n ∨ n.object = .null ∧ n' = { n with inlets := n'.inlets } := by
  have hObject : n'.object = n.object := by
    rw [← object_bare, h, object_bare]
  cases hNull : n.object.isPlaceholder with
  | true =>
      rw [bare, bare, hObject, hNull] at h
      simp only [if_true, Node.mk.injEq] at h
      refine .inr ⟨?_, ?_⟩
      · exact Object.isPlaceholder_iff.mp hNull
      · obtain ⟨hKind, hArgs, hPosition, hEndpoint, -, hOutlets, hOutputs, hObject, hStamp⟩ := h
        cases n'
        simp_all
  | false =>
      rw [bare, bare, hObject, hNull] at h
      exact .inl h

/-- What a placeholder is without its inlets does not depend on them. -/
theorem bare_inlets (h : n.object = .null) (inlets : Array InletSlot) :
    { n with inlets }.bare = n.bare := by
  rw [bare_of_null h, bare_of_null (n := { n with inlets }) h]

/-- Whatever is made of the inlets. -/
theorem bare_onInlets (h : n'.bare = n.bare) (f : Array InletSlot → Array InletSlot) :
    { n' with inlets := f n'.inlets }.bare = { n with inlets := f n.inlets }.bare := by
  rcases eq_or_null_of_bare h with rfl | ⟨hNull, hEq⟩
  · rfl
  · rw [hEq]
    exact (bare_inlets hNull _).trans (bare_inlets hNull _).symm

/-- Whatever the object becomes, as long as placeholders stay placeholders. -/
theorem bare_withObject (h : n'.bare = n.bare) {o : Object κ}
    (hSame : o.isPlaceholder = n.object.isPlaceholder) :
    { n' with object := o }.bare = { n with object := o }.bare := by
  rcases eq_or_null_of_bare h with rfl | ⟨hNull, hEq⟩
  · rfl
  · rw [hNull] at hSame
    obtain rfl := Object.isPlaceholder_iff.mp hSame
    rw [hEq]
    rfl

theorem bare_print (h : n'.bare = n.bare) (outputs : Array (Array Float32)) (stamp : Nat) :
    { n' with outputs, stamp }.bare = { n with outputs, stamp }.bare := by
  rcases eq_or_null_of_bare h with rfl | ⟨hNull, hEq⟩
  · rfl
  · rw [hEq, bare_of_null (n := { n with outputs, stamp }) hNull]
    exact bare_of_null hNull

end Node

namespace Graph

variable {κ : Type} {g g' : Graph κ}

/-- The boxes are the same up to the inlets of placeholders. -/
def Boxed (g g' : Graph κ) : Prop :=
  ∀ i : Nat, g'.nodes[i]?.map Node.bare = g.nodes[i]?.map Node.bare

theorem Boxed.refl (g : Graph κ) : g.Boxed g := fun _ => rfl

theorem Boxed.symm (h : g.Boxed g') : g'.Boxed g := fun i => (h i).symm

theorem Boxed.trans {g₁ g₂ g₃ : Graph κ} (h₁ : g₁.Boxed g₂) (h₂ : g₂.Boxed g₃) : g₁.Boxed g₃ :=
  fun i => (h₂ i).trans (h₁ i)

/-- Every box has its counterpart. -/
theorem Boxed.node (h : g.Boxed g') {i : Nat} {n : Node κ} (hNode : g.nodes[i]? = some n) :
    ∃ n', g'.nodes[i]? = some n' ∧ n'.bare = n.bare := by
  have hBare := h i
  rw [hNode, Option.map_some] at hBare
  exact Option.map_eq_some_iff.mp hBare

theorem Boxed.noNode (h : g.Boxed g') {i : Nat} (hNode : g.nodes[i]? = none) :
    g'.nodes[i]? = none := by
  have hBare := h i
  rw [hNode, Option.map_none] at hBare
  exact Option.map_eq_none_iff.mp hBare

/-- What does not depend on the inlets is the same. -/
theorem Boxed.map_eq (h : g.Boxed g') {β : Type} {f : Node κ → β}
    (hf : ∀ n inlets, f { n with inlets } = f n) (i : Nat) :
    g'.nodes[i]?.map f = g.nodes[i]?.map f := by
  have hBare : f = f ∘ Node.bare := by
    funext n
    rw [Function.comp_apply, Node.bare]
    split
    · exact (hf n #[]).symm
    · rfl
  rw [hBare, ← Option.map_map, ← Option.map_map, h i]

theorem Boxed.size_le (h : g.Boxed g') : g.size ≤ g'.size := by
  refine Nat.le_of_not_lt fun hLess => ?_
  obtain ⟨n', hNode', -⟩ := h.node (Array.getElem?_eq_getElem hLess)
  exact Nat.lt_irrefl _ (Array.getElem?_eq_some_iff.mp hNode').1

theorem Boxed.modifyNode (h : g.Boxed g') (i : Nat) {f : Node κ → Node κ}
    (hf : ∀ n n', g.nodes[i]? = some n → n'.bare = n.bare → (f n').bare = (f n).bare) :
    (g.modifyNode i f).Boxed (g'.modifyNode i f) := by
  intro j
  rw [getElem?_modifyNode, getElem?_modifyNode]
  split
  · rename_i hSame
    subst hSame
    cases hNode : g.nodes[i]? with
    | none => rw [h.noNode hNode]
    | some n =>
        obtain ⟨n', hNode', hBare⟩ := h.node hNode
        rw [hNode']
        exact congrArg some (hf n n' hNode hBare)
  · exact h j

/-! ### Which connections are accepted -/

/-- The wire that a connection is for, unless it is refused. -/
def wireFor? (g : Graph κ) (c : Cord) : Option Wire :=
  match g.outletRate c.source c.outlet with
  | .error _ => none
  | .ok rate =>
    if g.takes c.sink c.inlet then
      some ⟨nodeIndex c.source, c.outlet, nodeIndex c.sink, c.inlet, rate⟩
    else none

/-- The slot that a connection claims: a signal inlet or a message outlet. -/
def slotFor? (g : Graph κ) (c : Cord) : Option (Rate × Nat × Nat) :=
  (g.wireFor? c).map Wire.key

theorem Boxed.outletRate (h : g.Boxed g') (source outlet : Nat) :
    g'.outletRate source outlet = g.outletRate source outlet := by
  unfold Graph.outletRate node?
  cases hNode : g.nodes[nodeIndex source]? with
  | none => rw [h.noNode hNode]
  | some n =>
      obtain ⟨n', hNode', hBare⟩ := h.node hNode
      rw [hNode']
      rcases Node.eq_or_null_of_bare hBare with rfl | ⟨-, hEq⟩
      · rfl
      · rw [hEq]

/-- Refusing a connection is up to the boxes, and no matter of the inlets of placeholders. -/
theorem Boxed.wireFor? (h : g.Boxed g') (c : Cord) : g'.wireFor? c = g.wireFor? c := by
  have hTakes : g'.takes c.sink c.inlet = g.takes c.sink c.inlet := by
    rw [takes, takes]
    cases hNode : g.nodes[nodeIndex c.sink]? with
    | none => rw [h.noNode hNode]
    | some n =>
        obtain ⟨n', hNode', hBare⟩ := h.node hNode
        rw [hNode']
        rcases Node.eq_or_null_of_bare hBare with rfl | ⟨hNull, hEq⟩
        · rfl
        · rw [hEq]
          simp [hNull, Object.isPlaceholder]
  rw [Graph.wireFor?, Graph.wireFor?, h.outletRate, hTakes]

/-! ### Where the program stops -/

/-- Whether the program stops at a connection. -/
def stops (g : Graph κ) (c : Cord) : Bool :=
  g.overflows c.source c.outlet c.sink c.inlet

/-- The inlets of placeholders can be counted. -/
def Counted (g : Graph κ) : Prop :=
  ∀ n ∈ g.nodes, n.object.isPlaceholder = true → n.inlets.size < twoTo 64

/-- A placeholder has not got an inlet beyond those that can be counted, so the program stops at it
wherever it comes. -/
theorem Boxed.stops_of (h : g.Boxed g') (hCounted' : g'.Counted) {c : Cord}
    (hStops : g.stops c = true) : g'.stops c = true := by
  obtain ⟨hRate, hReach⟩ := overflows_iff.mp hStops
  obtain ⟨n, hNode, -, hNull, hMany⟩ := reachInlet_eq_overflow_iff.mp hReach
  obtain ⟨n', hNode', hBare⟩ := h.node hNode
  have hNull' : n'.object.isPlaceholder = true := by
    rw [← Node.object_bare n', hBare, Node.object_bare]
    exact hNull
  have hFew := hCounted' n' (Array.mem_of_getElem? hNode') hNull'
  refine overflows_iff.mpr ⟨?_, reachInlet_eq_overflow_iff.mpr ⟨n', hNode', ?_, hNull', hMany⟩⟩
  · rw [h.outletRate]
    exact hRate
  · omega

theorem Boxed.stops (h : g.Boxed g') (hCounted : g.Counted) (hCounted' : g'.Counted) (c : Cord) :
    g'.stops c = g.stops c :=
  Bool.eq_iff_iff.mpr ⟨h.symm.stops_of hCounted, h.stops_of hCounted'⟩

/-- Stopping is not refusing. -/
theorem wireFor?_of_stops {c : Cord} (hStops : g.stops c = true) : (g.wireFor? c).isSome := by
  obtain ⟨hRate, hReach⟩ := overflows_iff.mp hStops
  obtain ⟨n, hNode, -, hNull, -⟩ := reachInlet_eq_overflow_iff.mp hReach
  have hTakes : g.takes c.sink c.inlet = true := by
    simp [takes, hNode, hNull]
  unfold wireFor?
  cases hOutlet : g.outletRate c.source c.outlet with
  | error fault => simp [hOutlet, Except.isOk, Except.toBool] at hRate
  | ok rate => simp [hTakes]

/-! ### Connecting one after the other -/

/-- A graph after a connection, whether that is accepted or not. -/
def plug (g : Graph κ) (c : Cord) : Graph κ :=
  (g.connectInPlace c.source c.outlet c.sink c.inlet).2

/-- Reaching for an inlet only grows a placeholder. -/
theorem boxed_reachInlet {sink inlet : Nat} {grown : Graph κ}
    (h : g.reachInlet sink inlet = .ok grown) : g.Boxed grown ∧ grown.recent = g.recent ∧
      grown.endpoints = g.endpoints := by
  obtain ⟨n, hNode, ⟨-, rfl⟩ | ⟨-, -, hPlaceholder, rfl⟩⟩ := reachInlet_cases h
  · exact ⟨.refl grown, rfl, rfl⟩
  · refine ⟨fun j => ?_, rfl, rfl⟩
    rw [getElem?_modifyNode]
    split
    · rename_i hSame
      subst hSame
      rw [hNode]
      exact congrArg some (Node.bare_inlets (Object.isPlaceholder_iff.mp hPlaceholder) _)
    · rfl

/-- What a connection does: a placeholder may grow, then the wire is put in. -/
theorem plug_eq (g : Graph κ) (c : Cord) :
    (g.wireFor? c = none ∨ g.stops c = true) ∧ g.plug c = g ∨
      ∃ w grown, g.wireFor? c = some w ∧ g.Boxed grown ∧ grown.recent = g.recent ∧
        grown.endpoints = g.endpoints ∧ g.plug c = grown.putWire w := by
  unfold wireFor? plug connectInPlace
  cases hRate : g.outletRate c.source c.outlet with
  | error fault => exact .inl ⟨.inl rfl, rfl⟩
  | ok rate =>
      cases hReach : g.reachInlet c.sink c.inlet with
      | error fault =>
          refine .inl ⟨?_, rfl⟩
          by_cases hFault : fault = .overflow
          · refine .inr (overflows_iff.mpr ⟨?_, hFault ▸ hReach⟩)
            rw [hRate]
            rfl
          · exact .inl (if_neg (by simp [takes_eq_false_iff.mpr ⟨fault, hFault, hReach⟩]))
      | ok grown =>
          obtain ⟨hBoxed, hRecent, hEndpoints⟩ := boxed_reachInlet hReach
          have hTakes : g.takes c.sink c.inlet = true := by
            refine Bool.of_not_eq_false fun hNot => ?_
            obtain ⟨fault, -, hFault⟩ := takes_eq_false_iff.mp hNot
            cases hReach.symm.trans hFault
          exact .inr ⟨_, grown, if_pos hTakes, hBoxed, hRecent, hEndpoints, rfl⟩

/-- What a connection leaves of the boxes and the endpoints, and that keys stay exclusive. -/
theorem boxed_plug (g : Graph κ) (c : Cord) :
    g.Boxed (g.plug c) ∧ (g.plug c).endpoints = g.endpoints ∧
      (g.Exclusive → (g.plug c).Exclusive) := by
  rcases g.plug_eq c with ⟨-, hEq⟩ | ⟨w, grown, -, hBoxed, hRecent, hEndpoints, hEq⟩
  · rw [hEq]
    exact ⟨.refl g, rfl, id⟩
  · rw [hEq]
    refine ⟨fun i => ?_, (endpoints_putWire grown w).trans hEndpoints, fun h => ?_⟩
    · rw [nodes_putWire]
      exact hBoxed i
    · refine Exclusive.putWire ?_ w
      rw [Exclusive, hRecent]
      exact h

/-- A box that is made has inlets as its layout says. -/
theorem Counted.addNode (h : g.Counted) {object : Object κ} {inlets : List Rate}
    (hNew : object.isPlaceholder = true → inlets.length < twoTo 64) (kind : String)
    (args : List String) (position : Position) (endpoint : Bool) (outlets : List Rate)
    (size : Nat) : (g.addNode (.new kind args position endpoint inlets outlets object size)).Counted := by
  intro m hm hNull
  rcases Array.mem_push.mp hm with hm | rfl
  · exact h m hm hNull
  · simpa [Node.new] using hNew hNull

/-- No placeholder grows beyond counting. -/
theorem Counted.connect (h : g.Counted) {source outlet sink inlet : Nat} {rate : Rate}
    {entries : List Entry}
    (hConnect : g.connect source outlet sink inlet = .ok (rate, g', entries)) : g'.Counted := by
  obtain ⟨grown, -, hReach, rfl⟩ := connect_eq_ok hConnect
  intro m hm
  rw [nodes_putWire] at hm
  obtain ⟨n, hNode, ⟨-, rfl⟩ | ⟨hLe, hCount, -, rfl⟩⟩ := reachInlet_cases hReach
  · exact h m hm
  · refine forall_modifyNode (p := fun n => n.object.isPlaceholder = true →
      n.inlets.size < twoTo 64) h _ (fun k _ _ _ => ?_) m hm
    rw [size_resizeInlets]
    exact hCount

theorem Counted.plug (h : g.Counted) (c : Cord) : (g.plug c).Counted := by
  rw [Graph.plug, connectInPlace_eq]
  cases hConnect : g.connect c.source c.outlet c.sink c.inlet with
  | error fault => exact h
  | ok made => exact h.connect hConnect

/-- A wire that is laid shows at its own key. -/
def lay (wires : Rate × Nat × Nat → Option Wire) (w : Wire) : Rate × Nat × Nat → Option Wire :=
  Function.update wires w.key (some w)

/-- **A connection lays its wire, unless it is refused or the program stops.** -/
theorem wireAt?_plug (h : g.Exclusive) {c : Cord} (hGoes : g.stops c = false) :
    (g.plug c).wireAt? = (g.wireFor? c).elim g.wireAt? (lay g.wireAt?) := by
  rcases g.plug_eq c with ⟨hNone | hStops, hEq⟩ | ⟨w, grown, hSome, -, hRecent, -, hEq⟩
  · rw [hEq, hNone]
    rfl
  · simp [hGoes] at hStops
  · have hExclusive : grown.Exclusive := by
      rw [Exclusive, hRecent]
      exact h
    have hSame : grown.wireAt? = g.wireAt? := by
      funext key
      rw [wireAt?, wireAt?, hRecent]
    rw [hEq, hSome]
    funext key
    rw [wireAt?_putWire hExclusive, hSame]
    exact (Function.update_apply ..).symm

/-- A graph after some connections. -/
def plugAll (g : Graph κ) (cords : List Cord) : Graph κ :=
  cords.foldl plug g

theorem plugAll_concat (g : Graph κ) (cords : List Cord) (c : Cord) :
    g.plugAll (cords ++ [c]) = (g.plugAll cords).plug c := by
  rw [plugAll, List.foldl_append]
  rfl

theorem boxed_plugAll (h : g.Exclusive) (cords : List Cord) : g.Boxed (g.plugAll cords) ∧
    (g.plugAll cords).endpoints = g.endpoints ∧ (g.plugAll cords).Exclusive := by
  induction cords using List.reverseRecOn with
  | nil => exact ⟨.refl g, rfl, h⟩
  | append_singleton cords c ih =>
      obtain ⟨hBoxed, hEndpoints, hExclusive⟩ := ih
      obtain ⟨hStep, hStepEndpoints, hStepExclusive⟩ := boxed_plug (g.plugAll cords) c
      rw [plugAll_concat]
      exact ⟨hBoxed.trans hStep, hStepEndpoints.trans hEndpoints, hStepExclusive hExclusive⟩

theorem Counted.plugAll (h : g.Counted) (cords : List Cord) : (g.plugAll cords).Counted :=
  List.foldlRecOn cords Graph.plug h fun _ hg c _ => hg.plug c

/-- Whether the program stops at a connection is no matter of the connections before it. -/
theorem stops_plugAll (h : g.Exclusive) (hCounted : g.Counted) (cords : List Cord) (c : Cord) :
    (g.plugAll cords).stops c = g.stops c :=
  (boxed_plugAll h cords).1.stops hCounted (hCounted.plugAll cords) c

theorem foldl_wireAt?_plugAll (h : g.Exclusive) (hCounted : g.Counted) {cords : List Cord}
    (hGo : ∀ c ∈ cords, g.stops c = false) :
    (g.plugAll cords).wireAt? = (cords.filterMap g.wireFor?).foldl lay g.wireAt? := by
  induction cords using List.reverseRecOn with
  | nil => rfl
  | append_singleton cords c ih =>
      obtain ⟨hBoxed, -, hExclusive⟩ := boxed_plugAll h cords
      have hWires := ih fun c hc => hGo c (List.mem_append_left _ hc)
      have hGoes : (g.plugAll cords).stops c = false :=
        (stops_plugAll h hCounted cords c).trans (hGo c (by simp))
      rw [plugAll_concat, wireAt?_plug hExclusive hGoes, hBoxed.wireFor?, List.filterMap_append,
        List.foldl_append, hWires]
      cases hWire : g.wireFor? c with
      | none => simp [hWire]
      | some w => simp [hWire]

/-! ### The last wire counts -/

/-- At a key only the wires with that key show. -/
theorem foldl_lay_apply (ws : List Wire) (wires : Rate × Nat × Nat → Option Wire)
    (key : Rate × Nat × Nat) : ws.foldl lay wires key =
      ((ws.filter fun w => w.key = key).getLast?).or (wires key) := by
  induction ws using List.reverseRecOn with
  | nil => rfl
  | append_singleton ws w ih =>
      rw [List.foldl_append, List.filter_append, List.foldl_cons, List.foldl_nil, lay,
        Function.update_apply]
      split
      · rename_i hKey
        simp [hKey]
      · rename_i hKey
        rw [ih]
        simp [Ne.symm hKey]

/-- Connections that claim the same slot follow each other in the same order. -/
def Reordered (g : Graph κ) (cords cords' : List Cord) : Prop :=
  ∀ slot, (cords'.filter fun c => g.slotFor? c = some slot) =
    cords.filter fun c => g.slotFor? c = some slot

/-- Slots that no connection claims need not be looked at. -/
theorem reordered_iff {g : Graph κ} {cords cords' : List Cord} : g.Reordered cords cords' ↔
    ∀ slot ∈ (cords ++ cords').filterMap g.slotFor?,
      (cords'.filter fun c => g.slotFor? c = some slot) =
        cords.filter fun c => g.slotFor? c = some slot := by
  refine ⟨fun h slot _ => h slot, fun h slot => ?_⟩
  by_cases hClaimed : slot ∈ (cords ++ cords').filterMap g.slotFor?
  · exact h slot hClaimed
  · have hFree : ∀ c ∈ cords ++ cords', ¬ g.slotFor? c = some slot :=
      fun c hc hSlot => hClaimed (List.mem_filterMap.mpr ⟨c, hc, hSlot⟩)
    rw [List.filter_eq_nil_iff.mpr, List.filter_eq_nil_iff.mpr]
    · intro c hc
      simpa using hFree c (List.mem_append_left _ hc)
    · intro c hc
      simpa using hFree c (List.mem_append_right _ hc)

instance (g : Graph κ) (cords cords' : List Cord) : Decidable (g.Reordered cords cords') :=
  decidable_of_iff _ reordered_iff.symm

theorem filter_filterMap_wireFor? (g : Graph κ) (key : Rate × Nat × Nat) (cords : List Cord) :
    ((cords.filterMap g.wireFor?).filter fun w => w.key = key) =
      (cords.filter fun c => g.slotFor? c = some key).filterMap g.wireFor? := by
  induction cords with
  | nil => rfl
  | cons c cords ih =>
      cases hWire : g.wireFor? c with
      | none => simp [slotFor?, hWire, ih]
      | some w =>
          by_cases hKey : w.key = key
          · simp [slotFor?, hWire, hKey, ih]
          · simp [slotFor?, hWire, hKey, ih]

/-- The wire of the last connection that claims a slot. -/
def lastClaim? (g : Graph κ) (cords : List Cord) (slot : Rate × Nat × Nat) : Option Wire :=
  (cords.filter fun c => g.slotFor? c = some slot).getLast?.bind g.wireFor?

/-- **Every slot holds the wire of the last connection that claims it**, if the program does not
stop. -/
theorem wireAt?_plugAll (h : g.Exclusive) (hCounted : g.Counted) {cords : List Cord}
    (hGo : ∀ c ∈ cords, g.stops c = false) (slot : Rate × Nat × Nat) :
    (g.plugAll cords).wireAt? slot = (g.lastClaim? cords slot).or (g.wireAt? slot) := by
  have hLast : ∀ claims : List Cord, (∀ c ∈ claims, g.slotFor? c = some slot) →
      (claims.filterMap g.wireFor?).getLast? = claims.getLast?.bind g.wireFor? := by
    intro claims hClaims
    induction claims using List.reverseRecOn with
    | nil => rfl
    | append_singleton claims c _ =>
        obtain ⟨w, hWire, -⟩ := Option.map_eq_some_iff.mp (hClaims c (by simp))
        simp [hWire]
  rw [foldl_wireAt?_plugAll h hCounted hGo, foldl_lay_apply, filter_filterMap_wireFor?, hLast, lastClaim?]
  exact fun c hc => by simpa using (List.mem_filter.mp hc).2

/-! ### Graphs that are wired alike -/

/-- Signal wires, too, can be asked for by key. -/
theorem Built.signalWire_iff (h : g.Built) {source sink : Nat} : g.SignalWire source sink ↔
    ∃ inlet w, g.wireAt? (.signal, sink, inlet) = some w ∧ w.source = source := by
  have hMem : ∀ w, w ∈ g.recent ↔ w ∈ g.wires := fun w => h.wellWired.recentPerm.mem_iff
  constructor
  · rintro ⟨w, hw, hRate, hSource, hSink⟩
    refine ⟨w.inlet, w, (wireAt?_eq_some_iff h.exclusive).mpr ⟨(hMem w).mpr hw, ?_⟩, hSource⟩
    rw [Wire.key, hRate, ← hSink]
  · rintro ⟨inlet, w, hWire, hSource⟩
    obtain ⟨hw, hKey⟩ := key_of_wireAt? hWire
    have hFeeds := Wire.feeds_iff.mpr hKey
    simp only [Wire.feeds, Bool.and_eq_true, beq_iff_eq] at hFeeds
    exact ⟨w, (hMem w).mp hw, hFeeds.1.1, hSource, hFeeds.1.2⟩

theorem Built.plug (h : g.Built) (c : Cord) : (g.plug c).Built := by
  rw [Graph.plug, connectInPlace_eq]
  cases hConnect : g.connect c.source c.outlet c.sink c.inlet with
  | error fault => exact h
  | ok made => exact h.connect hConnect

theorem Built.plugAll (h : g.Built) (cords : List Cord) : (g.plugAll cords).Built := by
  induction cords generalizing g with
  | nil => exact h
  | cons c cords ih => exact ih (h.plug c)

/-- The boxes of two graphs are the same up to the inlets of placeholders, and their wires are the
same up to their order. -/
structure Alike (g g' : Graph κ) : Prop where
  boxed : g.Boxed g'
  endpoints : g'.endpoints = g.endpoints
  wires : g'.wireAt? = g.wireAt?
  signals : ∀ source sink, g'.SignalWire source sink ↔ g.SignalWire source sink

/-- Connections at which the program stops claim slots like any other, so they are in both. -/
theorem Reordered.mem_iff {cords cords' : List Cord} (hOrder : g.Reordered cords cords')
    {c : Cord} (hStops : g.stops c = true) : c ∈ cords' ↔ c ∈ cords := by
  obtain ⟨w, hWire⟩ := Option.isSome_iff_exists.mp (wireFor?_of_stops hStops)
  have hSlot : g.slotFor? c = some w.key := by
    rw [slotFor?, hWire]
    rfl
  have hMem : ∀ cords : List Cord,
      c ∈ cords ↔ c ∈ cords.filter fun c => g.slotFor? c = some w.key := by
    intro cords
    simp [List.mem_filter, hSlot]
  rw [hMem cords', hOrder, ← hMem cords]

/-- The program stops in both orders, or in neither. -/
theorem Reordered.any_stops {cords cords' : List Cord} (hOrder : g.Reordered cords cords') :
    cords'.any g.stops = cords.any g.stops := by
  rw [Bool.eq_iff_iff, List.any_eq_true, List.any_eq_true]
  exact exists_congr fun c => and_congr_left fun hStops => hOrder.mem_iff hStops

/-- **Connections may be made in any order** in which those that claim the same slot follow each
other as before. -/
theorem Built.alike_plugAll (h : g.Built) (hCounted : g.Counted) {cords cords' : List Cord}
    (hOrder : g.Reordered cords cords') (hGo : ∀ c ∈ cords, g.stops c = false)
    (hGo' : ∀ c ∈ cords', g.stops c = false) : (g.plugAll cords).Alike (g.plugAll cords') := by
  obtain ⟨hBoxed, hEndpoints, -⟩ := boxed_plugAll h.exclusive cords
  obtain ⟨hBoxed', hEndpoints', -⟩ := boxed_plugAll h.exclusive cords'
  have hSame : (g.plugAll cords').wireAt? = (g.plugAll cords).wireAt? := by
    funext slot
    rw [wireAt?_plugAll h.exclusive hCounted hGo', wireAt?_plugAll h.exclusive hCounted hGo,
      lastClaim?, lastClaim?, hOrder slot]
  refine ⟨hBoxed.symm.trans hBoxed', hEndpoints'.trans hEndpoints.symm, hSame, fun source sink => ?_⟩
  rw [(h.plugAll cords').signalWire_iff, (h.plugAll cords).signalWire_iff, hSame]

namespace Alike

theorem symm (h : g.Alike g') : g'.Alike g :=
  ⟨h.boxed.symm, h.endpoints.symm, h.wires.symm, fun source sink => (h.signals source sink).symm⟩

theorem size (h : g.Alike g') : g'.size = g.size :=
  Nat.le_antisymm h.boxed.symm.size_le h.boxed.size_le

/-- Changing a box changes no wire. -/
theorem modifyNode (h : g.Alike g') (i : Nat) {f : Node κ → Node κ}
    (hf : ∀ n n', g.nodes[i]? = some n → n'.bare = n.bare → (f n').bare = (f n).bare) :
    (g.modifyNode i f).Alike (g'.modifyNode i f) :=
  ⟨h.boxed.modifyNode i hf, h.endpoints, h.wires, h.signals⟩

theorem signalSource? (h : g.Alike g') (node inlet : Nat) :
    g'.signalSource? node inlet = g.signalSource? node inlet := by
  rw [Graph.signalSource?, Graph.signalSource?, wireInto?_eq, wireInto?_eq, h.wires]

theorem messageTarget? (h : g.Alike g') (node outlet : Nat) :
    g'.messageTarget? node outlet = g.messageTarget? node outlet := by
  rw [Graph.messageTarget?, Graph.messageTarget?, wireFrom?_eq, wireFrom?_eq, h.wires]

/-- What an inlet reads is no matter of the inlets of placeholders. -/
theorem inputOf (h : g.Alike g') : g'.inputOf = g.inputOf := by
  have hBind : ∀ (x : Option (Node κ)) (outlet : Nat),
      (x.bind fun n => n.outputs[outlet]?) = (x.map Node.outputs).bind (·[outlet]?) := by
    intro x outlet
    cases x <;> rfl
  funext slot
  unfold Graph.inputOf
  cases slot.feed with
  | unresolved => rfl
  | constant value => rfl
  | aliased source outlet =>
      simp only [hBind, h.boxed.map_eq (f := Node.outputs) (fun _ _ => rfl)]

/-- The inlets are pointed at the same outlets. -/
theorem resolve (h : g.Alike g') :
    Alike { g with nodes := g.nodes.mapIdx g.resolvedNode }
      { g' with nodes := g'.nodes.mapIdx g'.resolvedNode } := by
  have hResolve : ∀ i, g'.resolveInlet i = g.resolveInlet i := by
    intro i
    funext inlet slot
    rw [resolveInlet, resolveInlet, h.signalSource?]
  refine ⟨fun i => ?_, h.endpoints, h.wires, h.signals⟩
  simp only [Array.getElem?_mapIdx]
  cases hNode : g.nodes[i]? with
  | none =>
      rw [h.boxed.noNode hNode]
      rfl
  | some n =>
      obtain ⟨n', hNode', hBare⟩ := h.boxed.node hNode
      rw [hNode']
      refine congrArg some ?_
      rw [resolvedNode, resolvedNode, hResolve]
      exact Node.bare_onInlets hBare fun inlets => inlets.mapIdx (g.resolveInlet i)

/-- Graphs that are wired alike have the same circles. -/
theorem signalCycle? (h : g.Alike g') (hWired : g.WellWired) (hWired' : g'.WellWired)
    (hNone : g.signalCycle? = none) : g'.signalCycle? = none := by
  obtain ⟨rank, hUp, -⟩ := exists_ranked hWired hNone
  refine signalCycle?_eq_none_of_rank hWired' rank fun w hw hRate => ?_
  exact hUp _ _ ((h.signals _ _).mp ⟨w, hw, hRate, rfl, rfl⟩)

end Alike

end Graph

end Patchbay
