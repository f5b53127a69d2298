import Patchbay.Proofs.Wiring

/-
What a box keeps for as long as it lives.

Whatever is done with a graph once it has been set up, a box stays of the kind that it
was written as, with the slots that it got, and a signal inlet that a wire feeds stays
fed by that wire.  Only constants, buffers, stamps and the state inside the object
move.  `Evolves` says this for slots, boxes and graphs; it composes, and each of the
hooks of the built-in objects respects it.
-/

namespace Patchbay

/-! ### Objects -/

namespace Object

variable {κ : Type}

/-- Whether an object is of a built-in kind. -/
def isBuiltin : Object κ → Bool
  | .custom _ => false
  | _ => true

/-- Whether an object is the audio output, the only built-in one that adds to the output. -/
def isOutput : Object κ → Bool
  | .output => true
  | _ => false

/-- One object may become the other: built-in ones stay so, and stay outputs or not. -/
def Evolves (o o' : Object κ) : Prop :=
  o.isBuiltin = true → o'.isBuiltin = true ∧ o'.isOutput = o.isOutput

theorem Evolves.refl (o : Object κ) : o.Evolves o := fun h => ⟨h, rfl⟩

theorem Evolves.trans {o₁ o₂ o₃ : Object κ} (h₁ : o₁.Evolves o₂) (h₂ : o₂.Evolves o₃) :
    o₁.Evolves o₃ := fun h =>
  ⟨(h₂ (h₁ h).1).1, (h₂ (h₁ h).1).2.trans (h₁ h).2⟩

variable [CustomKind κ]

theorem evolves_preinit (args : List String) (layout : Layout) (o : Object κ) :
    o.Evolves (o.preinit args layout).1 := by
  intro h
  cases o with
  | custom k => simp [isBuiltin] at h
  | _ => exact ⟨rfl, rfl⟩

theorem evolves_init (scope : InitScope) (o : Object κ) : o.Evolves (o.init scope).1 := by
  intro h
  cases o with
  | custom k => simp [isBuiltin] at h
  | _ => exact ⟨rfl, rfl⟩

theorem evolves_onMessage (scope : MessageScope) (arrival : Arrival) (m : Message)
    (o : Object κ) : o.Evolves (o.onMessage scope arrival m).1 := by
  intro h
  cases o with
  | custom k => simp [isBuiltin] at h
  | _ => exact ⟨rfl, rfl⟩

theorem evolves_process (scope : FrameScope) (inputs : Array Input)
    (outputs : Array (Array Float32)) (o : Object κ) :
    o.Evolves (o.process scope inputs outputs).state := by
  intro h
  cases o with
  | custom k => simp [isBuiltin] at h
  | _ => exact ⟨rfl, rfl⟩

/-- The built-in kinds note nothing while a frame is computed. -/
theorem entries_process (scope : FrameScope) (inputs : Array Input)
    (outputs : Array (Array Float32)) {o : Object κ} (h : o.isBuiltin = true) :
    (o.process scope inputs outputs).entries = [] := by
  cases o with
  | custom k => simp [isBuiltin] at h
  | signalBinop s =>
      simp only [process, SignalBinop.process]
      split <;> rfl
  | tableReader s =>
      simp only [process, TableReader.process]
      split
      · rfl
      · split <;> rfl
  | _ => rfl

/-- Of the built-in kinds, only the output adds to the output. -/
theorem mixes_process (scope : FrameScope) (inputs : Array Input)
    (outputs : Array (Array Float32)) {o : Object κ} (h : o.isBuiltin = true)
    (hOutput : o.isOutput = false) : (o.process scope inputs outputs).mixes = [] := by
  cases o with
  | custom k => simp [isBuiltin] at h
  | output => simp [isOutput] at hOutput
  | signalBinop s =>
      simp only [process, SignalBinop.process]
      split <;> rfl
  | tableReader s =>
      simp only [process, TableReader.process]
      split
      · rfl
      · split <;> rfl
  | _ => rfl

end Object

/-! ### Slots and boxes -/

namespace InletSlot

/-- One inlet may become the other: a constant may turn into another one, nothing else changes. -/
structure Evolves (s s' : InletSlot) : Prop where
  rate : s'.rate = s.rate
  observers : s'.observers = s.observers
  feed : s'.feed = s.feed ∨ s.holdsConstant = true ∧ s'.holdsConstant = true

theorem Evolves.refl (s : InletSlot) : s.Evolves s := ⟨rfl, rfl, .inl rfl⟩

theorem Evolves.trans {s₁ s₂ s₃ : InletSlot} (h₁ : s₁.Evolves s₂) (h₂ : s₂.Evolves s₃) :
    s₁.Evolves s₃ := by
  refine ⟨h₂.rate.trans h₁.rate, h₂.observers.trans h₁.observers, ?_⟩
  rcases h₁.feed with hSame₁ | ⟨hFrom, hMiddle⟩
  · rcases h₂.feed with hSame₂ | ⟨hMiddle, hTo⟩
    · exact .inl (hSame₂.trans hSame₁)
    · refine .inr ⟨?_, hTo⟩
      rw [holdsConstant, ← hSame₁]
      exact hMiddle
  · rcases h₂.feed with hSame₂ | ⟨-, hTo⟩
    · refine .inr ⟨hFrom, ?_⟩
      rw [holdsConstant, hSame₂]
      exact hMiddle
    · exact .inr ⟨hFrom, hTo⟩

/-- What is fed by an outlet was fed by it before. -/
theorem Evolves.aliased {s s' : InletSlot} (h : s.Evolves s') {node outlet : Nat}
    (hFeed : s'.feed = .aliased node outlet) : s.feed = .aliased node outlet := by
  rcases h.feed with hSame | ⟨-, hTo⟩
  · exact hSame ▸ hFeed
  · simp [holdsConstant, hFeed] at hTo

theorem evolves_setConstant (s : InletSlot) (value : Float32) :
    s.Evolves (s.setConstant value) := by
  unfold setConstant
  split
  · rename_i old hFeed
    exact ⟨rfl, rfl, .inr ⟨by simp [holdsConstant, hFeed], rfl⟩⟩
  · exact .refl s

/-- An inlet after its observers have seen a message. -/
def observed (m : Message) (s : InletSlot) : InletSlot :=
  match m.leadingNumber? with
  | none => s
  | some value => s.observers.foldl (fun s o => match o with
      | .setConstant => s.setConstant value) s

theorem evolves_observed (m : Message) (s : InletSlot) : s.Evolves (s.observed m) := by
  unfold observed
  cases m.leadingNumber? with
  | none => exact .refl s
  | some value =>
      have hFold : ∀ (observers : List Observer) (s₀ : InletSlot), s.Evolves s₀ →
          s.Evolves (observers.foldl (fun s o => match o with
            | .setConstant => s.setConstant value) s₀) := by
        intro observers
        induction observers with
        | nil => intro s₀ h; exact h
        | cons o observers ih => intro s₀ h; exact ih _ (h.trans (evolves_setConstant s₀ value))
      exact hFold s.observers s (.refl s)

end InletSlot

namespace Node

variable {κ : Type}

/-- One box may become the other. -/
structure Evolves (n n' : Node κ) : Prop where
  kind : n'.kind = n.kind
  args : n'.args = n.args
  endpoint : n'.endpoint = n.endpoint
  outlets : n'.outlets = n.outlets
  inletCount : n'.inlets.size = n.inlets.size
  inlets : ∀ (i : Nat) (s s' : InletSlot), n.inlets[i]? = some s →
    n'.inlets[i]? = some s' → s.Evolves s'
  object : n.object.Evolves n'.object

theorem Evolves.refl (n : Node κ) : n.Evolves n := by
  refine ⟨rfl, rfl, rfl, rfl, rfl, ?_, .refl _⟩
  intro i s s' h h'
  obtain rfl := Option.some.inj (h.symm.trans h')
  exact .refl s

theorem Evolves.trans {n₁ n₂ n₃ : Node κ} (h₁ : n₁.Evolves n₂) (h₂ : n₂.Evolves n₃) :
    n₁.Evolves n₃ := by
  refine ⟨h₂.kind.trans h₁.kind, h₂.args.trans h₁.args, h₂.endpoint.trans h₁.endpoint,
    h₂.outlets.trans h₁.outlets, h₂.inletCount.trans h₁.inletCount, ?_, h₁.object.trans h₂.object⟩
  intro i s s' h h'
  have hLt : i < n₂.inlets.size := h₁.inletCount ▸ (Array.getElem?_eq_some_iff.mp h).1
  have hMiddle : n₂.inlets[i]? = some n₂.inlets[i] := Array.getElem?_eq_getElem hLt
  exact (h₁.inlets i s _ h hMiddle).trans (h₂.inlets i _ s' hMiddle h')

/-- A box with new inlets of its own. -/
theorem evolves_modifyInlet (n : Node κ) (i : Nat) {f : InletSlot → InletSlot}
    (h : ∀ s : InletSlot, s.Evolves (f s)) :
    n.Evolves { n with inlets := n.inlets.modify i f } := by
  refine ⟨rfl, rfl, rfl, rfl, Array.size_modify, ?_, .refl _⟩
  intro j s s' hs hs'
  simp only [Array.getElem?_modify, hs] at hs'
  split at hs'
  · obtain rfl := Option.some.inj hs'
    exact h s
  · obtain rfl := Option.some.inj hs'
    exact .refl s

/-- A box with another object, and whatever buffers and stamp. -/
theorem evolves_object (n : Node κ) {o : Object κ} (h : n.object.Evolves o)
    (outputs : Array (Array Float32)) (stamp : Nat) :
    n.Evolves { n with object := o, outputs, stamp } := by
  refine ⟨rfl, rfl, rfl, rfl, rfl, ?_, h⟩
  intro i s s' hs hs'
  obtain rfl := Option.some.inj (hs.symm.trans hs')
  exact .refl s

end Node

/-! ### Graphs -/

namespace Graph

variable {κ : Type} {g : Graph κ}

/-- One graph may become the other: the wires stay, and every box may become what it becomes. -/
structure Evolves (g g' : Graph κ) : Prop where
  wires : g'.wires = g.wires
  recent : g'.recent = g.recent
  endpoints : g'.endpoints = g.endpoints
  size : g'.size = g.size
  nodes : ∀ (i : Nat) (n n' : Node κ), g.nodes[i]? = some n → g'.nodes[i]? = some n' → n.Evolves n'

theorem Evolves.refl (g : Graph κ) : g.Evolves g := by
  refine ⟨rfl, rfl, rfl, rfl, ?_⟩
  intro i n n' h h'
  obtain rfl := Option.some.inj (h.symm.trans h')
  exact .refl n

theorem Evolves.trans {g₁ g₂ g₃ : Graph κ} (h₁ : g₁.Evolves g₂) (h₂ : g₂.Evolves g₃) :
    g₁.Evolves g₃ := by
  refine ⟨h₂.wires.trans h₁.wires, h₂.recent.trans h₁.recent, h₂.endpoints.trans h₁.endpoints,
    h₂.size.trans h₁.size, ?_⟩
  intro i n n' h h'
  have hLt : i < g₂.nodes.size := by
    have hSize := h₁.size
    rw [Graph.size, Graph.size] at hSize
    exact hSize ▸ (Array.getElem?_eq_some_iff.mp h).1
  have hMiddle : g₂.nodes[i]? = some g₂.nodes[i] := Array.getElem?_eq_getElem hLt
  exact (h₁.nodes i n _ h hMiddle).trans (h₂.nodes i _ n' hMiddle h')

/-- Without boxes nothing comes of a graph. -/
theorem Evolves.eq_empty {g' : Graph κ} (h : Evolves .empty g') : g' = .empty := by
  have hNodes : g'.nodes = #[] := Array.size_eq_zero_iff.mp h.size
  show (⟨g'.nodes, g'.endpoints, g'.wires, g'.recent⟩ : Graph κ) = .empty
  rw [hNodes, h.endpoints, h.wires, h.recent]
  rfl

/-- What every box was before. -/
theorem Evolves.nodeBefore {g' : Graph κ} (h : g.Evolves g') {i : Nat} {n' : Node κ}
    (hNode : g'.nodes[i]? = some n') : ∃ n, g.nodes[i]? = some n ∧ n.Evolves n' := by
  have hLt : i < g.nodes.size := by
    have hSize := h.size
    rw [Graph.size, Graph.size] at hSize
    exact hSize ▸ (Array.getElem?_eq_some_iff.mp hNode).1
  have hBefore : g.nodes[i]? = some g.nodes[i] := Array.getElem?_eq_getElem hLt
  exact ⟨_, hBefore, h.nodes i _ n' hBefore hNode⟩

/-- What a slot becomes. -/
theorem Evolves.slotAfter {g' : Graph κ} (h : g.Evolves g') {i k : Nat} {n : Node κ}
    {slot : InletSlot} (hNode : g.nodes[i]? = some n) (hSlot : n.inlets[k]? = some slot) :
    ∃ n' slot', g'.nodes[i]? = some n' ∧ n'.inlets[k]? = some slot' ∧ n.Evolves n' ∧
      slot.Evolves slot' := by
  have hLt : i < g'.nodes.size := by
    have hSize := h.size
    rw [Graph.size, Graph.size] at hSize
    exact hSize ▸ (Array.getElem?_eq_some_iff.mp hNode).1
  have hAfter : g'.nodes[i]? = some g'.nodes[i] := Array.getElem?_eq_getElem hLt
  have hEvolves := h.nodes i n _ hNode hAfter
  have hInlet : k < g'.nodes[i].inlets.size :=
    hEvolves.inletCount ▸ (Array.getElem?_eq_some_iff.mp hSlot).1
  have hSlotAfter := Array.getElem?_eq_getElem hInlet
  exact ⟨_, _, hAfter, hSlotAfter, hEvolves, hEvolves.inlets k _ _ hSlot hSlotAfter⟩

theorem evolves_modifyNode (g : Graph κ) (i : Nat) {f : Node κ → Node κ}
    (h : ∀ n : Node κ, g.nodes[i]? = some n → n.Evolves (f n)) : g.Evolves (g.modifyNode i f) := by
  refine ⟨rfl, rfl, rfl, size_modifyNode g i f, ?_⟩
  intro j n n' hn hn'
  rw [getElem?_modifyNode, hn] at hn'
  split at hn'
  · rename_i hij
    subst hij
    obtain rfl := Option.some.inj hn'
    exact h n hn
  · obtain rfl := Option.some.inj hn'
    exact .refl n

/-- Replacing a box depends on what the change makes of that box alone. -/
theorem modifyNode_congr {i : Nat} {n : Node κ} (hNode : g.nodes[i]? = some n)
    {f f' : Node κ → Node κ} (h : f n = f' n) : g.modifyNode i f = g.modifyNode i f' := by
  have hNodes : (g.modifyNode i f).nodes = (g.modifyNode i f').nodes := by
    apply Array.ext_getElem?
    intro j
    rw [getElem?_modifyNode, getElem?_modifyNode]
    split
    · rename_i hij
      subst hij
      rw [hNode]
      simp [h]
    · rfl
  simp only [modifyNode] at hNodes ⊢
  rw [hNodes]

/-- Observers touch one inlet of one box. -/
theorem observe_eq (g : Graph κ) (node inlet : Nat) (m : Message) :
    g.observe node inlet m =
      g.modifyNode node fun n => { n with inlets := n.inlets.modify inlet (·.observed m) } := by
  unfold observe InletSlot.observed
  cases m.leadingNumber? with
  | some value => rfl
  | none =>
      have hSame : (g.modifyNode node fun n =>
          { n with inlets := n.inlets.modify inlet fun s => s }).nodes = g.nodes := by
        apply Array.ext_getElem?
        intro j
        rw [getElem?_modifyNode]
        split
        · have hInlets : ∀ slots : Array InletSlot, slots.modify inlet (fun s => s) = slots := by
            intro slots
            apply Array.ext_getElem?
            intro k
            simp [Array.getElem?_modify]
          simp [hInlets]
        · rfl
      show g = { g with nodes := (g.modifyNode node fun n =>
        { n with inlets := n.inlets.modify inlet fun s => s }).nodes }
      rw [hSame]

theorem getElem?_observe {g : Graph κ} {node : Nat} {n : Node κ} (hNode : g.nodes[node]? = some n)
    (inlet : Nat) (m : Message) : (g.observe node inlet m).nodes[node]? =
      some { n with inlets := n.inlets.modify inlet (·.observed m) } := by
  rw [observe_eq, getElem?_modifyNode, if_pos rfl, hNode]
  rfl

theorem evolves_observe (g : Graph κ) (node inlet : Nat) (m : Message) :
    g.Evolves (g.observe node inlet m) := by
  rw [observe_eq]
  exact g.evolves_modifyNode node fun n _ =>
    n.evolves_modifyInlet inlet fun s => s.evolves_observed m

end Graph

end Patchbay
