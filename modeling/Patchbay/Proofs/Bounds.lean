import Patchbay.Proofs.Ring
import Patchbay.Proofs.Trace

/-
Nothing that a frame looks up is missing.

Computing a box looks things up by number: the box, the boxes that its inlets point at, the
inputs that its hook asks for, and the samples of an input at a position modulo their
count.  Where a number leads nowhere these definitions put silence, so it has to be said
apart that no number does.  `InBounds` says it of an engine and `FindsInputs` of a box that
is being computed.

Two things are kept besides what is known of sound graphs.  Every box is `Fitted`: it has
the inlets that its hook counts on, and its buffers are as long as the rates of its outlets
say, also after its hook has filled them.  And every inlet that points at an outlet points
at one that carries a signal, since that is where its wire starts.  Both are established
while a patch is read, which only placeholders outgrow, and kept by every small change; and a
trace leads through all engines in which a hook is called.
-/

namespace Patchbay

/-! ### Reading by position -/

namespace Input

/-- The samples that are there to be read. -/
def slice : Input → Array Float32
  | .constant v => #[v]
  | .signal samples => samples

/-- Whatever position is read, there is a sample. -/
structure Readable (x : Input) : Prop where
  nonempty : 0 < x.slice.size
  sample : ∀ i, x.slice[i % x.slice.size]? = some (x.sample i)

theorem readable_constant (v : Float32) : (Input.constant v).Readable := by
  refine ⟨Nat.zero_lt_one, fun i => ?_⟩
  simp [slice, Input.sample, Nat.mod_one]

/-- A buffer can be read, also an empty one, which reads as silence. -/
theorem readable_ofBuffer (samples : Array Float32) : (ofBuffer samples).Readable := by
  unfold ofBuffer
  split
  · exact readable_constant 0
  · rename_i hFull
    have hPos : 0 < samples.size := by
      rw [Array.isEmpty_iff_size_eq_zero] at hFull
      exact Nat.pos_of_ne_zero hFull
    refine ⟨hPos, fun i => ?_⟩
    have hLess : i % samples.size < samples.size := Nat.mod_lt i hPos
    simp [slice, Input.sample, hLess]

end Input

theorem Graph.readable_inputOf {κ : Type} (g : Graph κ) (slot : InletSlot) :
    (g.inputOf slot).Readable := by
  unfold inputOf
  split
  · exact Input.readable_constant 0
  · exact Input.readable_constant _
  · split
    · exact Input.readable_ofBuffer _
    · exact Input.readable_constant 0

/-! ### Objects -/

/-- How many samples the buffer of an outlet holds. -/
def Rate.bufferLength (size : Nat) : Rate → Nat
  | .signal => size
  | .message => 0

section Buffers

variable {σ : Type} (outputs : Array (Array Float32)) (i : Nat)

theorem size_setFirst {samples buffer : Array Float32} (hFirst : outputs[0]? = some buffer)
    (hSize : samples.size = buffer.size) :
    (outputs.setIfInBounds 0 samples)[i]?.map Array.size = outputs[i]?.map Array.size := by
  rw [Array.getElem?_setIfInBounds]
  by_cases hi : 0 = i
  · subst hi
    have hPos := (Array.getElem?_eq_some_iff.mp hFirst).1
    rw [if_pos rfl, if_pos hPos, hFirst, Option.map_some, Option.map_some, hSize]
  · rw [if_neg hi]

/-- Filling the first buffer keeps the length of every buffer. -/
theorem size_renderFirst (step : Nat → σ → Float32 × σ) (start : σ) :
    (renderFirst outputs step start).1[i]?.map Array.size = outputs[i]?.map Array.size := by
  unfold renderFirst
  split
  · rfl
  · rename_i buffer hFirst
    exact size_setFirst outputs i hFirst (size_renderBlock _ _ _)

theorem size_renderFirstPlain (sample : Nat → Float32) :
    (renderFirstPlain outputs sample)[i]?.map Array.size = outputs[i]?.map Array.size := by
  unfold renderFirstPlain
  split
  · rfl
  · rename_i buffer hFirst
    exact size_setFirst outputs i hFirst (size_renderPlain _ _)

end Buffers

namespace Object

variable {κ : Type}

/-- How many inputs the hook of an object takes without asking whether they are there.  The
oscillators do that with their frequency; the other built-in kinds ask. -/
def indexedInputs : Object κ → Nat
  | .osc _ => 1
  | .phasor _ => 1
  | _ => 0

variable [CustomKind κ]

theorem indexedInputs_preinit {o : Object κ} {args : List String} {layout : Layout}
    (h : o.isBuiltin = true) (hInputs : o.indexedInputs ≤ layout.inlets) :
    (o.preinit args layout).1.indexedInputs ≤ (o.preinit args layout).2.inlets := by
  cases o with
  | custom k => simp [isBuiltin] at h
  | osc s => exact hInputs
  | phasor s => exact hInputs
  | _ => exact Nat.zero_le _

theorem indexedInputs_init (scope : InitScope) {o : Object κ} (h : o.isBuiltin = true) :
    (o.init scope).1.indexedInputs = o.indexedInputs := by
  cases o with
  | custom k => simp [isBuiltin] at h
  | _ => rfl

theorem indexedInputs_onMessage (scope : MessageScope) (arrival : Arrival) (m : Message)
    {o : Object κ} (h : o.isBuiltin = true) :
    (o.onMessage scope arrival m).1.indexedInputs = o.indexedInputs := by
  cases o with
  | custom k => simp [isBuiltin] at h
  | _ => rfl

theorem indexedInputs_process (scope : FrameScope) (inputs : Array Input)
    (outputs : Array (Array Float32)) {o : Object κ} (h : o.isBuiltin = true) :
    (o.process scope inputs outputs).state.indexedInputs = o.indexedInputs := by
  cases o with
  | custom k => simp [isBuiltin] at h
  | _ => rfl

/-- The hooks of the built-in kinds keep the length of every buffer. -/
theorem size_process (scope : FrameScope) (inputs : Array Input)
    (outputs : Array (Array Float32)) {o : Object κ} (h : o.isBuiltin = true) (i : Nat) :
    (o.process scope inputs outputs).outputs[i]?.map Array.size = outputs[i]?.map Array.size := by
  cases o with
  | custom k => simp [isBuiltin] at h
  | osc s =>
      simp only [process, Osc.process, Processed.map, Processed.buffers]
      exact size_renderFirst outputs i _ _
  | phasor s =>
      simp only [process, Phasor.process, Processed.map, Processed.buffers]
      exact size_renderFirst outputs i _ _
  | ramp s =>
      simp only [process, Ramp.process, Processed.map, Processed.buffers]
      exact size_renderFirst outputs i _ _
  | signalBinop s =>
      simp only [process, SignalBinop.process]
      split
      · exact size_renderFirstPlain outputs i _
      · rfl
  | mtof =>
      simp only [process, noteFrequencies]
      split
      · exact size_renderFirstPlain outputs i _
      · rfl
  | tableReader s =>
      simp only [process, TableReader.process]
      split
      · rfl
      · split
        · exact size_renderFirstPlain outputs i _
        · exact size_renderFirstPlain outputs i _
  | _ => rfl

end Object

namespace Registry

variable {κ : Type}

/-- Every built-in kind has the inlets that its hook counts on. -/
theorem indexedInputs_builtinKinds : ∀ d ∈ (builtinKinds : List (KindDecl κ)), ∀ args,
    (d.make args).1.indexedInputs ≤ d.layout.inlets := by
  simp only [builtinKinds, structuralKinds, signalKinds, controlKinds, SignalOp.all, Operator.all,
    List.map_cons, List.map_nil, List.forall_mem_append, List.forall_mem_cons, List.not_mem_nil,
    false_implies, implies_true, and_true]
  and_intros
  all_goals intro args
  -- The oscillators have two inlets and count on one; the other hooks count on none.
  all_goals first
    | exact Nat.zero_le _
    | exact Nat.le_succ 1

theorem indexedInputs_resolve (kind : String) (args : List String) :
    (((builtin : Registry κ).resolve kind).1.make args).1.indexedInputs ≤
      ((builtin : Registry κ).resolve kind).1.layout.inlets :=
  resolve_keeps (p := fun d => ∀ args, (d.make args).1.indexedInputs ≤ d.layout.inlets)
    indexedInputs_builtinKinds (fun _ => Nat.zero_le _) kind args

end Registry

/-! ### Boxes -/

namespace Node

variable {κ : Type} {size : Nat} {n : Node κ}

/-- The box has what its hook counts on, for frames of so many samples. -/
structure Fitted (size : Nat) (n : Node κ) : Prop where
  builtin : n.object.isBuiltin = true
  inputs : n.object.indexedInputs ≤ n.inlets.size
  /-- The buffers of signal outlets hold a frame, those of message outlets nothing. -/
  buffers : ∀ i : Nat, n.outputs[i]?.map Array.size = n.outlets[i]?.map (Rate.bufferLength size)

/-- A box that is made has inlets as its layout says, and buffers for its outlets. -/
theorem fitted_new {object : Object κ} (h : object.isBuiltin = true) {inlets outlets : List Rate}
    (hInputs : object.indexedInputs ≤ inlets.length) (kind : String) (args : List String)
    (position : Position) (endpoint : Bool) (size : Nat) :
    (Node.new kind args position endpoint inlets outlets object size).Fitted size := by
  refine ⟨h, ?_, fun i => ?_⟩
  · simpa [Node.new] using hInputs
  · simp only [Node.new, List.getElem?_toArray, List.getElem?_map, Option.map_map]
    congr 1
    funext rate
    cases rate with
    | signal => exact Array.size_replicate
    | message => rfl

theorem Fitted.withInlets (h : n.Fitted size) {inlets : Array InletSlot}
    (hSize : inlets.size = n.inlets.size) : { n with inlets }.Fitted size :=
  ⟨h.builtin, hSize ▸ h.inputs, h.buffers⟩

/-- A hook that only changes its object. -/
theorem Fitted.withObject (h : n.Fitted size) {object : Object κ}
    (hEvolves : n.object.Evolves object)
    (hInputs : object.indexedInputs = n.object.indexedInputs) : { n with object }.Fitted size :=
  ⟨(hEvolves h.builtin).1, hInputs ▸ h.inputs, h.buffers⟩

end Node

namespace Graph

variable {κ : Type} {g g' : Graph κ} {size : Nat}

/-- Every box has what its hook counts on. -/
def Fitted (size : Nat) (g : Graph κ) : Prop :=
  ∀ n ∈ g.nodes, n.Fitted size

/-- Every inlet that points at an outlet points at a signal outlet of a node that is there. -/
def Aliased (g : Graph κ) : Prop :=
  ∀ n ∈ g.nodes, ∀ slot ∈ n.inlets, ∀ source outlet, slot.feed = .aliased source outlet →
    g.outletRate? source outlet = some .signal

theorem Fitted.modifyNode (h : g.Fitted size) (i : Nat) {f : Node κ → Node κ}
    (hf : ∀ n, g.nodes[i]? = some n → n.Fitted size → (f n).Fitted size) :
    (g.modifyNode i f).Fitted size :=
  forall_modifyNode h i hf

theorem Fitted.modifyInlet (h : g.Fitted size) (i inlet : Nat) (f : InletSlot → InletSlot) :
    (g.modifyNode i fun n => { n with inlets := n.inlets.modify inlet f }).Fitted size :=
  h.modifyNode i fun _ _ hFitted => hFitted.withInlets Array.size_modify

theorem Fitted.addNode (h : g.Fitted size) {n : Node κ} (hFitted : n.Fitted size) :
    (g.addNode n).Fitted size := by
  intro m hm
  rcases Array.mem_push.mp hm with hm | rfl
  · exact h m hm
  · exact hFitted

/-- Only placeholders get another row of inlets, and they count on none. -/
theorem Fitted.reachInlet (h : g.Fitted size) {sink inlet : Nat} {grown : Graph κ}
    (hReach : g.reachInlet sink inlet = .ok grown) : grown.Fitted size := by
  refine forall_reachInlet h (fun n inlets hNull hFitted => ?_) hReach
  have hObject : n.object = .null := Object.isPlaceholder_iff.mp hNull
  refine ⟨hFitted.builtin, ?_, hFitted.buffers⟩
  show n.object.indexedInputs ≤ _
  rw [hObject]
  exact Nat.zero_le _

theorem Fitted.connect (h : g.Fitted size) {source outlet sink inlet : Nat} {rate : Rate}
    {entries : List Entry}
    (hConnect : g.connect source outlet sink inlet = .ok (rate, g', entries)) :
    g'.Fitted size := by
  obtain ⟨grown, -, hReach, rfl⟩ := connect_eq_ok hConnect
  intro n hn
  rw [nodes_putWire] at hn
  exact h.reachInlet hReach n hn

theorem Fitted.setup (h : g.Fitted size) {resolved : Graph κ} (hSetup : g.setup = .ok resolved) :
    resolved.Fitted size := by
  obtain ⟨-, rfl⟩ := setup_eq_ok hSetup
  intro n hn
  obtain ⟨i, hi, rfl⟩ := Array.mem_mapIdx.mp hn
  exact (h g.nodes[i] (Array.getElem_mem hi)).withInlets Array.size_mapIdx

/-- What points at an outlet once the inlets are resolved points along a wire. -/
theorem Draft.aliased_setup (h : g.Draft) {resolved : Graph κ}
    (hSetup : g.setup = .ok resolved) : resolved.Aliased := by
  obtain ⟨-, rfl⟩ := setup_eq_ok hSetup
  intro n' hn' slot' hSlot' source outlet hFeed
  obtain ⟨i, hi, rfl⟩ := Array.mem_mapIdx.mp hn'
  obtain ⟨k, hk, rfl⟩ := Array.mem_mapIdx.mp hSlot'
  have hUnfed := (h.boxes g.nodes[i] (Array.getElem_mem hi)).unfed _ (Array.getElem_mem hk)
  obtain ⟨w, hw, hRate, rfl, rfl, -⟩ := h.wire_of_resolveInlet hUnfed hFeed
  have hSource := h.wired.sourceRate w hw
  rw [hRate] at hSource
  unfold outletRate? at hSource ⊢
  simp only [Array.getElem?_mapIdx, Option.bind_map]
  exact hSource

/-- What points at an outlet pointed at it before. -/
theorem Aliased.evolves (h : g.Aliased) (hEvolves : g.Evolves g') : g'.Aliased := by
  intro n' hn' slot' hSlot' source outlet hFeed
  obtain ⟨i, hi⟩ := Array.mem_iff_getElem?.mp hn'
  obtain ⟨n, slot, hNode, hSlot, hOld⟩ := hEvolves.aliasedBefore hi hSlot' hFeed
  rw [hEvolves.outletRate?]
  exact h n (Array.mem_of_getElem? hNode) slot hSlot source outlet hOld

end Graph

namespace Engine

variable {κ : Type} [CustomKind κ] {e e' : Engine κ} {size : Nat}

/-! ### While a patch is loaded -/

theorem fitted_createNode (h : e.Drafting) (hFitted : e.graph.Fitted e.settings.bufferSize)
    (kind : String) (position : Position) (args : List String) :
    (e.createNode kind position args).graph.Fitted e.settings.bufferSize := by
  have hSuits := Registry.suits_resolve (κ := κ) (writtenKind kind)
  have hInputs := Registry.indexedInputs_resolve (κ := κ) (writtenKind kind) args
  rw [← h.registry] at hSuits hInputs
  have hBuiltin := hSuits.builtin args
  refine hFitted.addNode (Node.fitted_new ?_ ?_ _ _ _ _ _)
  · exact (Object.evolves_preinit args _ _ hBuiltin).1
  · rw [List.length_map, List.length_range]
    exact Object.indexedInputs_preinit hBuiltin hInputs

/-- An engine whose patch is being read, and whose boxes have what their hooks count on. -/
structure Furnishing (e : Engine κ) : Prop extends e.Drafting where
  fitted : e.graph.Fitted e.settings.bufferSize

theorem fitted_initNode (h : e.graph.Fitted size) (node : Nat) :
    (e.initNode node).graph.Fitted size := by
  refine graph_initNode_keeps (fun g k n scope hNode hBoxes => ?_)
    (fun g k inlet value hBoxes => hBoxes.modifyInlet k inlet _) e node h
  refine hBoxes.modifyNode k fun m hm hFitted => ?_
  obtain rfl := Option.some.inj (hNode.symm.trans hm)
  exact hFitted.withObject (Object.evolves_init scope n.object)
    (Object.indexedInputs_init scope hFitted.builtin)

theorem fitted_initNodes (h : e.graph.Fitted size) : e.initNodes.graph.Fitted size :=
  List.foldlRecOn (motive := fun e : Engine κ => e.graph.Fitted size) _ _ h
    fun _ he node _ => fitted_initNode he node

/-- What a patch is like that has been read but not set up. -/
theorem Live.furnishing_build (h : e.Live) {source : String}
    (hLoad : e.load source = (.ok (), e')) : (e.build (Patch.read source)).Furnishing := by
  have hEmpty := h.empty_of_load hLoad
  refine build_keeps (applyResult_keeps (fun _ kind position args h => ?_)
    (fun _ _ _ _ _ _ _ _ hConnect h => ?_) fun _ _ _ h => ?_) _ ⟨?_, ?_⟩
  · exact ⟨h.createNode kind position args,
      fitted_createNode h.toDrafting h.fitted kind position args⟩
  · exact ⟨⟨h.registry, h.graph.connect hConnect, h.loaded⟩, h.fitted.connect hConnect⟩
  · exact ⟨⟨h.registry, h.graph, h.loaded⟩, h.fitted⟩
  · exact ⟨h.sound.registry, hEmpty ▸ .empty, rfl⟩
  · show e.graph.Fitted _
    rw [hEmpty]
    exact fun n hn => absurd hn (by simp [Graph.empty])

theorem Live.fitted_load (h : e.Live) {source : String} (hLoad : e.load source = (.ok (), e')) :
    e'.graph.Fitted e'.settings.bufferSize ∧ e'.graph.Aliased := by
  have hRead := h.furnishing_build hLoad
  have hSettings : e'.settings = (e.build (Patch.read source)).settings :=
    (settings_load hLoad).trans (unmoved_build e (Patch.read source)).settings.symm
  obtain ⟨resolved, entry, -, hSetup, rfl⟩ := load_ok hLoad
  rw [hSettings]
  refine ⟨fitted_initNodes (hRead.fitted.setup hSetup), ?_⟩
  have hDressed := dresses_initNodes (e.resolvedBy source resolved)
  exact (hRead.graph.aliased_setup hSetup).evolves hDressed.graph

/-! ### While the engine is used -/

theorem Touch.fitted (hTouch : Touch e e') (h : e.graph.Fitted size) : e'.graph.Fitted size := by
  cases hTouch with
  | observe node inlet m =>
      show (e.graph.observe node inlet m).Fitted size
      rw [Graph.observe_eq]
      exact h.modifyInlet node inlet _
  | handle node arrival m =>
      refine h.modifyNode node fun n _ hFitted => ?_
      exact hFitted.withObject (Object.evolves_onMessage _ arrival m n.object)
        (Object.indexedInputs_onMessage _ arrival m hFitted.builtin)
  | note journal => exact h
  | drive state overflow sink => exact h

theorem Change.fitted (hChange : Change e e') (h : e.graph.Fitted size) :
    e'.graph.Fitted size := by
  cases hChange with
  | beginFrame => exact h
  | schedule due commands => exact h
  | work hWork =>
      cases hWork with
      | touch hTouch => exact hTouch.fitted h
      | silence => exact h
      | endFrame => exact h
      | process node =>
          unfold processNode
          cases hNode : e.graph.nodes[node]? with
          | none => exact h
          | some n =>
              refine h.modifyNode node fun m hm hFitted => ?_
              obtain rfl := Option.some.inj (hNode.symm.trans hm)
              have hBuiltin := hFitted.builtin
              refine ⟨(Object.evolves_process _ _ _ _ hBuiltin).1, ?_, fun i => ?_⟩
              · rw [Object.indexedInputs_process _ _ _ hBuiltin]
                exact hFitted.inputs
              · exact (Object.size_process _ _ _ hBuiltin i).trans (hFitted.buffers i)

theorem Live.fitted (h : e.Live) :
    e.graph.Fitted e.settings.bufferSize ∧ e.graph.Aliased := by
  induction h with
  | new settings =>
      have hNone : ∀ n : Node κ, n ∉ (Engine.new settings .builtin : Engine κ).graph.nodes :=
        fun n hn => by simp [Engine.new, Graph.empty] at hn
      exact ⟨fun n hn => absurd hn (hNone n), fun n hn => absurd hn (hNone n)⟩
  | load hLive hLoad => exact hLive.fitted_load hLoad
  | change _ hChange ih =>
      rw [hChange.lengths.1]
      exact ⟨hChange.fitted ih.1, ih.2.evolves hChange.steady.graph⟩

theorem Live.size_output (h : e.Live) : e.output.size = e.settings.frameLength := by
  induction h with
  | new settings => exact Array.size_replicate
  | @load e e' source _ hLoad ih =>
      have hApart := apart_load e source
      rw [hLoad] at hApart
      rw [hApart.output, hApart.settings]
      exact ih
  | change _ hChange ih =>
      rw [hChange.lengths.1, hChange.lengths.2]
      exact ih

/-! ### In bounds -/

/-- Whatever is stored as a number in an engine leads somewhere, and everything has its length. -/
structure InBounds (e : Engine κ) : Prop where
  endpoints : ∀ i ∈ e.graph.endpoints, i < e.graph.size
  wires : ∀ w ∈ e.graph.wires, w.source < e.graph.size ∧ w.sink < e.graph.size
  /-- What an inlet points at is a signal outlet of a node. -/
  aliases : e.graph.Aliased
  /-- Signal outlets have a frame of samples, and hooks the inlets that they count on. -/
  boxes : e.graph.Fitted e.settings.bufferSize
  output : e.output.size = e.settings.bufferSize * e.settings.channels

/-- What is there for the hook of a box that is computed. -/
structure FindsInputs (e : Engine κ) (node : Nat) (n : Node κ) : Prop where
  there : e.graph.nodes[node]? = some n
  inputs : n.object.indexedInputs ≤ (e.graph.inputsOf n).size
  readable : ∀ x ∈ e.graph.inputsOf n, x.Readable
  /-- The buffers that the hook fills are none that it reads. -/
  apart : ∀ slot ∈ n.inlets, ∀ outlet, slot.feed ≠ .aliased node outlet

theorem Live.inBounds (h : e.Live) : e.InBounds := by
  have hSound := h.sound.graph
  refine ⟨fun i hi => ?_, fun w hw => ?_, h.fitted.2, h.fitted.1, h.size_output⟩
  · obtain ⟨n, hNode, -⟩ := (hSound.listed.mem i).mp hi
    exact (Array.getElem?_eq_some_iff.mp hNode).1
  · exact ⟨hSound.wired.sourceInRange hw, hSound.wired.sinkInRange w hw⟩

theorem Live.findsInputs (h : e.Live) {node : Nat} (hNode : node < e.graph.size) :
    ∃ n, e.FindsInputs node n := by
  have hThere : e.graph.nodes[node]? = some e.graph.nodes[node] := Array.getElem?_eq_getElem hNode
  refine ⟨_, hThere, ?_, fun x hx => ?_, fun slot hSlot outlet hFeed => ?_⟩
  · rw [Graph.inputsOf, Array.size_map]
    exact (h.fitted.1 _ (Array.getElem_mem hNode)).inputs
  · obtain ⟨slot, -, rfl⟩ := Array.mem_map.mp hx
    exact e.graph.readable_inputOf slot
  · obtain ⟨rank, hRank⟩ := h.sound.graph.ranked
    have hWire := h.sound.graph.fed node _ hThere slot hSlot node outlet hFeed
    exact hRank.not_onSignalCycle node (.single hWire)

/--
**Rendering never looks anything up that is not there.**  Whatever the settings are, whatever
patch of built-in kinds has been loaded and whatever is done with it then: whenever a frame
begins, a message reaches a box or a box is computed, and once all is done, every number in
the engine leads somewhere, every signal outlet has a frame of samples and so has the output.
The box that is computed or that a message reaches is there; the inputs that a hook counts on
are there; and they have a sample for every position, none of them in a buffer that the hook
is filling.
-/
theorem rendering_in_bounds {settings : Settings} {before : List (Happening κ)}
    {e₀ e₁ e : Engine κ} {source : String} {commands : List Command} {moments : List (Moment κ)}
    (hBefore : Run (.new settings .builtin) before e₀) (hLoad : e₀.load source = (.ok (), e₁))
    (hSession : Session e₁ commands moments e) :
    e.InBounds ∧
      (∀ x ∈ moments, x.engine.InBounds ∧ x.InRange) ∧
      ∀ d node, .computes d node ∈ moments → ∃ n, d.FindsInputs node n := by
  have hLive : e₁.Live := (hBefore.tale.live (.new settings)).load hLoad
  have hCourse := hSession.course (pullable_load hBefore hLoad)
  have hReached : ∀ {d : Engine κ}, Chain Change e₁ d → d.Live ∧ d.InBounds := by
    intro d hChain
    have hLater : d.Live := hChain.keeps (fun _ _ hChange hd => hd.change hChange) hLive
    exact ⟨hLater, hLater.inBounds⟩
  refine ⟨(hReached hCourse.changes).2, fun x hx => ?_, fun d node hx => ?_⟩
  · obtain ⟨hChain, hRange⟩ := hCourse.moment hx
    exact ⟨(hReached hChain).2, hRange⟩
  · obtain ⟨hChain, hRange⟩ := hCourse.moment hx
    exact (hReached hChain).1.findsInputs hRange

/-- An oscillator on both channels. -/
def tonePatch : String :=
  "#X obj 0 0 osc~ 440;\n#X obj 0 0 dac~;\n#X connect 0 0 1 0;\n#X connect 0 0 1 1;\n"

/-- Frames without samples, and an output without channels. -/
def hushed : Engine Empty :=
  loadedFrom ⟨44100, 0, 0, 1⟩ .builtin tonePatch

theorem load_hushed :
    (Engine.new ⟨44100, 0, 0, 1⟩ .builtin).load tonePatch = (.ok (), hushed) := by
  refine load_of_ranked id (by decide +kernel) ?_
  decide +kernel

theorem rendering_in_bounds_hushed :
    Run (.new ⟨44100, 0, 0, 1⟩ .builtin) [] (Engine.new ⟨44100, 0, 0, 1⟩ .builtin : Engine Empty) ∧
      (Engine.new ⟨44100, 0, 0, 1⟩ .builtin).load tonePatch = (.ok (), hushed) ∧
      Session hushed [.render 1] (hushed.trace (.render 1)) (hushed.perform (.render 1)).2 ∧
      (hushed.trace (.render 1)).length = 3 ∧
      ∀ x ∈ hushed.trace (.render 1), x.engine.InBounds ∧ x.InRange := by
  have hSession : Session hushed [.render 1] (hushed.trace (.render 1))
      (hushed.perform (.render 1)).2 :=
    Session.start.perform (.render 1)
  have hLength : (hushed.trace (.render 1)).length = 3 := by
    decide +kernel
  exact ⟨.start, load_hushed, hSession, hLength,
    (rendering_in_bounds .start load_hushed hSession).2.1⟩

end Engine

end Patchbay
