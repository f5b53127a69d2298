import Patchbay.Proofs.Builtin
import Patchbay.Proofs.Nesting
import Patchbay.Proofs.Reading
import Patchbay.Proofs.Sound

/-
Engines with the built-in kinds that have taken a patch.

`Live` is every engine that starts without a patch, may load one, and goes through any
changes before and after that.  Its graph is sound, and no box is stamped later than
the frame.

Loading is what takes work.  Every box that is made comes from a declaration that suits
its kind, and connecting feeds no inlet yet, so what is read from a patch is a draft;
setting up makes it sound, and what the boxes ask for while they are set up only lets
them evolve.
-/

namespace Patchbay

namespace Engine

variable {κ : Type} {e e' : Engine κ}

/-! ### What stays -/

/-- What no change to a loaded engine touches. -/
structure Steady (e e' : Engine κ) : Prop where
  graph : e.graph.Evolves e'.graph
  settings : e'.settings = e.settings
  registry : e'.registry = e.registry
  loaded : e'.loaded = e.loaded

theorem Steady.refl (e : Engine κ) : e.Steady e := ⟨.refl _, rfl, rfl, rfl⟩

theorem Steady.trans {e₁ e₂ e₃ : Engine κ} (h₁ : e₁.Steady e₂) (h₂ : e₂.Steady e₃) :
    e₁.Steady e₃ :=
  ⟨h₁.graph.trans h₂.graph, h₂.settings.trans h₁.settings, h₂.registry.trans h₁.registry,
    h₂.loaded.trans h₁.loaded⟩

theorem steady_onNode (e : Engine κ) (i : Nat) {f : Node κ → Node κ}
    (h : ∀ n : Node κ, e.graph.nodes[i]? = some n → n.Evolves (f n)) :
    e.Steady (e.onGraph fun g => g.modifyNode i f) :=
  ⟨e.graph.evolves_modifyNode i h, rfl, rfl, rfl⟩

variable [CustomKind κ]

theorem Touch.steady (h : Touch e e') : e.Steady e' := by
  cases h with
  | observe node inlet m => exact ⟨e.graph.evolves_observe node inlet m, rfl, rfl, rfl⟩
  | handle node arrival m =>
      refine steady_onNode e node fun n _ => ?_
      exact n.evolves_object (Object.evolves_onMessage _ arrival m n.object) n.outputs n.stamp
  | note journal => exact ⟨.refl _, rfl, rfl, rfl⟩
  | drive state overflow sink => exact ⟨.refl _, rfl, rfl, rfl⟩

theorem Work.steady (h : Work e e') : e.Steady e' := by
  cases h with
  | touch h => exact h.steady
  | process node =>
      unfold processNode
      cases hNode : e.graph.nodes[node]? with
      | none => exact .refl e
      | some n =>
          refine ⟨e.graph.evolves_modifyNode node fun m hm => ?_, rfl, rfl, rfl⟩
          obtain rfl := Option.some.inj (hNode.symm.trans hm)
          exact n.evolves_object (Object.evolves_process _ _ _ n.object) _ _
  | silence => exact ⟨.refl _, rfl, rfl, rfl⟩
  | endFrame => exact ⟨.refl _, rfl, rfl, rfl⟩

theorem Change.steady (h : Change e e') : e.Steady e' := by
  cases h with
  | work h => exact h.steady
  | beginFrame => exact ⟨.refl _, rfl, rfl, rfl⟩
  | schedule due commands => exact ⟨.refl _, rfl, rfl, rfl⟩

theorem steady_of_changes (h : Chain Change e e') : e.Steady e' :=
  h.keeps (fun _ _ hChange hSteady => hSteady.trans hChange.steady) (.refl e)

/-! ### Stamps -/

/-- What a box was stamped with, and what it put out then. -/
def printAt (e : Engine κ) (i : Nat) : Option (Nat × Array (Array Float32)) :=
  e.graph.nodes[i]?.map fun n => (n.stamp, n.outputs)

omit [CustomKind κ] in
theorem printAt_onNode (e : Engine κ) (k : Nat) {f : Node κ → Node κ}
    (hf : ∀ n, (f n).stamp = n.stamp ∧ (f n).outputs = n.outputs) (i : Nat) :
    (e.onGraph fun g => g.modifyNode k f).printAt i = e.printAt i := by
  simp only [printAt, onGraph, Graph.getElem?_modifyNode]
  split
  · rw [Option.map_map]
    congr 1
    funext n
    simp [hf]
  · rfl

/-- Messages and drives leave stamps and buffers alone. -/
theorem Touch.printAt (h : Touch e e') (i : Nat) : e'.printAt i = e.printAt i := by
  cases h with
  | observe node inlet m =>
      have hEq : (e.onGraph fun g => g.observe node inlet m) = e.onGraph fun g =>
          g.modifyNode node fun n => { n with inlets := n.inlets.modify inlet (·.observed m) } := by
        rw [onGraph, Graph.observe_eq]
        rfl
      rw [hEq]
      apply printAt_onNode
      exact fun n => ⟨rfl, rfl⟩
  | handle node arrival m =>
      apply printAt_onNode
      exact fun n => ⟨rfl, rfl⟩
  | note journal => rfl
  | drive state overflow sink => rfl

/-- Whether every box was last computed at a frame as allowed. -/
def StampsAre (p : Nat → Prop) (e : Engine κ) : Prop :=
  ∀ n ∈ e.graph.nodes, p n.stamp

omit [CustomKind κ] in
theorem stampsAre_iff {p : Nat → Prop} :
    StampsAre p e ↔ ∀ i, ∀ print ∈ e.printAt i, p print.1 := by
  refine ⟨fun h i print hPrint => ?_, fun h n hn => ?_⟩
  · obtain ⟨n, hn, rfl⟩ := Option.map_eq_some_iff.mp hPrint
    exact h n (Array.mem_of_getElem? hn)
  · obtain ⟨i, hi⟩ := Array.mem_iff_getElem?.mp hn
    exact h i (n.stamp, n.outputs) (by rw [Engine.printAt, hi]; rfl)

omit [CustomKind κ] in
theorem StampsAre.congr {p : Nat → Prop} (hStamps : StampsAre p e)
    (hPrints : ∀ i, e'.printAt i = e.printAt i) : StampsAre p e' := by
  rw [stampsAre_iff] at hStamps ⊢
  intro i print hPrint
  rw [hPrints] at hPrint
  exact hStamps i print hPrint

theorem Work.frame (h : Work e e') : e'.frame = e.frame := by
  cases h with
  | touch h => cases h <;> rfl
  | process node =>
      unfold processNode
      split <;> rfl
  | silence => rfl
  | endFrame => rfl

theorem Change.stampsAre_le (h : Change e e') (hStamps : StampsAre (· ≤ e.frame) e) :
    StampsAre (· ≤ e'.frame) e' := by
  cases h with
  | beginFrame => exact fun n hn => Nat.le_succ_of_le (hStamps n hn)
  | schedule due commands => exact hStamps
  | work h =>
      rw [h.frame]
      cases h with
      | touch h => exact hStamps.congr h.printAt
      | silence => exact hStamps
      | endFrame => exact hStamps
      | process node =>
          unfold processNode
          split
          · exact hStamps
          · intro n hn
            rcases Graph.mem_nodes_modifyNode hn with hOld | ⟨m, -, rfl⟩
            · exact hStamps n hOld
            · exact Nat.le_refl _

/-! ### Loading -/

/-- The box that is made for what a patch writes. -/
theorem fresh_new {kind : String} {decl : KindDecl κ} (h : Registry.Suits decl kind)
    (args : List String) (position : Position) (bufferSize : Nat) :
    (Node.new kind args position decl.endpoint
      ((List.range ((decl.make args).1.preinit args decl.layout).2.inlets).map decl.inletRate)
      ((decl.make args).1.preinit args decl.layout).2.outlets
      ((decl.make args).1.preinit args decl.layout).1 bufferSize).Fresh := by
  obtain ⟨hBuiltin, hOutput⟩ :=
    Object.evolves_preinit args decl.layout (decl.make args).1 (h.builtin args)
  refine ⟨⟨hBuiltin, ?_, h.endpoint, fun hKind => ?_⟩, fun slot hSlot => ?_, rfl⟩
  · show ((decl.make args).1.preinit args decl.layout).1.isOutput = true ↔ kind = "dac~"
    rw [hOutput, h.output]
    exact h.endpoint
  · have hEndpoint := h.endpoint.mpr hKind
    have hObject := h.output args
    rw [hEndpoint] at hObject
    have hKept : ((decl.make args).1.preinit args decl.layout).2 = decl.layout := by
      cases hMake : (decl.make args).1 <;> simp [hMake, Object.isOutput] at hObject
      rfl
    show ((decl.make args).1.preinit args decl.layout).2.outlets = []
    rw [hKept]
    exact h.outlets hEndpoint
  · obtain ⟨rate, -, rfl⟩ := List.mem_map.mp (List.mem_toArray.mp hSlot)
    rfl

/-- What holds of an engine while its patch is read. -/
structure Drafting (e : Engine κ) : Prop where
  registry : e.registry = .builtin
  graph : e.graph.Draft
  loaded : e.loaded = true

theorem Drafting.createNode (h : e.Drafting) (kind : String) (position : Position)
    (args : List String) : (e.createNode kind position args).Drafting := by
  refine ⟨h.registry, ?_, h.loaded⟩
  have hSuits := Registry.suits_resolve (κ := κ) (writtenKind kind)
  rw [← h.registry] at hSuits
  exact h.graph.addNode (fresh_new hSuits args position e.settings.bufferSize)

/-! ### Reading -/

/-- A directive makes a box, connects two, or leaves the graph alone.  What the first two keep, and
neither tables nor the journal matter to, every directive keeps. -/
theorem applyResult_keeps {p : Engine κ → Prop}
    (hCreate : ∀ (e : Engine κ) kind position args, p e → p (e.createNode kind position args))
    (hConnect : ∀ (e : Engine κ) source outlet sink inlet rate graph entries,
      e.graph.connect source outlet sink inlet = .ok (rate, graph, entries) →
        p e → p { e with graph })
    (hNote : ∀ (e : Engine κ) tables journal, p e → p { e with tables, journal })
    (b : Build κ) (r : Except Error Statement) (h : p b.engine) :
    p (applyResult b r).engine := by
  have hLog : ∀ (e : Engine κ) entries, p e → p (e.log entries) :=
    fun e _ he => hNote e e.tables _ he
  cases r with
  | error fault => exact hLog _ _ h
  | ok s =>
      simp only [applyResult, apply]
      split
      · exact hCreate _ _ _ _ h
      · exact hCreate _ _ _ _ h
      · exact hCreate _ _ _ _ h
      · exact hCreate _ _ _ _ (hLog _ _ (hNote _ _ b.engine.journal h))
      · exact h
      · unfold Engine.connect
        split
        · rename_i hConnected
          exact hLog _ _ (hConnect _ _ _ _ _ _ _ _ hConnected h)
        · exact h
        · exact hLog _ _ h
      · split
        · exact hNote _ _ b.engine.journal h
        · exact hLog _ _ h
      · exact h

/-- What carrying out one directive keeps, reading a whole patch keeps. -/
theorem build_keeps {p : Engine κ → Prop}
    (h : ∀ (b : Build κ) r, p b.engine → p (applyResult b r).engine)
    (statements : List (Except Error Statement)) (hStart : p { e with loaded := true }) :
    p (e.build statements) := by
  have hFold : ∀ (statements : List (Except Error Statement)) (b : Build κ),
      p b.engine → p (statements.foldl applyResult b).engine := by
    intro statements
    induction statements with
    | nil => intro b hb; exact hb
    | cons r statements ih => intro b hb; exact ih _ (h b r hb)
  exact hFold statements _ hStart

/-- A directive changes the graph, the tables and the journal at most. -/
theorem engine_applyResult (b : Build κ) (r : Except Error Statement) :
    ∃ graph tables journal, (applyResult b r).engine = { b.engine with graph, tables, journal } := by
  refine applyResult_keeps (p := fun e => ∃ graph tables journal,
    e = { b.engine with graph, tables, journal }) ?_ ?_ ?_ b r ⟨_, _, _, rfl⟩
  · rintro _ kind position args ⟨graph, tables, journal, rfl⟩
    exact ⟨_, _, _, rfl⟩
  · rintro _ source outlet sink inlet rate g entries - ⟨graph, tables, journal, rfl⟩
    exact ⟨_, _, _, rfl⟩
  · rintro _ tables' journal' ⟨graph, tables, journal, rfl⟩
    exact ⟨_, _, _, rfl⟩

/-- So does a whole patch, and reading it is noted. -/
theorem engine_build (e : Engine κ) (statements : List (Except Error Statement)) :
    ∃ graph tables journal,
      e.build statements = { e with loaded := true, graph, tables, journal } := by
  refine build_keeps (p := fun b => ∃ graph tables journal,
    b = { e with loaded := true, graph, tables, journal }) ?_ statements ⟨_, _, _, rfl⟩
  rintro b r ⟨_, _, _, hBefore⟩
  obtain ⟨_, _, _, hEngine⟩ := engine_applyResult b r
  rw [hEngine, hBefore]
  exact ⟨_, _, _, rfl⟩

theorem drafting_applyResult (b : Build κ) (r : Except Error Statement) (h : b.engine.Drafting) :
    (applyResult b r).engine.Drafting :=
  applyResult_keeps (fun _ kind position args h => h.createNode kind position args)
    (fun _ _ _ _ _ _ _ _ hConnect h => ⟨h.registry, h.graph.connect hConnect, h.loaded⟩)
    (fun _ _ _ h => ⟨h.registry, h.graph, h.loaded⟩) b r h

theorem drafting_build (hRegistry : e.registry = .builtin) (hGraph : e.graph.Draft)
    (statements : List (Except Error Statement)) : (e.build statements).Drafting :=
  build_keeps drafting_applyResult statements ⟨hRegistry, hGraph, rfl⟩

/-! ### Setting up -/

/-- What setting up the boxes does. -/
structure Dresses (e e' : Engine κ) : Prop extends Steady e e' where
  frame : e'.frame = e.frame
  prints : ∀ i, e'.printAt i = e.printAt i

omit [CustomKind κ] in
theorem Dresses.refl (e : Engine κ) : e.Dresses e := ⟨.refl e, rfl, fun _ => rfl⟩

omit [CustomKind κ] in
theorem Dresses.trans {e₁ e₂ e₃ : Engine κ} (h₁ : e₁.Dresses e₂) (h₂ : e₂.Dresses e₃) :
    e₁.Dresses e₃ :=
  ⟨h₁.toSteady.trans h₂.toSteady, h₂.frame.trans h₁.frame,
    fun i => (h₂.prints i).trans (h₁.prints i)⟩

/-- Setting up a box replaces its object and gives constants to its inlets.  What these two keep of
a graph is kept. -/
theorem graph_initNode_keeps {q : Graph κ → Prop}
    (hObject : ∀ (g : Graph κ) node n scope, g.nodes[node]? = some n → q g →
      q (g.modifyNode node fun m => { m with object := (n.object.init scope).1 }))
    (hConstant : ∀ (g : Graph κ) node inlet value, q g → q (g.modifyNode node fun n =>
      { n with inlets := n.inlets.modify inlet fun slot => slot.setConstant value }))
    (e : Engine κ) (node : Nat) (h : q e.graph) : q (e.initNode node).graph := by
  unfold initNode
  cases hNode : e.graph.nodes[node]? with
  | none => exact h
  | some n =>
      refine List.foldlRecOn (motive := fun d : Engine κ => q d.graph) _ _ ?_ fun d hd r _ => ?_
      · exact hObject e.graph node n (e.initScope node n) hNode h
      · cases r with
        | constant inlet value => exact hConstant d.graph node inlet value hd
        | listen name => exact hd
        | schedule due commands => exact hd
        | record entry => exact hd

/-- Apart from the graph, a box may only be put down as a listener, on the agenda and in the
journal. -/
theorem engine_initNode (e : Engine κ) (node : Nat) : ∃ graph receivers agenda journal,
    e.initNode node = { e with graph, receivers, agenda, journal } := by
  unfold initNode
  cases e.graph.nodes[node]? with
  | none => exact ⟨_, _, _, _, rfl⟩
  | some n =>
      refine List.foldlRecOn (motive := fun d : Engine κ => ∃ graph receivers agenda journal,
        d = { e with graph, receivers, agenda, journal }) _ _ ⟨_, _, _, _, rfl⟩ ?_
      rintro _ ⟨graph, receivers, agenda, journal, rfl⟩ r -
      cases r <;> exact ⟨_, _, _, _, rfl⟩

theorem engine_initNodes (e : Engine κ) : ∃ graph receivers agenda journal,
    e.initNodes = { e with graph, receivers, agenda, journal } := by
  refine List.foldlRecOn (motive := fun d : Engine κ => ∃ graph receivers agenda journal,
    d = { e with graph, receivers, agenda, journal }) _ _ ⟨_, _, _, _, rfl⟩ ?_
  rintro d ⟨_, _, _, _, hBefore⟩ node -
  obtain ⟨_, _, _, _, hEngine⟩ := engine_initNode d node
  rw [hEngine, hBefore]
  exact ⟨_, _, _, _, rfl⟩

theorem dresses_initNode (e : Engine κ) (node : Nat) : e.Dresses (e.initNode node) := by
  have hGraph : e.graph.Evolves (e.initNode node).graph := by
    refine graph_initNode_keeps (fun g k n scope hNode h => ?_)
      (fun g k inlet value h => ?_) e node (.refl _)
    · refine h.trans (g.evolves_modifyNode k fun m hm => ?_)
      obtain rfl := Option.some.inj (hNode.symm.trans hm)
      exact n.evolves_object (Object.evolves_init scope n.object) n.outputs n.stamp
    · exact h.trans (g.evolves_modifyNode k fun n _ =>
        n.evolves_modifyInlet inlet fun slot => slot.evolves_setConstant value)
  have hPrints : ∀ i, (e.initNode node).printAt i = e.printAt i := by
    intro i
    refine graph_initNode_keeps (q := fun g => Engine.printAt { e with graph := g } i = e.printAt i)
      (fun g k n scope _ h => ?_) (fun g k inlet value h => ?_) e node rfl
    · exact Eq.trans (by apply printAt_onNode { e with graph := g }; exact fun _ => ⟨rfl, rfl⟩) h
    · exact Eq.trans (by apply printAt_onNode { e with graph := g }; exact fun _ => ⟨rfl, rfl⟩) h
  obtain ⟨graph, receivers, agenda, journal, hEngine⟩ := engine_initNode e node
  refine ⟨⟨hGraph, ?_, ?_, ?_⟩, ?_, hPrints⟩ <;> rw [hEngine]

theorem dresses_initNodes (e : Engine κ) : e.Dresses e.initNodes :=
  List.foldlRecOn (motive := e.Dresses) _ _ (.refl e)
    fun d hd node _ => hd.trans (dresses_initNode d node)

/-! ### What a load does -/

/-- The engine once its patch has been read and its inlets resolved. -/
def resolvedBy (e : Engine κ) (source : String) (graph : Graph κ) : Engine κ :=
  { e.build (Patch.read source) with graph }

/-- What a load that succeeds has done. -/
theorem load_ok {source : String} (hLoad : e.load source = (.ok (), e')) :
    ∃ resolved entry, e.loaded = false ∧
      (e.build (Patch.read source)).graph.setup = .ok resolved ∧
        e' = (e.resolvedBy source resolved).initNodes.log [entry] := by
  have hUnloaded : e.loaded = false := by
    cases hLoaded : e.loaded with
    | false => rfl
    | true => simp [load, loadRead, hLoaded] at hLoad
  rcases loadRead_cases hUnloaded (Patch.read source) with
    ⟨-, hFinish⟩ | ⟨-, done, r, rest, -, -, -, hStopped⟩
  · rw [load, hFinish, finish] at hLoad
    rcases (e.build (Patch.read source)).graph.setupInPlace_eq with
      ⟨n, -, hSetup⟩ | ⟨-, resolved, hResolved, hSetup⟩
    · simp [hSetup] at hLoad
    · simp only [hSetup, Prod.mk.injEq, true_and] at hLoad
      exact ⟨resolved, _, hUnloaded, hResolved, hLoad.symm⟩
  · rw [load, hStopped] at hLoad
    simp at hLoad

/-! ### Sound engines -/

/-- What holds of an engine with the built-in kinds at any time. -/
structure Sound (e : Engine κ) : Prop where
  registry : e.registry = .builtin
  graph : e.graph.Sound
  /-- No box is stamped later than the frame. -/
  stamps : StampsAre (· ≤ e.frame) e
  unloaded : e.loaded = false → e.graph = .empty

omit [CustomKind κ] in
theorem sound_new (settings : Settings) : (Engine.new settings (.builtin : Registry κ)).Sound := by
  have hDraft : (Graph.empty : Graph κ).Draft := .empty
  have hSetup : (Graph.empty : Graph κ).setup = .ok .empty := rfl
  exact ⟨rfl, (hDraft.setup hSetup).1, fun n hn => by simp [new, Graph.empty] at hn, fun _ => rfl⟩

theorem Sound.change (h : e.Sound) (hChange : Change e e') : e'.Sound := by
  have hSteady := hChange.steady
  refine ⟨hSteady.registry.trans h.registry, h.graph.evolves hSteady.graph,
    hChange.stampsAre_le h.stamps, fun hUnloaded => ?_⟩
  have hEvolves := hSteady.graph
  rw [h.unloaded (hSteady.loaded ▸ hUnloaded)] at hEvolves
  exact hEvolves.eq_empty

theorem Sound.load (h : e.Sound) {source : String} (hLoad : e.load source = (.ok (), e')) :
    e'.Sound := by
  obtain ⟨resolved, entry, hUnloaded, hSetup, rfl⟩ := load_ok hLoad
  have hDrafting : (e.build (Patch.read source)).Drafting :=
    drafting_build h.registry (h.unloaded hUnloaded ▸ .empty) _
  obtain ⟨hGraph, hStamps⟩ := hDrafting.graph.setup hSetup
  have hDressed := dresses_initNodes (e.resolvedBy source resolved)
  have hZero : StampsAre (· = 0) (e.resolvedBy source resolved).initNodes :=
    StampsAre.congr (e := e.resolvedBy source resolved) hStamps hDressed.prints
  refine ⟨hDressed.registry.trans hDrafting.registry, hGraph.evolves hDressed.graph,
    fun n hn => ?_, fun hNot => ?_⟩
  · rw [hZero n hn]
    exact Nat.zero_le _
  · have hLoaded : (e.resolvedBy source resolved).initNodes.loaded = true :=
      hDressed.loaded.trans hDrafting.loaded
    exact absurd (hLoaded.symm.trans hNot) (by simp)

/-- What loading comes to if the program gets through the patch and that has no circle. -/
theorem load_eq_ok {e b : Engine κ} {source : String} (hUnloaded : e.loaded = false)
    (hThrough : e.getsThrough (Patch.read source) = true)
    (hBuild : e.build (Patch.read source) = b) (hNone : b.graph.signalCycle? = none) :
    ∃ resolved, b.graph.setup = .ok resolved ∧
      e.load source = (.ok (), { b with graph := resolved }.initNodes.log
        [{ b with graph := resolved }.initNodes.loadedEntry]) := by
  rcases b.graph.setupInPlace_eq with ⟨n, hFound, -⟩ | ⟨-, resolved, hResolved, hSetup⟩
  · simp [hNone] at hFound
  · refine ⟨resolved, hResolved, ?_⟩
    rw [load, loadRead_of_through hUnloaded hThrough, hBuild, finish]
    simp only [hSetup]

/-- Engines with the built-in kinds, from the beginning on: one patch may be loaded, and
everything else is changes. -/
inductive Live : Engine κ → Prop
  | new (settings : Settings) : Live (.new settings .builtin)
  | load {e e' : Engine κ} {source : String} (h : Live e) (hLoad : e.load source = (.ok (), e')) :
      Live e'
  | change {e e' : Engine κ} (h : Live e) (hChange : Change e e') : Live e'

theorem Live.sound (h : e.Live) : e.Sound := by
  induction h with
  | new settings => exact sound_new settings
  | load _ hLoad ih => exact ih.load hLoad
  | change _ hChange ih => exact ih.change hChange

/-- Whatever is done with a live engine leaves it live. -/
theorem Live.perform (h : e.Live) (c : Command) : (e.perform c).2.Live :=
  (changes_perform e c).keeps (fun _ _ hChange hLive => hLive.change hChange) h

end Engine

end Patchbay
