import Patchbay.Proofs.Duties
import Patchbay.Proofs.Live
import Patchbay.Proofs.Story

/-
What loading comes to.

Loading reads the patch, resolves the inlets of the graph, and sets up the boxes one after
the other.  Reading leaves the agenda alone, so what a load puts on it comes from the boxes,
in the order of their numbers: that is `loadStory`, whatever the kinds are.

With the built-in kinds more can be said, because what a box asks for shows in its kind.  A
box is set up once, and nothing else touches it before or after that, so each box ends up
as its duty says, and the story of the load is that of the loadbangs.
-/

namespace Patchbay

namespace Engine

variable {κ : Type} [CustomKind κ] {e e' : Engine κ}

/-! ### Reading -/

/-- What reading a patch leaves alone. -/
structure Unmoved (e e' : Engine κ) : Prop where
  settings : e'.settings = e.settings
  registry : e'.registry = e.registry
  agenda : e'.agenda = e.agenda
  frame : e'.frame = e.frame

theorem unmoved_build (e : Engine κ) (statements : List (Except Error Statement)) :
    e.Unmoved (e.build statements) := by
  obtain ⟨graph, tables, journal, hBuild⟩ := engine_build e statements
  rw [hBuild]
  exact ⟨rfl, rfl, rfl, rfl⟩

/-- Reading adds boxes and connects them. -/
theorem built_applyResult (b : Build κ) (r : Except Error Statement)
    (h : b.engine.graph.Built) : (applyResult b r).engine.graph.Built :=
  applyResult_keeps (p := fun e => e.graph.Built) (fun _ _ _ _ h => h.addNode _)
    (fun _ _ _ _ _ _ _ _ hConnect h => h.connect hConnect) (fun _ _ _ h => h) b r h

theorem built_build (hGraph : e.graph = .empty) (statements : List (Except Error Statement)) :
    (e.build statements).graph.Built :=
  build_keeps (p := fun e => e.graph.Built) built_applyResult statements (hGraph ▸ .empty)

/-- What a live engine that can load a patch looks like. -/
theorem Live.empty_of_load (h : e.Live) {source : String} (hLoad : e.load source = (.ok (), e')) :
    e.graph = .empty := by
  obtain ⟨resolved, entry, hUnloaded, -⟩ := load_ok hLoad
  exact h.sound.unloaded hUnloaded

/-- Loading changes no settings. -/
theorem settings_load {source : String} (hLoad : e.load source = (.ok (), e')) :
    e'.settings = e.settings := by
  obtain ⟨resolved, entry, -, -, rfl⟩ := load_ok hLoad
  exact (dresses_initNodes (e.resolvedBy source resolved)).settings.trans
    (unmoved_build e (Patch.read source)).settings

/-! ### What stays while a story is told -/

theorem Tale.steady {story : List (Happening κ)} (h : Tale e story e') : e.Steady e' :=
  steady_of_changes h.changes

theorem Tale.live {story : List (Happening κ)} (h : Tale e story e') (he : e.Live) : e'.Live :=
  h.changes.keeps (fun _ _ hChange hLive => hLive.change hChange) he

/-- As long as no frame begins, the frame stays the same. -/
theorem Tale.frame_eq {story : List (Happening κ)} (h : Tale e story e') (hStill : Still story) :
    e'.frame = e.frame := by
  induction h with
  | nil => rfl
  | @snoc _ _ e' _ _ hBeat ih =>
      refine Eq.trans ?_ (ih fun b hBegan => hStill b (List.mem_append_left _ hBegan))
      cases hBeat with
      | calm hCalm => exact hCalm.work.frame
      | call node arrival m hNode =>
          exact (touches_handle e' node arrival m).keeps (p := fun later => later.frame = e'.frame)
            (fun _ _ hTouch hBefore => (Work.touch hTouch).frame.trans hBefore) rfl
      | schedule due action => rfl
      | beginFrame => exact absurd (List.mem_append_right _ (List.mem_singleton_self _)) (hStill _)

/-! ### Patches that a new engine loads -/

/-- What a new engine becomes that loads a patch without signal circles. -/
def loadedFrom (settings : Settings) (registry : Registry κ) (source : String) : Engine κ :=
  let b := (Engine.new settings registry).build (Patch.read source)
  let e := { b with
    graph := { b.graph with nodes := b.graph.nodes.mapIdx b.graph.resolvedNode } }.initNodes
  e.log [e.loadedEntry]

theorem load_of_acyclic {settings : Settings} {registry : Registry κ} {source : String}
    (hThrough : (Engine.new settings registry : Engine κ).getsThrough (Patch.read source) = true)
    (hNone : ((Engine.new settings registry : Engine κ).build
      (Patch.read source)).graph.signalCycle? = none) :
    (Engine.new settings registry : Engine κ).load source =
      (.ok (), loadedFrom settings registry source) := by
  obtain ⟨resolved, hResolved, hLoad⟩ :=
    load_eq_ok (e := (Engine.new settings registry : Engine κ)) rfl hThrough rfl hNone
  obtain ⟨-, rfl⟩ := Graph.setup_eq_ok hResolved
  exact hLoad

/-- A patch loads if the program gets through it and its signals only go up, by any ranking of the
nodes. -/
theorem load_of_ranked {settings : Settings} {registry : Registry κ} {source : String}
    (rank : Nat → Nat)
    (hThrough : (Engine.new settings registry : Engine κ).getsThrough (Patch.read source) = true)
    (hUp : ∀ w ∈ ((Engine.new settings registry : Engine κ).build
      (Patch.read source)).graph.wires, w.rate = .signal → rank w.source < rank w.sink) :
    (Engine.new settings registry : Engine κ).load source =
      (.ok (), loadedFrom settings registry source) := by
  have hBuilt := built_build (e := (Engine.new settings registry : Engine κ)) rfl
    (Patch.read source)
  exact load_of_acyclic hThrough (Graph.signalCycle?_eq_none_of_rank hBuilt.wellWired rank hUp)

/-- A patch loads if the program gets through it and no signal goes back. -/
theorem loads_of_forward {settings : Settings} {registry : Registry κ} {source : String}
    (hThrough : (Engine.new settings registry : Engine κ).getsThrough (Patch.read source) = true)
    (hForward : ∀ w ∈ ((Engine.new settings registry : Engine κ).build
      (Patch.read source)).graph.wires, w.rate = .signal → w.source < w.sink) :
    ∃ loaded, (Engine.new settings registry : Engine κ).load source = (.ok (), loaded) :=
  ⟨_, load_of_ranked id hThrough hForward⟩

/-! ### The story of a load -/

/-- What granting a request brings about. -/
def requestStory : Request → List (Happening κ)
  | .schedule due action => [.scheduled due action]
  | _ => []

/-- What setting up a box brings about. -/
def initStory (e : Engine κ) (node : Nat) : List (Happening κ) :=
  match e.graph.nodes[node]? with
  | none => []
  | some n => (n.object.init (e.initScope node n)).2.flatMap requestStory

/-- What loading a patch brings about. -/
def loadStory (e : Engine κ) (source : String) : List (Happening κ) :=
  match (e.build (Patch.read source)).graph.setup with
  | .error _ => []
  | .ok resolved =>
    foldStory initNode initStory (List.range resolved.size) (e.resolvedBy source resolved)

theorem loadStory_eq {source : String} {resolved : Graph κ}
    (h : (e.build (Patch.read source)).graph.setup = .ok resolved) :
    e.loadStory source =
      foldStory initNode initStory (List.range resolved.size) (e.resolvedBy source resolved) := by
  rw [loadStory, h]

/-- No frame begins while a patch is loaded. -/
theorem still_loadStory (e : Engine κ) (source : String) : Still (e.loadStory source) := by
  intro b hBegan
  unfold loadStory at hBegan
  split at hBegan
  · simp at hBegan
  · obtain ⟨e', node, -, hInit⟩ := mem_foldStory _ _ hBegan
    unfold initStory at hInit
    split at hInit
    · simp at hInit
    · obtain ⟨r, -, hRequest⟩ := List.mem_flatMap.mp hInit
      cases r <;> simp [requestStory] at hRequest

/-! ### Boxes of built-in kinds -/

omit [CustomKind κ] in
/-- Requests that do not weigh leave the boxes alone. -/
theorem foldl_grant_filter (node : Nat) (requests : List Request) : ∀ e e' : Engine κ,
    e.graph = e'.graph → (requests.foldl (grant node) e).graph =
      ((requests.filter Request.weighs).foldl (grant node) e').graph := by
  induction requests with
  | nil => intro e e' h; exact h
  | cons r requests ih =>
      intro e e' h
      cases r with
      | constant inlet value => exact ih _ _ (by simp [grant, onGraph, h])
      | schedule due action => exact ih _ _ h
      | listen name => exact ih _ _ h
      | record entry => exact ih _ _ h

omit [CustomKind κ] in
theorem flatMap_requestStory_filter (requests : List Request) :
    requests.flatMap (requestStory (κ := κ)) =
      (requests.filter Request.weighs).flatMap requestStory := by
  induction requests with
  | nil => rfl
  | cons r requests ih =>
      rw [List.filter_cons]
      cases r <;> simp [Request.weighs, requestStory, ih]

end Engine

namespace Node

variable {κ : Type}

/-- What a box gives to an inlet while it is set up: its first argument, if that is a number and
the inlet is the one that its kind is about. -/
def seed? (n : Node κ) (inlet : Nat) : Option Float32 :=
  if Duty.ofKind n.kind = .seed inlet then
    n.args[0]?.bind fun a => Single.readFinite? a.toList
  else none

/-- What is given to an inlet is told by the kind and the arguments. -/
theorem seed?_congr {n n' : Node κ} (hKind : n.kind = n'.kind) (hArgs : n.args = n'.args)
    (inlet : Nat) : n.seed? inlet = n'.seed? inlet := by
  rw [seed?, seed?, hKind, hArgs]

/-- The inlets of a box that has been set up. -/
def seededInlets (n : Node κ) : Array InletSlot :=
  n.inlets.mapIdx fun inlet slot => (n.seed? inlet).elim slot slot.setConstant

theorem seededInlets_eq_self {n : Node κ} (h : ∀ inlet, n.seed? inlet = none) :
    n.seededInlets = n.inlets := by
  apply Array.ext_getElem?
  intro k
  rw [seededInlets, Array.getElem?_mapIdx]
  simp [h]

theorem seededInlets_eq_modify {n : Node κ} {inlet : Nat} {value : Float32}
    (hKind : Duty.ofKind n.kind = .seed inlet)
    (hValue : (n.args[0]?.bind fun a => Single.readFinite? a.toList) = some value) :
    n.seededInlets = n.inlets.modify inlet (·.setConstant value) := by
  apply Array.ext_getElem?
  intro k
  rw [seededInlets, Array.getElem?_mapIdx, Array.getElem?_modify]
  by_cases hk : inlet = k
  · subst hk
    simp [seed?, hKind, hValue]
  · simp [seed?, hKind, hk]

/-- A box whose object asks for what its kind says. -/
structure Dutiful (n : Node κ) : Prop where
  builtin : n.object.isBuiltin = true
  duty : n.object.duty = .ofKind n.kind

end Node

/-- The loadbangs of a graph, by number. -/
def Graph.loadbangs {κ : Type} (g : Graph κ) : List Nat :=
  (List.range g.size).filter fun i => g.nodes[i]?.any fun n => n.kind == "loadbang"

theorem Graph.pairwise_loadbangs {κ : Type} (g : Graph κ) : g.loadbangs.Pairwise (· < ·) :=
  List.pairwise_lt_range.filter _

namespace Engine

variable {κ : Type} [CustomKind κ] {e e' : Engine κ}

omit [CustomKind κ] in
/-- Doing what its kind says seeds the inlets of a box. -/
theorem foldl_grant_requests {node : Nat} {n : Node κ} (hNode : e.graph.nodes[node]? = some n)
    {scope : InitScope} (hArgs : scope.args = n.args) (j : Nat) :
    (((Duty.ofKind n.kind).requests scope).foldl (grant node) e).graph.nodes[j]? =
      if node = j then some { n with inlets := n.seededInlets } else e.graph.nodes[j]? := by
  have hSelf : n.seededInlets = n.inlets → e.graph.nodes[j]? =
      if node = j then some { n with inlets := n.seededInlets } else e.graph.nodes[j]? := by
    intro hSame
    split
    · rename_i hj
      rw [← hj, hNode, hSame]
    · rfl
  cases hDuty : Duty.ofKind n.kind with
  | nothing => exact hSelf (n.seededInlets_eq_self fun k => by simp [Node.seed?, hDuty])
  | bang => exact hSelf (n.seededInlets_eq_self fun k => by simp [Node.seed?, hDuty])
  | seed inlet =>
      have hNumber : scope.numberArg? 0 = n.args[0]?.bind fun a => Single.readFinite? a.toList := by
        rw [InitScope.numberArg?, InitScope.arg?, hArgs]
      simp only [Duty.requests, seedInlet, hNumber]
      cases hValue : n.args[0]?.bind fun a => Single.readFinite? a.toList with
      | none => exact hSelf (n.seededInlets_eq_self fun k => by simp only [Node.seed?, hValue, ite_self])
      | some value =>
          rw [Node.seededInlets_eq_modify hDuty hValue]
          simp only [List.foldl_cons, List.foldl_nil, grant, onGraph, Graph.getElem?_modifyNode]
          split
          · rename_i hj
            rw [← hj, hNode]
            rfl
          · rfl

/-- Setting up a box seeds its inlets and leaves the other boxes alone. -/
theorem nodes_initNode {node : Nat} {n : Node κ} (hNode : e.graph.nodes[node]? = some n)
    (h : n.Dutiful) : ∃ o : Object κ, ∀ j : Nat, (e.initNode node).graph.nodes[j]? =
      if node = j then some { n with object := o, inlets := n.seededInlets }
      else e.graph.nodes[j]? := by
  refine ⟨(n.object.init (e.initScope node n)).1, fun j => ?_⟩
  unfold initNode
  rw [hNode]
  simp only
  rw [foldl_grant_filter node _ _ _ rfl, Object.filter_init _ h.builtin, h.duty]
  generalize (n.object.init (e.initScope node n)).1 = o
  have hObject : (e.onGraph fun g => g.modifyNode node fun n =>
      { n with object := o }).graph.nodes[node]? = some { n with object := o } := by
    simp only [onGraph, Graph.getElem?_modifyNode, if_pos, hNode, Option.map_some]
  have hArgs : (e.initScope node n).args = ({ n with object := o } : Node κ).args := rfl
  refine (foldl_grant_requests hObject hArgs j).trans ?_
  split
  · rfl
  · rename_i hj
    simp only [onGraph, Graph.getElem?_modifyNode, if_neg hj]

/-- What setting up a box of a built-in kind brings about: a `loadbang` schedules its bang. -/
theorem initStory_eq {node : Nat} {n : Node κ} (hNode : e.graph.nodes[node]? = some n)
    (h : n.Dutiful) : e.initStory node =
      if n.kind = "loadbang" then [.scheduled 0 [.emit node 0 .bang]] else [] := by
  have hBang : Duty.ofKind n.kind = .bang ↔ n.kind = "loadbang" := by
    unfold Duty.ofKind
    split
    · rename_i hKind
      rcases hKind with hKind | hKind <;> simp [hKind]
    · split
      · rename_i hKind
        rcases hKind with hKind | hKind | hKind | hKind <;> simp [hKind]
      · split <;> simp [*]
  rw [initStory, hNode]
  simp only
  rw [flatMap_requestStory_filter, Object.filter_init _ h.builtin, h.duty]
  cases hDuty : Duty.ofKind n.kind with
  | nothing => rw [if_neg fun hKind => by simp [hBang.mpr hKind] at hDuty]; rfl
  | bang => rw [if_pos (hBang.mp hDuty)]; rfl
  | seed inlet =>
      rw [if_neg fun hKind => by simp [hBang.mpr hKind] at hDuty, Duty.requests, seedInlet]
      split <;> rfl

/-! ### All boxes -/

/-- Boxes that all do as their kinds say, at some places. -/
def DutifulAt (l : List Nat) (e : Engine κ) : Prop :=
  ∀ i ∈ l, ∀ n, e.graph.nodes[i]? = some n → n.Dutiful

theorem nodes_initNode_other {i j : Nat} {l : List Nat} (h : DutifulAt (i :: l) e) (hj : i ≠ j) :
    (e.initNode i).graph.nodes[j]? = e.graph.nodes[j]? := by
  cases hNode : e.graph.nodes[i]? with
  | none =>
      unfold initNode
      rw [hNode]
  | some n =>
      obtain ⟨o, hNodes⟩ := nodes_initNode hNode (h i List.mem_cons_self n hNode)
      rw [hNodes, if_neg hj]

theorem DutifulAt.initNode {i : Nat} {l : List Nat} (h : DutifulAt (i :: l) e) (hi : i ∉ l) :
    DutifulAt l (e.initNode i) := by
  intro j hj n hNode
  rw [nodes_initNode_other h fun hSame => hi (hSame ▸ hj)] at hNode
  exact h j (List.mem_cons_of_mem _ hj) n hNode

/-- Every box is set up once, from what it was before any of them were. -/
theorem nodes_foldl_initNode (l : List Nat) (hOnce : l.Nodup) : ∀ e : Engine κ, DutifulAt l e →
    ∀ (j : Nat) (n : Node κ), e.graph.nodes[j]? = some n → ∃ o : Object κ,
      (l.foldl Engine.initNode e).graph.nodes[j]? =
        some { n with object := o, inlets := if j ∈ l then n.seededInlets else n.inlets } := by
  induction l with
  | nil => exact fun e _ j n hNode => ⟨n.object, by simpa using hNode⟩
  | cons i l ih =>
      intro e hDutiful j n hNode
      obtain ⟨hi, hOnce⟩ := List.nodup_cons.mp hOnce
      rw [List.foldl_cons]
      by_cases hj : i = j
      · subst hj
        obtain ⟨o, hNodes⟩ := nodes_initNode hNode (hDutiful i List.mem_cons_self n hNode)
        obtain ⟨o', hRest⟩ := ih hOnce _ (hDutiful.initNode hi) i _ ((hNodes i).trans (if_pos rfl))
        exact ⟨o', by simpa [hi] using hRest⟩
      · obtain ⟨o, hRest⟩ := ih hOnce _ (hDutiful.initNode hi) j n
          ((nodes_initNode_other hDutiful hj).trans hNode)
        exact ⟨o, by simpa [Ne.symm hj] using hRest⟩

/-- The story of setting up boxes is that of the loadbangs among them. -/
theorem foldStory_initNode (l : List Nat) (hOnce : l.Nodup) : ∀ e : Engine κ, DutifulAt l e →
    foldStory Engine.initNode initStory l e =
      (l.filter fun i => e.graph.nodes[i]?.any fun n => n.kind == "loadbang").map fun i =>
        .scheduled 0 [.emit i 0 .bang] := by
  induction l with
  | nil => exact fun e _ => rfl
  | cons i l ih =>
      intro e hDutiful
      obtain ⟨hi, hOnce⟩ := List.nodup_cons.mp hOnce
      have hRest : (l.filter fun j =>
          (e.initNode i).graph.nodes[j]?.any fun n => n.kind == "loadbang") =
          l.filter fun j => e.graph.nodes[j]?.any fun n => n.kind == "loadbang" :=
        List.filter_congr fun j hj => by
          rw [nodes_initNode_other hDutiful fun hSame => hi (hSame ▸ hj)]
      rw [foldStory, ih hOnce _ (hDutiful.initNode hi), hRest]
      cases hNode : e.graph.nodes[i]? with
      | none => simp [initStory, hNode]
      | some n =>
          rw [initStory_eq hNode (hDutiful i List.mem_cons_self n hNode)]
          by_cases hKind : n.kind = "loadbang" <;> simp [hNode, hKind]

/-! ### What a load leads to -/

/-- The box that is made for what a patch writes does as its kind says. -/
theorem dutiful_new {kind : String} {decl : KindDecl κ} (h : Registry.Suits decl kind)
    (hDuty : ∀ args, (decl.make args).1.duty = .ofKind kind) (args : List String)
    (position : Position) (bufferSize : Nat) :
    (Node.new kind args position decl.endpoint
      ((List.range ((decl.make args).1.preinit args decl.layout).2.inlets).map decl.inletRate)
      ((decl.make args).1.preinit args decl.layout).2.outlets
      ((decl.make args).1.preinit args decl.layout).1 bufferSize).Dutiful :=
  ⟨(fresh_new h args position bufferSize).builtin,
    (Object.duty_preinit args _ (h.builtin args)).trans (hDuty args)⟩

theorem dutiful_createNode (hRegistry : e.registry = .builtin)
    (h : ∀ n ∈ e.graph.nodes, n.Dutiful) (kind : String) (position : Position)
    (args : List String) : ∀ n ∈ (e.createNode kind position args).graph.nodes, n.Dutiful := by
  intro n hn
  have hSuits := Registry.suits_resolve (κ := κ) (writtenKind kind)
  have hDuty := Registry.duty_resolve (κ := κ) (writtenKind kind)
  rw [← hRegistry] at hSuits hDuty
  have hNew := dutiful_new hSuits hDuty args position e.settings.bufferSize
  rcases Array.mem_push.mp hn with hn | rfl
  · exact h n hn
  · exact hNew

/-- An engine whose patch is being read, and whose boxes do as their kinds say. -/
structure Assigning (e : Engine κ) : Prop where
  registry : e.registry = .builtin
  boxes : ∀ n ∈ e.graph.nodes, n.Dutiful

theorem assigning_applyResult (b : Build κ) (r : Except Error Statement)
    (h : b.engine.Assigning) : (applyResult b r).engine.Assigning := by
  refine applyResult_keeps (fun _ kind position args h => ?_)
    (fun _ _ _ _ _ _ _ _ hConnect h => ?_) (fun _ _ _ h => ⟨h.registry, h.boxes⟩) b r h
  · exact ⟨h.registry, dutiful_createNode h.registry h.boxes kind position args⟩
  · obtain ⟨grown, -, hReach, rfl⟩ := Graph.connect_eq_ok hConnect
    refine ⟨h.registry, fun n hn => ?_⟩
    rw [Graph.nodes_putWire] at hn
    exact Graph.forall_reachInlet h.boxes (fun _ _ _ hm => ⟨hm.builtin, hm.duty⟩) hReach n hn

theorem dutiful_build (hRegistry : e.registry = .builtin) (hGraph : e.graph = .empty)
    (statements : List (Except Error Statement)) :
    ∀ n ∈ (e.build statements).graph.nodes, n.Dutiful :=
  (build_keeps assigning_applyResult statements ⟨hRegistry, by simp [hGraph, Graph.empty]⟩).boxes

theorem dutifulAt_resolvedBy {source : String} {resolved : Graph κ}
    (hRegistry : e.registry = .builtin) (hGraph : e.graph = .empty)
    (hSetup : (e.build (Patch.read source)).graph.setup = .ok resolved) :
    DutifulAt (List.range resolved.size) (e.resolvedBy source resolved) := by
  obtain ⟨-, rfl⟩ := Graph.setup_eq_ok hSetup
  intro i _ n hNode
  replace hNode : ((e.build (Patch.read source)).graph.nodes.mapIdx
    (e.build (Patch.read source)).graph.resolvedNode)[i]? = some n := hNode
  rw [Array.getElem?_mapIdx] at hNode
  obtain ⟨n₀, hBefore, rfl⟩ := Option.map_eq_some_iff.mp hNode
  have hDutiful := dutiful_build hRegistry hGraph _ n₀ (Array.mem_of_getElem? hBefore)
  exact ⟨hDutiful.builtin, hDutiful.duty⟩

/-- **Loading schedules a bang for each loadbang, and nothing else.** -/
theorem loadStory_builtin {source : String} (hRegistry : e.registry = .builtin)
    (hGraph : e.graph = .empty) (hLoad : e.load source = (.ok (), e')) :
    e.loadStory source = e'.graph.loadbangs.map fun i => .scheduled 0 [.emit i 0 .bang] := by
  obtain ⟨resolved, entry, -, hSetup, rfl⟩ := load_ok hLoad
  have hKinds : (e.resolvedBy source resolved).initNodes.graph.loadbangs = resolved.loadbangs := by
    have hEvolves := (dresses_initNodes (e.resolvedBy source resolved)).graph
    have hAny : ∀ (g : Graph κ) (i : Nat), (g.nodes[i]?.any fun n => n.kind == "loadbang") =
        (g.nodes[i]?.map Node.kind).any (· == "loadbang") := by
      intro g i
      cases g.nodes[i]? <;> rfl
    unfold Graph.loadbangs
    rw [hEvolves.size]
    refine List.filter_congr fun i _ => ?_
    rw [hAny, hEvolves.map_eq (fun _ _ hNode => hNode.kind) i, ← hAny]
    rfl
  rw [loadStory_eq hSetup, foldStory_initNode _ List.nodup_range _
    (dutifulAt_resolvedBy hRegistry hGraph hSetup)]
  change resolved.loadbangs.map _ = _
  rw [← hKinds]
  rfl

/-- **Loading resolves every inlet, and seeds it as the kind of its box says.** -/
theorem inlets_load {source : String} (hRegistry : e.registry = .builtin)
    (hGraph : e.graph = .empty) (hLoad : e.load source = (.ok (), e')) {i k : Nat} {n : Node κ}
    {slot : InletSlot} (hNode : e'.graph.nodes[i]? = some n) (hSlot : n.inlets[k]? = some slot) :
    ∃ unfed : InletSlot, unfed.feed = .unresolved ∧
      slot = (n.seed? k).elim (e'.graph.resolveInlet i k unfed)
        (e'.graph.resolveInlet i k unfed).setConstant := by
  obtain ⟨resolved, entry, -, hSetup, rfl⟩ := load_ok hLoad
  have hDutiful := dutifulAt_resolvedBy hRegistry hGraph hSetup
  have hEvolves : resolved.Evolves (e.resolvedBy source resolved).initNodes.graph :=
    (dresses_initNodes (e.resolvedBy source resolved)).graph
  have hDraft : (e.build (Patch.read source)).graph.Draft :=
    (drafting_build hRegistry (hGraph ▸ .empty) _).graph
  obtain ⟨n₁, hBefore, -⟩ := hEvolves.nodeBefore hNode
  obtain ⟨o, hAfter⟩ := nodes_foldl_initNode _ List.nodup_range _ hDutiful i n₁ hBefore
  have hRange : i ∈ List.range resolved.size :=
    List.mem_range.mpr (Array.getElem?_eq_some_iff.mp hBefore).1
  -- Setting up a box changes neither its kind nor its arguments, which tell what is seeded.
  have hNow := Option.some.inj (hNode.symm.trans hAfter)
  have hSeed : n.seed? k = n₁.seed? k :=
    Node.seed?_congr (congrArg Node.kind hNow) (congrArg Node.args hNow) k
  rw [hSeed]
  rw [hNow] at hSlot
  obtain ⟨-, hResolved⟩ := Graph.setup_eq_ok hSetup
  -- The wires stay those of the patch, so an inlet resolves alike in every later graph.
  have hRecent : (e.resolvedBy source resolved).initNodes.graph.recent =
      (e.build (Patch.read source)).graph.recent := by
    rw [hEvolves.recent, hResolved]
  have hSame : ∀ unfed, ((e.resolvedBy source resolved).initNodes.log [entry]).graph.resolveInlet
      i k unfed = (e.build (Patch.read source)).graph.resolveInlet i k unfed := by
    intro unfed
    change (e.resolvedBy source resolved).initNodes.graph.resolveInlet i k unfed = _
    simp only [Graph.resolveInlet, Graph.signalSource?, Graph.wireInto?, hRecent]
  subst hResolved
  rw [Array.getElem?_mapIdx] at hBefore
  obtain ⟨n₀, hRead, rfl⟩ := Option.map_eq_some_iff.mp hBefore
  simp only [hRange, if_true, Node.seededInlets, Graph.resolvedNode, Array.getElem?_mapIdx,
    Option.map_map, Option.map_eq_some_iff] at hSlot
  obtain ⟨unfed, hUnfed, rfl⟩ := hSlot
  have hFresh := hDraft.boxes n₀ (Array.mem_of_getElem? hRead)
  refine ⟨unfed, hFresh.unfed unfed (Array.mem_of_getElem? hUnfed), ?_⟩
  rw [hSame]
  rfl

/-! ### A patch that starts by itself -/

/-- A tone whose pitch is set in the first frame. -/
def chimePatch : String :=
  "#X obj 0 0 osc~ 440;\n#X obj 0 0 loadbang;\n#X msg 0 0 7;\n#X obj 0 0 dac~;\n" ++
    "#X connect 1 0 2 0;\n#X connect 2 0 0 0;\n#X connect 0 0 3 0;\n"

def chime : Engine Empty :=
  loadedFrom .standard .builtin chimePatch

theorem load_chime :
    (Engine.new .standard .builtin : Engine Empty).load chimePatch = (.ok (), chime) := by
  have hRead : (Engine.new .standard .builtin : Engine Empty).getsThrough (Patch.read chimePatch) =
        true ∧
      ∀ w ∈ ((Engine.new .standard .builtin : Engine Empty).build
        (Patch.read chimePatch)).graph.wires, w.rate = .signal → w.source < w.sink := by
    decide +kernel
  exact load_of_ranked id hRead.1 hRead.2

end Engine

end Patchbay
