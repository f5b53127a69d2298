import Patchbay.Proofs.Loading

/-
What a patch leaves in an engine for good.

Reading a patch makes boxes, wires and tables.  A box keeps its casing, that is what the
patch wrote of it and what its kind made of that, from the moment the last directive has
been carried out, and so do the wires and the samples of the tables: resolving inlets moves
feeds, and setting up boxes and everything done later moves objects, constants, buffers and
stamps.  `Lasts` says so, one operation at a time.
-/

namespace Patchbay

/-! ### Boxes as they are made -/

/-- What a patch writes of a box. -/
structure Box where
  kind : String
  args : List String
  position : Position
  deriving DecidableEq

/-- What a box is made as. -/
structure Casing extends Box where
  endpoint : Bool
  outlets : List Rate
  /-- Whether its object does nothing. -/
  idle : Bool

namespace Node

variable {κ : Type}

def casing (n : Node κ) : Casing :=
  { kind := n.kind, args := n.args, position := n.position, endpoint := n.endpoint
    outlets := n.outlets, idle := n.object.isPlaceholder }

def box (n : Node κ) : Box :=
  n.casing.toBox

/-- A change that leaves the casing alone, as long as the object stays as idle as it was. -/
theorem casing_object (n : Node κ) {o : Object κ} (h : o.isPlaceholder = n.object.isPlaceholder)
    (inlets : Array InletSlot) (outputs : Array (Array Float32)) (stamp : Nat) :
    ({ n with object := o, inlets, outputs, stamp } : Node κ).casing = n.casing := by
  simp only [casing, h]

end Node

/-! ### Idle objects -/

namespace Object

variable {κ : Type}

theorem isPlaceholder_iff {o : Object κ} : o.isPlaceholder = true ↔ o = .null := by
  cases o <;> simp [isPlaceholder]

variable [CustomKind κ]

theorem isPlaceholder_init (scope : InitScope) (o : Object κ) :
    (o.init scope).1.isPlaceholder = o.isPlaceholder := by
  cases o <;> rfl

theorem isPlaceholder_onMessage (scope : MessageScope) (arrival : Arrival) (m : Message)
    (o : Object κ) : (o.onMessage scope arrival m).1.isPlaceholder = o.isPlaceholder := by
  cases o <;> rfl

theorem isPlaceholder_process (scope : FrameScope) (inputs : Array Input)
    (outputs : Array (Array Float32)) (o : Object κ) :
    (o.process scope inputs outputs).state.isPlaceholder = o.isPlaceholder := by
  cases o <;> rfl

end Object

/-! ### Graphs of such boxes -/

namespace Graph

variable {κ : Type} {g g' : Graph κ}

/-- The casings of the boxes by number. -/
def casings (g : Graph κ) : List Casing :=
  g.nodes.toList.map Node.casing

/-- The boxes by number. -/
def boxes (g : Graph κ) : List Box :=
  g.casings.map Casing.toBox

theorem length_casings (g : Graph κ) : g.casings.length = g.size := by
  simp [casings, size]

theorem getElem?_casings (g : Graph κ) (i : Nat) : g.casings[i]? = g.nodes[i]?.map Node.casing := by
  simp [casings]

theorem getElem?_boxes (g : Graph κ) (i : Nat) : g.boxes[i]? = g.nodes[i]?.map Node.box := by
  rw [boxes, List.getElem?_map, getElem?_casings, Option.map_map]
  rfl

theorem casings_addNode (g : Graph κ) (n : Node κ) :
    (g.addNode n).casings = g.casings ++ [n.casing] := by
  simp [casings, addNode]

/-- The wires of a graph, its endpoints and the casings of its boxes are those of another one. -/
structure Like (g g' : Graph κ) : Prop where
  casings : g'.casings = g.casings
  endpoints : g'.endpoints = g.endpoints
  wires : g'.wires = g.wires

theorem Like.refl (g : Graph κ) : g.Like g := ⟨rfl, rfl, rfl⟩

theorem Like.trans {g₁ g₂ g₃ : Graph κ} (h₁ : g₁.Like g₂) (h₂ : g₂.Like g₃) : g₁.Like g₃ :=
  ⟨h₂.casings.trans h₁.casings, h₂.endpoints.trans h₁.endpoints, h₂.wires.trans h₁.wires⟩

theorem like_modifyNode (g : Graph κ) (i : Nat) {f : Node κ → Node κ}
    (h : ∀ n, g.nodes[i]? = some n → (f n).casing = n.casing) : g.Like (g.modifyNode i f) := by
  refine ⟨List.ext_getElem? fun j => ?_, rfl, rfl⟩
  rw [getElem?_casings, getElem?_casings, getElem?_modifyNode]
  split
  · rename_i hSame
    cases hNode : g.nodes[j]? with
    | none => rfl
    | some n => exact congrArg some (h n (hSame ▸ hNode))
  · rfl

theorem like_observe (g : Graph κ) (node inlet : Nat) (m : Message) :
    g.Like (g.observe node inlet m) := by
  rw [observe_eq]
  exact g.like_modifyNode node fun n _ => n.casing_object rfl _ _ _

/-- Resolving the inlets leaves the boxes as they were made. -/
theorem like_setup (h : g.setup = .ok g') : g.Like g' := by
  obtain ⟨-, rfl⟩ := setup_eq_ok h
  refine ⟨List.ext_getElem? fun i => ?_, rfl, rfl⟩
  simp only [getElem?_casings, Array.getElem?_mapIdx, Option.map_map]
  rfl

end Graph

/-! ### What lasts -/

namespace Engine

variable {κ : Type} {e e' : Engine κ}

/-- The boxes, the wires and the tables of an engine are still those of an earlier one. -/
structure Lasts (e e' : Engine κ) : Prop where
  graph : e.graph.Like e'.graph
  tables : e'.tables = e.tables

theorem Lasts.refl (e : Engine κ) : e.Lasts e := ⟨.refl _, rfl⟩

theorem Lasts.trans {e₁ e₂ e₃ : Engine κ} (h₁ : e₁.Lasts e₂) (h₂ : e₂.Lasts e₃) : e₁.Lasts e₃ :=
  ⟨h₁.graph.trans h₂.graph, h₂.tables.trans h₁.tables⟩

theorem lasts_onNode (e : Engine κ) (i : Nat) {f : Node κ → Node κ}
    (h : ∀ n, e.graph.nodes[i]? = some n → (f n).casing = n.casing) :
    e.Lasts (e.onGraph fun g => g.modifyNode i f) :=
  ⟨e.graph.like_modifyNode i h, rfl⟩

variable [CustomKind κ]

theorem Work.lasts (h : Work e e') : e.Lasts e' := by
  cases h with
  | touch h =>
      cases h with
      | observe node inlet m => exact ⟨e.graph.like_observe node inlet m, rfl⟩
      | handle node arrival m =>
          exact lasts_onNode e node fun n _ =>
            n.casing_object (Object.isPlaceholder_onMessage _ arrival m n.object) _ _ _
      | note journal => exact ⟨.refl _, rfl⟩
      | drive state overflow sink => exact ⟨.refl _, rfl⟩
  | process node =>
      unfold processNode
      cases hNode : e.graph.nodes[node]? with
      | none => exact .refl e
      | some n =>
          refine ⟨e.graph.like_modifyNode node fun m hm => ?_, rfl⟩
          obtain rfl := Option.some.inj (hNode.symm.trans hm)
          exact n.casing_object (Object.isPlaceholder_process _ _ _ n.object) _ _ _
  | silence => exact ⟨.refl _, rfl⟩
  | endFrame => exact ⟨.refl _, rfl⟩

theorem Change.lasts (h : Change e e') : e.Lasts e' := by
  cases h with
  | work h => exact h.lasts
  | beginFrame => exact ⟨.refl _, rfl⟩
  | schedule due commands => exact ⟨.refl _, rfl⟩

theorem lasts_of_changes (h : Chain Change e e') : e.Lasts e' :=
  h.keeps (fun _ _ hChange hLasts => hLasts.trans hChange.lasts) (.refl e)

theorem Tale.lasts {story : List (Happening κ)} (h : Tale e story e') : e.Lasts e' :=
  lasts_of_changes h.changes

theorem Run.lasts {story : List (Happening κ)} (h : Run e story e') : e.Lasts e' :=
  h.tale.lasts

/-! ### Setting up -/

theorem lasts_initNode (e : Engine κ) (node : Nat) : e.Lasts (e.initNode node) := by
  have hGraph : e.graph.Like (e.initNode node).graph := by
    refine graph_initNode_keeps (fun g k n scope hNode h => ?_)
      (fun g k inlet value h => ?_) e node (.refl _)
    · refine h.trans (g.like_modifyNode k fun m hm => ?_)
      obtain rfl := Option.some.inj (hNode.symm.trans hm)
      exact n.casing_object (Object.isPlaceholder_init scope n.object) _ _ _
    · exact h.trans (g.like_modifyNode k fun n _ => n.casing_object rfl _ _ _)
  obtain ⟨graph, receivers, agenda, journal, hEngine⟩ := engine_initNode e node
  exact ⟨hGraph, by rw [hEngine]⟩

theorem lasts_initNodes (e : Engine κ) : e.Lasts e.initNodes :=
  List.foldlRecOn (motive := e.Lasts) _ _ (.refl e)
    fun d hd node _ => hd.trans (lasts_initNode d node)

/-- **What the directives of a patch have made is there once the patch is loaded.** -/
theorem lasts_load {source : String} (hLoad : e.load source = (.ok (), e')) :
    (e.build (Patch.read source)).Lasts e' := by
  obtain ⟨resolved, entry, -, hSetup, rfl⟩ := load_ok hLoad
  have hResolved : (e.build (Patch.read source)).Lasts (e.resolvedBy source resolved) :=
    ⟨Graph.like_setup hSetup, rfl⟩
  exact hResolved.trans ((lasts_initNodes (e.resolvedBy source resolved)).trans ⟨.refl _, rfl⟩)

/-! ### One patch in a life -/

/-- An engine that has loaded a patch says so from then on. -/
theorem loaded_load {source : String} (hLoad : e.load source = (.ok (), e')) :
    e'.loaded = true := by
  obtain ⟨resolved, entry, -, -, rfl⟩ := load_ok hLoad
  refine (dresses_initNodes (e.resolvedBy source resolved)).loaded.trans ?_
  obtain ⟨graph, tables, journal, hBuild⟩ := engine_build e (Patch.read source)
  change (e.build (Patch.read source)).loaded = true
  rw [hBuild]

/-- Whatever has been done since, a second patch is refused and changes nothing. -/
theorem load_again {story : List (Happening κ)} {e₁ : Engine κ} {source : String}
    (hLoad : e.load source = (.ok (), e₁)) (hAfter : Run e₁ story e') (again : String) :
    e'.load again = (.error .alreadyLoaded, e') := by
  have hLoaded : e'.loaded = true := hAfter.tale.steady.loaded.trans (loaded_load hLoad)
  rw [load, loadRead, if_pos hLoaded]

/-- Without a patch an engine stays as empty as it was made. -/
theorem empty_of_run {settings : Settings} {registry : Registry κ}
    {story : List (Happening κ)} (h : Run (.new settings registry) story e) :
    e.graph = .empty ∧ e.tables = .empty ∧ e.settings = settings ∧ e.registry = registry :=
  have hSteady := h.tale.steady
  ⟨hSteady.graph.eq_empty, h.lasts.tables, hSteady.settings, hSteady.registry⟩

end Engine

end Patchbay
