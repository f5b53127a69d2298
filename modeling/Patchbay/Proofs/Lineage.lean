import Patchbay.Proofs.Lasting

/-
Where the object of a box comes from.

The object inside a box is made once, from the arguments, when the patch is read.  After that
it changes only as its hooks are called: the box is set up, computed and sent messages, in
whatever order the patch and its host bring about.  `Becomes` is everything that can come of
an object in this way.

`Descends` says it of a box: its inlets and outlets are those that its kind laid out for its
arguments, but for placeholders, which grow inlets, and its object is what its kind made of
them, grown older.  It holds of every box in every live engine, so what the hooks of a kind
keep, whatever they are called with, holds there.
-/

namespace Patchbay

/-! ### Objects -/

/-- What an object may become as its hooks are called, in any order and with anything. -/
inductive Object.Becomes {κ : Type} [CustomKind κ] (o : Object κ) : Object κ → Prop
  | start : o.Becomes o
  | init (scope : InitScope) {o' : Object κ} (h : o.Becomes o') : o.Becomes (o'.init scope).1
  | process (scope : FrameScope) (inputs : Array Input) (outputs : Array (Array Float32))
      {o' : Object κ} (h : o.Becomes o') : o.Becomes (o'.process scope inputs outputs).state
  | message (scope : MessageScope) (arrival : Arrival) (m : Message) {o' : Object κ}
      (h : o.Becomes o') : o.Becomes (o'.onMessage scope arrival m).1

/-- A built-in object stays one. -/
theorem Object.Becomes.builtin {κ : Type} [CustomKind κ] {o o' : Object κ} (hLife : o.Becomes o')
    (h : o.isBuiltin = true) : o'.isBuiltin = true := by
  induction hLife with
  | start => exact h
  | init scope _ ih => exact (evolves_init scope _ ih).1
  | process scope inputs outputs _ ih => exact (evolves_process scope inputs outputs _ ih).1
  | message scope arrival m _ ih => exact (evolves_onMessage scope arrival m _ ih).1

/-- The object that a kind makes of arguments, and the slots that are laid out for it. -/
def KindDecl.made {κ : Type} [CustomKind κ] (d : KindDecl κ) (args : List String) :
    Object κ × Layout :=
  (d.make args).1.preinit args d.layout

/-- The same for the built-in kind that a name leads to.  The name is not known where this is
used, and then there is no point in searching the registry for it. -/
@[irreducible] def Registry.madeFor {κ : Type} [CustomKind κ] (kind : String)
    (args : List String) : Object κ × Layout :=
  (builtin.resolve kind).1.made args

/-- A name makes what one of the built-in kinds makes, or a placeholder without slots. -/
theorem Registry.madeFor_cases {κ : Type} [CustomKind κ] (kind : String) (args : List String) :
    (∃ d ∈ (builtinKinds : List (KindDecl κ)), madeFor kind args = d.made args) ∨
      madeFor kind args = ((.null, ⟨0, []⟩) : Object κ × Layout) := by
  rw [madeFor, resolve]
  cases hGet : (builtin : Registry κ).get? kind with
  | none => exact .inr rfl
  | some d => exact .inl ⟨d, (mem_builtinKinds hGet).1, rfl⟩

/-! ### Boxes -/

namespace Node

variable {κ : Type} [CustomKind κ] {n : Node κ}

/-- A box with the slots that its kind laid out, and an object that its kind made. -/
structure Descends (n : Node κ) : Prop where
  inlets : n.object.isPlaceholder = true ∨
    n.inlets.size = (Registry.madeFor n.kind n.args : Object κ × Layout).2.inlets
  outlets : n.outlets = (Registry.madeFor n.kind n.args : Object κ × Layout).2.outlets
  life : (Registry.madeFor n.kind n.args).1.Becomes n.object

/-- What feeds the inlets plays no part in it. -/
theorem Descends.withInlets (h : n.Descends) {inlets : Array InletSlot}
    (hInlets : n.object.isPlaceholder = true ∨ inlets.size = n.inlets.size) :
    { n with inlets }.Descends :=
  ⟨hInlets.elim .inl fun hSize => h.inlets.imp_right hSize.trans, h.outlets, h.life⟩

/-- A hook has been called. -/
theorem Descends.withObject (h : n.Descends) {object : Object κ}
    (hLife : (Registry.madeFor n.kind n.args).1.Becomes object)
    (hPlaceholder : object.isPlaceholder = n.object.isPlaceholder)
    (outputs : Array (Array Float32)) (stamp : Nat) :
    { n with object, outputs, stamp }.Descends :=
  ⟨h.inlets.imp_left hPlaceholder.trans, h.outlets, hLife⟩

end Node

namespace Graph

variable {κ : Type} [CustomKind κ] {g g' : Graph κ}

/-- Every box has the outlets and the object of its kind. -/
def Descends (g : Graph κ) : Prop :=
  ∀ n ∈ g.nodes, n.Descends

theorem Descends.modifyInlet (h : g.Descends) (i inlet : Nat) (f : InletSlot → InletSlot) :
    (g.modifyNode i fun n => { n with inlets := n.inlets.modify inlet f }).Descends :=
  forall_modifyNode h i fun _ _ hn => hn.withInlets (.inr Array.size_modify)

theorem Descends.connect (h : g.Descends) {source outlet sink inlet : Nat} {rate : Rate}
    {entries : List Entry}
    (hConnect : g.connect source outlet sink inlet = .ok (rate, g', entries)) : g'.Descends := by
  obtain ⟨grown, -, hReach, rfl⟩ := connect_eq_ok hConnect
  intro n hn
  rw [nodes_putWire] at hn
  -- Only placeholders get another row of inlets.
  exact forall_reachInlet h (fun _ _ hNull hn => hn.withInlets (.inl hNull)) hReach n hn

theorem Descends.setup (h : g.Descends) {resolved : Graph κ} (hSetup : g.setup = .ok resolved) :
    resolved.Descends := by
  obtain ⟨-, rfl⟩ := setup_eq_ok hSetup
  intro n hn
  obtain ⟨i, hi, rfl⟩ := Array.mem_mapIdx.mp hn
  exact (h g.nodes[i] (Array.getElem_mem hi)).withInlets (.inr Array.size_mapIdx)

end Graph

/-! ### Engines -/

namespace Engine

variable {κ : Type} [CustomKind κ] {e e' : Engine κ}

theorem descends_createNode (h : e.Drafting) (hBoxes : e.graph.Descends) (kind : String)
    (position : Position) (args : List String) :
    (e.createNode kind position args).graph.Descends := by
  intro n hn
  rcases Array.mem_push.mp hn with hn | rfl
  · exact hBoxes n hn
  · have hMade : (Registry.madeFor (writtenKind kind) args : Object κ × Layout) =
        (e.registry.resolve (writtenKind kind)).1.made args := by
      rw [h.registry, Registry.madeFor]
    refine ⟨.inr ?_, congrArg (fun made => made.2.outlets) hMade.symm, hMade ▸ .start⟩
    show ((List.map _ _).map _).toArray.size = (Registry.madeFor (writtenKind kind) args).2.inlets
    rw [hMade, List.size_toArray, List.length_map, List.length_map, List.length_range]
    rfl

/-- An engine whose patch is being read, with boxes of their kinds. -/
structure Breeding (e : Engine κ) : Prop extends e.Drafting where
  boxes : e.graph.Descends

theorem descends_initNode (h : e.graph.Descends) (node : Nat) :
    (e.initNode node).graph.Descends := by
  refine graph_initNode_keeps (fun g k n scope hNode hBoxes => ?_)
    (fun g k inlet value hBoxes => hBoxes.modifyInlet k inlet _) e node h
  refine Graph.forall_modifyNode hBoxes k fun m hm hn => ?_
  obtain rfl := Option.some.inj (hNode.symm.trans hm)
  exact hn.withObject (.init scope hn.life) (Object.isPlaceholder_init scope n.object) n.outputs
    n.stamp

theorem descends_initNodes (h : e.graph.Descends) : e.initNodes.graph.Descends :=
  List.foldlRecOn (motive := fun e : Engine κ => e.graph.Descends) _ _ h
    fun _ he node _ => descends_initNode he node

/-- Once a patch has been read, its boxes are as they were made. -/
theorem descends_resolvedBy (hRegistry : e.registry = .builtin) (hGraph : e.graph = .empty)
    {source : String} {resolved : Graph κ}
    (hSetup : (e.build (Patch.read source)).graph.setup = .ok resolved) :
    (e.resolvedBy source resolved).graph.Descends := by
  have hRead : (e.build (Patch.read source)).Breeding := by
    refine build_keeps (applyResult_keeps (fun _ kind position args h => ?_)
      (fun _ _ _ _ _ _ _ _ hConnect h => ?_) fun _ _ _ h => ?_) _ ⟨?_, ?_⟩
    · exact ⟨h.createNode kind position args,
        descends_createNode h.toDrafting h.boxes kind position args⟩
    · exact ⟨⟨h.registry, h.graph.connect hConnect, h.loaded⟩, h.boxes.connect hConnect⟩
    · exact ⟨⟨h.registry, h.graph, h.loaded⟩, h.boxes⟩
    · exact ⟨hRegistry, hGraph ▸ .empty, rfl⟩
    · show e.graph.Descends
      rw [hGraph]
      exact fun n hn => absurd hn (by simp [Graph.empty])
  exact hRead.boxes.setup hSetup

theorem Live.descends_load (h : e.Live) {source : String}
    (hLoad : e.load source = (.ok (), e')) : e'.graph.Descends := by
  have hEmpty := h.empty_of_load hLoad
  obtain ⟨resolved, entry, -, hSetup, rfl⟩ := load_ok hLoad
  exact descends_initNodes (descends_resolvedBy h.sound.registry hEmpty hSetup)

theorem Change.descends (hChange : Change e e') (h : e.graph.Descends) : e'.graph.Descends := by
  cases hChange with
  | beginFrame => exact h
  | schedule due commands => exact h
  | work hWork =>
      cases hWork with
      | touch hTouch =>
          cases hTouch with
          | observe node inlet m =>
              show (e.graph.observe node inlet m).Descends
              rw [Graph.observe_eq]
              exact h.modifyInlet node inlet _
          | handle node arrival m =>
              exact Graph.forall_modifyNode h node fun n _ hn => hn.withObject
                (.message _ arrival m hn.life) (Object.isPlaceholder_onMessage _ arrival m n.object)
                n.outputs n.stamp
          | note journal => exact h
          | drive state overflow sink => exact h
      | silence => exact h
      | endFrame => exact h
      | process node =>
          unfold processNode
          cases hNode : e.graph.nodes[node]? with
          | none => exact h
          | some n =>
              refine Graph.forall_modifyNode h node fun m hm hn => ?_
              obtain rfl := Option.some.inj (hNode.symm.trans hm)
              exact hn.withObject (.process _ _ _ hn.life)
                (Object.isPlaceholder_process _ _ _ n.object) _ _

/-- **Every box of a live engine descends from its kind**: it has the slots that were laid out for
its arguments, and its object was made of them. -/
theorem Live.descends (h : e.Live) : e.graph.Descends := by
  induction h with
  | new settings => exact fun n hn => absurd hn (by simp [Engine.new, Graph.empty])
  | load hLive hLoad => exact hLive.descends_load hLoad
  | change _ hChange ih => exact hChange.descends ih

end Engine

end Patchbay
