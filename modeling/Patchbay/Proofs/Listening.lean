import Patchbay.Proofs.Alignment
import Patchbay.Proofs.Lineage

/-
Who listens on a name, and what sending to it does.

A box begins to listen while it is set up, and only then.  Among the built-in kinds it is
the receivers that do, on their first argument, and an object is a receiver if its kind was
written as one.  Boxes are set up once, in the order of their numbers, and nothing done later
adds a listener or takes one away; so `listening`, which only looks at what the patch writes,
says who listens for good.

What is sent to a name goes to these boxes one after the other.  `Serves` says it by
recursion over the list: a box handles the message, then the delivery goes on from what the
box has sent until nothing of that is left, and only then comes the next box.  The loop does
just that, whatever else waits on its stack.
-/

namespace Patchbay

/-- Whether a box is a receiver of what is sent to a name, as a patch writes it. -/
def Box.hears (name : String) (b : Box) : Bool :=
  (b.kind == "receive" || b.kind == "r") && b.args[0]? == some name

/-- The receivers of a name among some boxes, in ascending order. -/
def listening (boxes : List Box) (name : String) : List Nat :=
  (List.range boxes.length).filter fun i => boxes[i]?.any (Box.hears name)

/-- The receivers of a name that a patch writes. -/
def receiversOf (source name : String) : List Nat :=
  listening (written (legible (Patch.read source))) name

theorem pairwise_listening (boxes : List Box) (name : String) :
    (listening boxes name).Pairwise (· < ·) :=
  List.pairwise_lt_range.filter _

theorem mem_listening {boxes : List Box} {name : String} {i : Nat} :
    i ∈ listening boxes name ↔ boxes[i]?.any (Box.hears name) = true := by
  rw [listening, List.mem_filter, List.mem_range, and_iff_right_iff_imp]
  intro hHears
  obtain ⟨b, hBox, -⟩ := (Option.any_eq_true _ _).mp hHears
  exact (List.getElem?_eq_some_iff.mp hBox).1

/-! ### Objects that listen -/

/-- The name that a request is about. -/
def Request.name? : Request → Option String
  | .listen name => some name
  | _ => none

namespace Object

variable {κ : Type}

/-- Whether an object listens on its first argument. -/
def hears : Object κ → Bool
  | .receive _ => true
  | _ => false

variable [CustomKind κ]

theorem hears_preinit (args : List String) (layout : Layout) {o : Object κ}
    (h : o.isBuiltin = true) : (o.preinit args layout).1.hears = o.hears := by
  cases o with
  | custom k => simp [isBuiltin] at h
  | _ => rfl

/-- What calls the hooks of an object never makes a receiver of it. -/
theorem Becomes.hears {o o' : Object κ} (hLife : o.Becomes o') : o'.hears = o.hears := by
  induction hLife with
  | start => rfl
  | @init scope o' _ ih => exact Eq.trans (by cases o' <;> rfl) ih
  | @process scope inputs outputs o' _ ih => exact Eq.trans (by cases o' <;> rfl) ih
  | @message scope arrival m o' _ ih => exact Eq.trans (by cases o' <;> rfl) ih

/-- Among the built-in objects, receivers listen on their first argument and the others on
nothing. -/
theorem names_init (scope : InitScope) {o : Object κ} (h : o.isBuiltin = true) :
    (o.init scope).2.filterMap Request.name? =
      if o.hears = true then scope.args[0]?.toList else [] := by
  have hSeed : ∀ inlet, (seedInlet scope inlet).filterMap Request.name? = [] := by
    intro inlet
    unfold seedInlet
    split <;> rfl
  cases o with
  | custom k => simp [isBuiltin] at h
  | osc s => exact hSeed 0
  | phasor s => exact hSeed 0
  | signalBinop s => exact hSeed 1
  | tableReader s =>
      change (s.init scope).2.filterMap _ = []
      unfold TableReader.init
      split
      · rfl
      · split <;> rfl
  | receive s =>
      change (s.init scope).2.filterMap _ = scope.args[0]?.toList
      rw [Receive.init, InitScope.arg?]
      cases scope.args[0]? <;> rfl
  | _ => rfl

end Object

namespace Registry

variable {κ : Type}

/-- The objects of a declaration listen if its name is that of the receivers. -/
theorem hears_builtinKinds : ∀ d ∈ (builtinKinds : List (KindDecl κ)), ∀ args,
    (d.make args).1.hears = (d.name == "receive" || d.name == "r") := by
  simp only [builtinKinds, structuralKinds, signalKinds, controlKinds, SignalOp.all, Operator.all,
    List.map_cons, List.map_nil, List.forall_mem_append, List.forall_mem_cons, List.not_mem_nil,
    false_implies, implies_true, and_true]
  and_intros
  all_goals exact fun _ => rfl

/-- **Receivers are what is written as such**, by name or by alias. -/
theorem hears_resolve (kind : String) (args : List String) :
    (((builtin : Registry κ).resolve kind).1.make args).1.hears =
      (kind == "receive" || kind == "r") := by
  have hThere : ∃ d ∈ (builtinKinds : List (KindDecl κ)), d.name = "receive" :=
    List.mem_map.mp (by simp [builtinKinds, controlKinds])
  refine make_resolve (p := Object.hears) (q := fun kind => kind == "receive" || kind == "r")
    hears_builtinKinds (by decide) (fun kind hOdd => ?_) kind args
  obtain ⟨d, hd, hName⟩ := hThere
  refine ⟨d, hd, ?_⟩
  have hWritten : kind = "receive" ∨ kind = "r" := by
    simpa only [Object.hears, ne_eq, Bool.not_eq_false, Bool.or_eq_true, beq_iff_eq] using hOdd
  rcases hWritten with rfl | rfl
  · exact .inl hName
  · exact .inr (hName ▸ by decide)

end Registry

/-- A box with the object of its kind listens if the patch says so. -/
theorem Node.Descends.hears {κ : Type} [CustomKind κ] {n : Node κ} (h : n.Descends) :
    n.object.hears = (n.kind == "receive" || n.kind == "r") := by
  rw [h.life.hears, Registry.madeFor, KindDecl.made,
    Object.hears_preinit _ _ ((Registry.suits_resolve n.kind).builtin n.args)]
  exact Registry.hears_resolve n.kind n.args

theorem Node.Descends.builtin {κ : Type} [CustomKind κ] {n : Node κ} (h : n.Descends) :
    n.object.isBuiltin = true := by
  refine h.life.builtin ?_
  rw [Registry.madeFor, KindDecl.made]
  exact (Object.evolves_preinit _ _ _ ((Registry.suits_resolve n.kind).builtin n.args)).1

namespace Engine

variable {κ : Type} [CustomKind κ] {e e' : Engine κ}

/-! ### Setting up -/

omit [CustomKind κ] in
/-- A box that is granted requests is put behind those that listen already, once for each request
that is about the name. -/
theorem listeners_foldl_grant (node : Nat) (name : String) (requests : List Request) :
    ∀ e : Engine κ, (requests.foldl (grant node) e).listeners name = e.listeners name ++
      ((requests.filterMap Request.name?).filter (· == name)).map fun _ => node := by
  induction requests with
  | nil => exact fun e => (List.append_nil _).symm
  | cons r requests ih =>
      intro e
      rw [List.foldl_cons, ih]
      cases r with
      | constant inlet value => rfl
      | schedule due commands => rfl
      | record entry => rfl
      | listen other =>
          have hNames : (Request.listen other :: requests).filterMap Request.name? =
              other :: requests.filterMap Request.name? := rfl
          rw [hNames]
          by_cases hSame : name = other
          · subst hSame
            simp [grant, listeners]
          · simp [grant, listeners, ByName.get?_insert_of_ne _ _ hSame, Ne.symm hSame]

/-- Setting up a box puts it behind those that listen already, if it is a receiver of the name. -/
theorem listeners_initNode (h : e.graph.Descends) (node : Nat) (name : String) :
    (e.initNode node).listeners name = e.listeners name ++
      if e.graph.boxes[node]?.any (Box.hears name) then [node] else [] := by
  rw [Graph.getElem?_boxes]
  unfold initNode
  cases hNode : e.graph.nodes[node]? with
  | none => exact (List.append_nil _).symm
  | some n =>
      have hn := h n (Array.mem_of_getElem? hNode)
      have hArg : ((n.args[0]?.toList.filter (· == name)).map fun _ => node) =
          if n.args[0]? == some name then [node] else [] := by
        cases n.args[0]? with
        | none => rfl
        | some other => by_cases hSame : other = name <;> simp [hSame]
      have hHears : ((some n).map Node.box).any (Box.hears name) =
          ((n.kind == "receive" || n.kind == "r") && n.args[0]? == some name) := rfl
      simp only
      rw [listeners_foldl_grant, Object.names_init _ hn.builtin, hn.hears, hHears]
      refine congrArg (e.listeners name ++ ·) ?_
      cases n.kind == "receive" || n.kind == "r" with
      | false => rfl
      | true => exact hArg

/-- Setting up boxes puts the receivers of the name among them behind those that listen already. -/
theorem listeners_foldl_initNode (name : String) (l : List Nat) : ∀ e : Engine κ,
    e.graph.Descends → (l.foldl initNode e).listeners name = e.listeners name ++
      l.filter fun i => e.graph.boxes[i]?.any (Box.hears name) := by
  induction l with
  | nil => exact fun e _ => (List.append_nil _).symm
  | cons i l ih =>
      intro e h
      have hBoxes : (e.initNode i).graph.boxes = e.graph.boxes :=
        congrArg (List.map Casing.toBox) (lasts_initNode e i).graph.casings
      rw [List.foldl_cons, ih _ (descends_initNode h i), listeners_initNode h, hBoxes,
        List.append_assoc, List.filter_cons]
      split <;> rfl

/-! ### For good -/

/-- Once a patch is loaded, nothing that is done adds a listener or takes one away. -/
theorem Change.receivers (h : Change e e') : e'.receivers = e.receivers := by
  cases h with
  | beginFrame => rfl
  | schedule due commands => rfl
  | work h =>
      cases h with
      | touch h => cases h <;> rfl
      | silence => rfl
      | endFrame => rfl
      | process node =>
          unfold processNode
          split <;> rfl

theorem receivers_of_changes (h : Chain Change e e') : e'.receivers = e.receivers :=
  h.keeps (p := fun later => later.receivers = e.receivers)
    (fun _ _ hChange hSame => hChange.receivers.trans hSame) rfl

/-- **After a load, the receivers of a name listen on it, and nothing else does.** -/
theorem listeners_load {source : String} (hRegistry : e.registry = .builtin)
    (hGraph : e.graph = .empty) (hNobody : e.receivers = .empty)
    (hLoad : e.load source = (.ok (), e')) (name : String) :
    e'.listeners name = listening e'.graph.boxes name := by
  obtain ⟨resolved, entry, -, hSetup, rfl⟩ := load_ok hLoad
  have hDescends := descends_resolvedBy hRegistry hGraph hSetup
  have hBefore : (e.resolvedBy source resolved).listeners name = [] := by
    obtain ⟨graph, tables, journal, hBuild⟩ := engine_build e (Patch.read source)
    rw [listeners, resolvedBy, hBuild, hNobody]
    rfl
  have hBoxes : (e.resolvedBy source resolved).initNodes.graph.boxes = resolved.boxes :=
    congrArg (List.map Casing.toBox)
      (lasts_initNodes (e.resolvedBy source resolved)).graph.casings
  have hLength : resolved.boxes.length = resolved.size := by
    rw [Graph.boxes, List.length_map, Graph.length_casings]
  have hFold := listeners_foldl_initNode name (List.range resolved.size) _ hDescends
  rw [hBefore, List.nil_append] at hFold
  refine hFold.trans ?_
  change _ = listening (e.resolvedBy source resolved).initNodes.graph.boxes name
  rw [hBoxes, listening, hLength]
  rfl

/-! ### Sending to a name -/

/-- Some boxes handle a message through `external`, one after the other: what a box sends about it
is worked off by the loop, with all that comes of it, before the next box is called. -/
inductive Serves (m : Message) (depth : Nat) : Engine κ → List Nat → List Call → Engine κ → Prop
  | done (e : Engine κ) : Serves m depth e [] [] e
  | next {e e' final : Engine κ} {node : Nat} {nodes : List Nat} {calls later : List Call}
      (hThere : node < e.graph.size)
      (hAll : ∃ k, Pass.next^[k] ⟨(e.handle node .external m).2,
        (e.handle node .external m).1.map (.ofEmission node (depth + 1)), []⟩ = .done ⟨e', calls⟩)
      (hRest : Serves m depth e' nodes later final) :
      Serves m depth e (node :: nodes) (⟨node, .external, m⟩ :: calls ++ later) final

/-- A message that is sent to a name is served to some boxes, and that is all that comes of it: the
loop gets from there, on top of any stack, to that stack. -/
structure SendsTo (e : Engine κ) (name : String) (m : Message) (depth : Nat) (nodes : List Nat)
    (calls : List Call) (final : Engine κ) : Prop where
  serves : Serves m depth (e.deliverStep (.receiver name m depth)).2 nodes calls final
  loop : ∀ below earlier, ∃ k, Pass.next^[k] ⟨e, .receiver name m depth :: below, earlier⟩ =
    ⟨final, below, earlier ++ calls⟩

/-- A row of steps is worked off alike on top of any stack, and whatever has been called before. -/
theorem exists_iterate_cascades (e : Engine κ) (steps below : List Pending) (earlier : List Call) :
    ∃ k, Pass.next^[k] ⟨e, steps ++ below, earlier⟩ =
      ⟨(cascades ⟨e, []⟩ steps).engine, below, earlier ++ (cascades ⟨e, []⟩ steps).calls⟩ := by
  obtain ⟨k, hLoop⟩ := passes_all steps (fun p _ => passes p.rank p rfl) ⟨e, earlier⟩ below
  have hCalls := cascades_append_calls steps e earlier []
  rw [List.append_nil] at hCalls
  exact ⟨k, by rw [hLoop, hCalls]⟩

theorem changes_cascades (e : Engine κ) (steps : List Pending) :
    Chain Change e (cascades ⟨e, []⟩ steps).engine :=
  (tale_cascades steps (fun p _ => tale_cascade p.rank p rfl) e ⟨e, []⟩ .nil).changes

theorem changes_handle (e : Engine κ) (node : Nat) (arrival : Arrival) (m : Message) :
    Chain Change e (e.handle node arrival m).2 :=
  (touches_handle e node arrival m).mono fun _ _ hTouch => .work (.touch hTouch)

/-- What the loop makes of a message at a box: the box handles it, and what it sends takes the
place of the message. -/
theorem next_inlet {node depth : Nat} (hDepth : depth < maxDepth) (arrival : Arrival) (m : Message)
    (below : List Pending) (earlier : List Call) :
    Pass.next ⟨e, .inlet node arrival m depth :: below, earlier⟩ =
      ⟨(e.handle node arrival m).2,
        (e.handle node arrival m).1.map (.ofEmission node (depth + 1)) ++ below,
        earlier ++ e.callsAt node arrival m⟩ := by
  simp [Pass.next, deliverStep, Pass.callsOf, hDepth]

/-- Below the limit of nesting, the loop serves a row of boxes. -/
theorem exists_serves (m : Message) {depth : Nat} (hDepth : depth < maxDepth) (nodes : List Nat) :
    ∀ e : Engine κ, (∀ node ∈ nodes, node < e.graph.size) →
      ∃ calls final, Serves m depth e nodes calls final ∧ ∀ below earlier, ∃ k,
        Pass.next^[k] ⟨e, nodes.map (.inlet · .external m depth) ++ below, earlier⟩ =
          ⟨final, below, earlier ++ calls⟩ := by
  induction nodes with
  | nil => exact fun e _ => ⟨[], e, .done e, fun below earlier => ⟨0, by simp⟩⟩
  | cons node nodes ih =>
      intro e hThere
      have hNode := hThere node List.mem_cons_self
      let sends := (e.handle node .external m).1.map (Pending.ofEmission node (depth + 1))
      let served := cascades ⟨(e.handle node .external m).2, []⟩ sends
      have hSize : served.engine.graph.size = e.graph.size :=
        (steady_of_changes ((changes_handle e node .external m).trans
          (changes_cascades _ sends))).graph.size
      obtain ⟨later, final, hServes, hLater⟩ := ih served.engine fun i hi =>
        hSize ▸ hThere i (List.mem_cons_of_mem _ hi)
      have hAll : ∃ k, Pass.next^[k] ⟨(e.handle node .external m).2, sends, []⟩ = .done served := by
        obtain ⟨k, hLoop⟩ := exists_iterate_cascades (e.handle node .external m).2 sends [] []
        rw [List.append_nil] at hLoop
        exact ⟨k, hLoop⟩
      refine ⟨_, final, .next hNode hAll hServes, fun below earlier => ?_⟩
      -- One turn calls the box, `k` turns work off what it sends, and `j` turns serve the others.
      obtain ⟨k, hFirst⟩ := exists_iterate_cascades (e.handle node .external m).2 sends
        (nodes.map (.inlet · .external m depth) ++ below) (earlier ++ [⟨node, .external, m⟩])
      obtain ⟨j, hOthers⟩ := hLater below (earlier ++ [⟨node, .external, m⟩] ++ served.calls)
      refine ⟨j + (k + 1), ?_⟩
      have hCalls : e.callsAt node .external m = [⟨node, .external, m⟩] := if_pos hNode
      rw [List.map_cons, List.cons_append, Function.iterate_add_apply,
        Function.iterate_succ_apply, next_inlet hDepth, hCalls, hFirst, hOthers,
        List.append_assoc, List.append_assoc]
      rfl

/-- A message that is sent to a name is served to those who listen on it. -/
theorem exists_sendsTo (name : String) (m : Message) {depth : Nat} (hDepth : depth < maxDepth)
    (hThere : ∀ node ∈ e.listeners name, node < e.graph.size) :
    ∃ calls final, e.SendsTo name m depth (e.listeners name) calls final := by
  obtain ⟨calls, final, hServes, hLoop⟩ :=
    exists_serves m hDepth (e.listeners name) (e.deliverStep (.receiver name m depth)).2 hThere
  refine ⟨calls, final, hServes, fun below earlier => ?_⟩
  obtain ⟨k, hServed⟩ := hLoop below earlier
  refine ⟨k + 1, ?_⟩
  have hTurn : Pass.next ⟨e, .receiver name m depth :: below, earlier⟩ =
      ⟨(e.deliverStep (.receiver name m depth)).2,
        (e.listeners name).map (.inlet · .external m depth) ++ below, earlier⟩ := by
    simp [Pass.next, deliverStep, Pass.callsOf]
  rw [Function.iterate_succ_apply, hTurn, hServed]

/-- Sending ends with what serving leaves. -/
theorem SendsTo.send_eq {name : String} {m : Message} {nodes : List Nat} {calls : List Call}
    {final : Engine κ} (h : e.SendsTo name m 0 nodes calls final) : e.send name m = final := by
  obtain ⟨k, hLoop⟩ := h.loop [] []
  have hDeliver := Pass.deliver_iterate k ⟨e, [.receiver name m 0], []⟩
  rw [hLoop, deliver] at hDeliver
  exact hDeliver.symm

/-- A box that sends to a name while it handles a message: the loop works off what it has sent
before, and comes to the message to the name. -/
theorem exists_iterate_receiver {node depth : Nat} {arrival : Arrival} {m out : Message}
    {name : String} {sent later : List Emission} (hDepth : depth < maxDepth)
    (hSends : (e.handle node arrival m).1 = sent ++ .receiver name out :: later)
    (below : List Pending) (earlier : List Call) :
    ∃ k between past, Chain Change e between ∧
      Pass.next^[k] ⟨e, .inlet node arrival m depth :: below, earlier⟩ =
        ⟨between, .receiver name out (depth + 1) ::
          (later.map (.ofEmission node (depth + 1)) ++ below), past⟩ := by
  obtain ⟨k, hLoop⟩ := exists_iterate_cascades (e.handle node arrival m).2
    (sent.map (.ofEmission node (depth + 1)))
    (.receiver name out (depth + 1) :: (later.map (.ofEmission node (depth + 1)) ++ below))
    (earlier ++ e.callsAt node arrival m)
  have hTurn : Pass.next ⟨e, .inlet node arrival m depth :: below, earlier⟩ =
      ⟨(e.handle node arrival m).2, sent.map (.ofEmission node (depth + 1)) ++
        (.receiver name out (depth + 1) :: (later.map (.ofEmission node (depth + 1)) ++ below)),
        earlier ++ e.callsAt node arrival m⟩ := by
    rw [next_inlet hDepth, hSends, List.map_append, List.append_assoc]
    rfl
  have hChanges := (changes_handle e node arrival m).trans
    (changes_cascades _ (sent.map (.ofEmission node (depth + 1))))
  rw [← hTurn, ← Function.iterate_succ_apply] at hLoop
  exact ⟨k + 1, _, _, hChanges, hLoop⟩

/-! ### What a patch says about it -/

section Loaded

variable {settings : Settings} {before : List (Happening κ)} {e₀ e₁ now : Engine κ}
  {source : String}

theorem aligned_load (hBefore : Run (.new settings .builtin) before e₀)
    (hLoad : e₀.load source = (.ok (), e₁)) (hLater : Chain Change e₁ now) :
    Aligned .builtin (legible (Patch.read source)) now.graph := by
  obtain ⟨hGraph, -, -, hRegistry⟩ := empty_of_run hBefore
  have hRead := (assembled_reading hGraph hRegistry (Patch.read source)).aligned
  exact hRead.like ((lasts_load hLoad).graph.trans (lasts_of_changes hLater).graph)

/-- Those who listen on a name are the receivers of it that the patch writes. -/
theorem listeners_eq_receiversOf (hBefore : Run (.new settings .builtin) before e₀)
    (hLoad : e₀.load source = (.ok (), e₁)) (hLater : Chain Change e₁ now) (name : String) :
    now.listeners name = receiversOf source name := by
  obtain ⟨hGraph, -, -, hRegistry⟩ := empty_of_run hBefore
  have hNobody : e₀.receivers = .empty := receivers_of_changes hBefore.tale.changes
  have hSame : now.listeners name = e₁.listeners name := by
    rw [listeners, receivers_of_changes hLater]
    rfl
  rw [hSame, listeners_load hRegistry hGraph hNobody hLoad, (aligned_load hBefore hLoad .refl).boxes]
  rfl

/-- The receivers of a name are the nodes that are written as such. -/
theorem mem_receiversOf (hBefore : Run (.new settings .builtin) before e₀)
    (hLoad : e₀.load source = (.ok (), e₁)) (hLater : Chain Change e₁ now) (name : String)
    (i : Nat) : i ∈ receiversOf source name ↔ ∃ n, now.graph.nodes[i]? = some n ∧
      (n.kind = "receive" ∨ n.kind = "r") ∧ n.args[0]? = some name := by
  rw [receiversOf, mem_listening, ← (aligned_load hBefore hLoad hLater).getElem?_boxes]
  cases now.graph.nodes[i]? with
  | none => simp
  | some n => simp [Box.hears, Node.box, Node.casing]

/-- Below the limit of nesting, a message to a name is served to its receivers. -/
theorem exists_sendsTo_receiversOf (hBefore : Run (.new settings .builtin) before e₀)
    (hLoad : e₀.load source = (.ok (), e₁)) (hLater : Chain Change e₁ now) (name : String)
    (m : Message) {depth : Nat} (hDepth : depth < maxDepth) :
    ∃ calls final, now.SendsTo name m depth (receiversOf source name) calls final := by
  have hListeners := listeners_eq_receiversOf hBefore hLoad hLater name
  rw [← hListeners]
  refine exists_sendsTo name m hDepth fun node hNode => ?_
  rw [hListeners, mem_receiversOf hBefore hLoad hLater] at hNode
  obtain ⟨n, hThere, -⟩ := hNode
  exact (Array.getElem?_eq_some_iff.mp hThere).1

end Loaded

/--
**What is sent to a name goes to its receivers, and to nothing else.**  Take a patch that loads
with the built-in kinds, anything that is done afterwards, and the engine then or at any moment of
what is done next.  The boxes that listen on a name are those that the patch writes as `receive`
or `r` with the name as first argument, in ascending order.  What is sent to the name is served
to them: each handles it in this order, with all that comes of it, before the next one does, and
nothing else comes of it.  So it is if the host sends it; and if a box does, below the limit of
nesting, the delivery first works off what the box has sent before, then serves the listeners,
and goes on from what the box has sent behind it.
-/
theorem receivers_serve {settings : Settings} {before after : List (Happening κ)}
    {e₀ e₁ e now : Engine κ} {source : String} (hBefore : Run (.new settings .builtin) before e₀)
    (hLoad : e₀.load source = (.ok (), e₁)) (hAfter : Run e₁ after e) (hNow : Chain Change e now)
    (name : String) :
    (now.perform (.receivers name)).1 = .nodes (receiversOf source name) ∧
      (receiversOf source name).Pairwise (· < ·) ∧
      (∀ i, i ∈ receiversOf source name ↔ ∃ n, now.graph.nodes[i]? = some n ∧
        (n.kind = "receive" ∨ n.kind = "r") ∧ n.args[0]? = some name) ∧
      (∀ m, ∃ calls, now.SendsTo name m 0 (receiversOf source name) calls
        (now.perform (.send name m)).2) ∧
      ∀ node arrival m depth sent out later, depth + 1 < maxDepth →
        (now.handle node arrival m).1 = sent ++ .receiver name out :: later →
          ∀ below earlier, ∃ k between past,
            Pass.next^[k] ⟨now, .inlet node arrival m depth :: below, earlier⟩ =
              ⟨between, .receiver name out (depth + 1) ::
                (later.map (.ofEmission node (depth + 1)) ++ below), past⟩ ∧
              ∃ calls final, between.SendsTo name out (depth + 1) (receiversOf source name)
                calls final := by
  have hLater : Chain Change e₁ now := hAfter.tale.changes.trans hNow
  refine ⟨congrArg Reply.nodes (listeners_eq_receiversOf hBefore hLoad hLater name),
    pairwise_listening _ name, mem_receiversOf hBefore hLoad hLater name, fun m => ?_, ?_⟩
  · obtain ⟨calls, final, hSends⟩ :=
      exists_sendsTo_receiversOf hBefore hLoad hLater name m (by decide : 0 < maxDepth)
    obtain rfl := hSends.send_eq
    exact ⟨calls, hSends⟩
  · intro node arrival m depth sent out later hDepth hSends below earlier
    have hShallow : depth < maxDepth := by omega
    obtain ⟨k, between, past, hChanges, hLoop⟩ :=
      exists_iterate_receiver hShallow hSends below earlier
    exact ⟨k, between, past, hLoop,
      exists_sendsTo_receiversOf hBefore hLoad (hLater.trans hChanges) name out hDepth⟩

/-- Two receivers of one name and one of another, one without a name, and a message box that sends
to the first name. -/
def callingPatch : String :=
  "#X obj 0 0 receive a;\n#X obj 0 0 r b;\n#X obj 0 0 r a;\n#X obj 0 0 r;\n" ++
    "#X msg 0 0 one \\; a two;\n#X connect 0 0 4 0;\n"

def calling : Engine Empty :=
  loadedFrom .standard .builtin callingPatch

theorem receivers_serve_calling :
    (Engine.new .standard .builtin : Engine Empty).load callingPatch = (.ok (), calling) ∧
      (calling.perform (.receivers "a")).1 = .nodes [0, 2] ∧
      (∃ calls, calling.SendsTo "a" .bang 0 [0, 2] calls (calling.perform (.send "a" .bang)).2) ∧
      ∃ sent out later, (calling.handle 4 (.inlet 0) .bang).1 = sent ++ .receiver "a" out :: later ∧
        ∀ below earlier, ∃ k between past,
          Pass.next^[k] ⟨calling, .inlet 4 (.inlet 0) .bang 0 :: below, earlier⟩ =
            ⟨between, .receiver "a" out 1 :: (later.map (.ofEmission 4 1) ++ below), past⟩ ∧
            ∃ calls final, between.SendsTo "a" out 1 [0, 2] calls final := by
  have hForward : ∀ w ∈ ((Engine.new .standard .builtin : Engine Empty).build
      (Patch.read callingPatch)).graph.wires, w.rate = .signal → w.source < w.sink := by
    decide +kernel
  have hReceivers : receiversOf callingPatch "a" = [0, 2] := by decide +kernel
  have hAny : ((calling.handle 4 (.inlet 0) .bang).1.any fun x =>
      x.casesOn (fun _ _ => false) fun name _ => name == "a") = true := by
    decide +kernel
  have hLoad : (Engine.new .standard .builtin : Engine Empty).load callingPatch =
      (.ok (), calling) := load_of_ranked id (by decide +kernel) hForward
  obtain ⟨out, hOut⟩ : ∃ out, .receiver "a" out ∈ (calling.handle 4 (.inlet 0) .bang).1 := by
    obtain ⟨x, hx, hTo⟩ := List.any_eq_true.mp hAny
    cases x with
    | outlet k m => exact absurd hTo Bool.false_ne_true
    | receiver name out => exact ⟨out, eq_of_beq hTo ▸ hx⟩
  obtain ⟨sent, later, hSends⟩ := List.append_of_mem hOut
  have hServe := receivers_serve .start hLoad .start .refl "a"
  rw [hReceivers] at hServe
  obtain ⟨hListed, -, -, hSend, hBox⟩ := hServe
  exact ⟨hLoad, hListed, hSend .bang, sent, out, later, hSends,
    hBox 4 (.inlet 0) .bang 0 sent out later (by decide) hSends⟩

end Engine

end Patchbay
