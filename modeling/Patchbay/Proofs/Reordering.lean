import Patchbay.Proofs.Alike
import Patchbay.Proofs.Reading

/-
Patches with their connections in another order.

What a directive makes of an engine does not depend on the line that it stands on, and a
connection changes nothing but the graph.  So two patches that only make their connections in
different orders lead to engines that are wired alike, whatever they have written while they
were read, and setting up the boxes keeps them so.  From then on they cannot be told apart by
sending messages and rendering frames.

The program may also stop before it is done, at a connection that overflows.  It then does so in
either order: what decides is the box that the connection goes to, and no built-in kind lays out
a placeholder with more inlets than can be counted.
-/

namespace Patchbay

deriving instance DecidableEq for Directive

/-- The directives of a patch that can be read. -/
def directivesOf (source : String) : List Directive :=
  (legible (Patch.read source)).map Statement.directive

/-! ### Reading -/

/-- Builds that are the same but for what has been written. -/
def Build.Agrees {κ : Type} (b b' : Build κ) : Prop :=
  ∃ journal, b' = ⟨{ b.engine with journal }, b.openTable⟩

theorem Build.Agrees.trans {κ : Type} {b₁ b₂ b₃ : Build κ} (h₁ : b₁.Agrees b₂)
    (h₂ : b₂.Agrees b₃) : b₁.Agrees b₃ := by
  obtain ⟨_, rfl⟩ := h₁
  obtain ⟨journal, rfl⟩ := h₂
  exact ⟨journal, rfl⟩

namespace Engine

variable {κ : Type} [CustomKind κ] {e e' : Engine κ}

/-- Directives as statements, wherever they stand. -/
def unplaced (directives : List Directive) : List (Except Error Statement) :=
  directives.map fun d => .ok ⟨0, d⟩

theorem unplaced_concat (directives : List Directive) (d : Directive) :
    unplaced (directives ++ [d]) = unplaced directives ++ [.ok ⟨0, d⟩] := by
  rw [unplaced, List.map_append]
  rfl

/-- What some directives build, wherever they stand. -/
def drafted (e : Engine κ) (directives : List Directive) : Build κ :=
  e.reading (unplaced directives)

theorem drafted_concat (e : Engine κ) (directives : List Directive) (d : Directive) :
    e.drafted (directives ++ [d]) = apply (e.drafted directives) ⟨0, d⟩ := by
  rw [drafted, unplaced_concat, reading_concat]
  rfl

/-- What a directive does is no matter of its line, nor of what has been written. -/
theorem agrees_apply {b b' : Build κ} (h : b.Agrees b') (s : Statement) :
    (apply b ⟨0, s.directive⟩).Agrees (apply b' s) := by
  obtain ⟨journal, rfl⟩ := h
  obtain ⟨line, d⟩ := s
  cases d with
  | connect source outlet sink inlet =>
      obtain ⟨_, hEq⟩ := b.engine.exists_connect_eq 0 source outlet sink inlet
      obtain ⟨_, hEq'⟩ := ({ b.engine with journal } : Engine κ).exists_connect_eq line source outlet
        sink inlet
      simp only [apply, hEq, hEq']
      exact ⟨_, rfl⟩
  | fill start values =>
      simp only [apply, fillTable]
      cases b.openTable with
      | none => exact ⟨_, rfl⟩
      | some name =>
          simp only
          cases Tables.write b.engine.tables name start values with
          | none => exact ⟨_, rfl⟩
          | some result =>
              cases result with
              | ok tables => exact ⟨_, rfl⟩
              | error fault => exact ⟨_, rfl⟩
  | _ => exact ⟨_, rfl⟩

/-- Reading a patch is carrying out its directives. -/
theorem agrees_reading (e : Engine κ) (read : List (Except Error Statement)) :
    (e.drafted ((legible read).map Statement.directive)).Agrees (e.reading read) := by
  refine reading_keeps (p := fun done b => (e.drafted (done.map Statement.directive)).Agrees b)
    ⟨e.journal, rfl⟩ (fun done b entries h => ?_) read fun done b s _ h => ?_
  · obtain ⟨journal, rfl⟩ := h
    exact ⟨_, rfl⟩
  · rw [List.map_append, List.map_singleton, drafted_concat]
    exact agrees_apply h s

/-- Making a connection changes nothing but the graph. -/
theorem agrees_connect (b : Build κ) (c : Cord) :
    Build.Agrees ⟨{ b.engine with graph := b.engine.graph.plug c }, b.openTable⟩
      (apply b ⟨0, c.directive⟩) := by
  obtain ⟨_, hEq⟩ := b.engine.exists_connect_eq 0 c.source c.outlet c.sink c.inlet
  simp only [apply, Cord.directive, hEq, Graph.plug]
  exact ⟨_, rfl⟩

theorem agrees_connects (e : Engine κ) (base : List Directive) (cords : List Cord) :
    Build.Agrees ⟨{ (e.drafted base).engine with
        graph := (e.drafted base).engine.graph.plugAll cords }, (e.drafted base).openTable⟩
      (e.drafted (base ++ cords.map Cord.directive)) := by
  induction cords using List.reverseRecOn with
  | nil =>
      rw [List.map_nil, List.append_nil]
      exact ⟨(e.drafted base).engine.journal, rfl⟩
  | append_singleton cords c ih =>
      rw [List.map_append, List.map_singleton, ← List.append_assoc, drafted_concat,
        Graph.plugAll_concat]
      exact (agrees_connect _ c).trans (agrees_apply ih ⟨0, c.directive⟩)

/-- An engine that has read a patch is up to its journal the one that has read what precedes the
connections, with these made. -/
theorem build_eq {source : String} {base : List Directive} {cords : List Cord}
    (h : directivesOf source = base ++ cords.map Cord.directive) (e : Engine κ) :
    ∃ journal, e.build (Patch.read source) = { (e.drafted base).engine with
      graph := (e.drafted base).engine.graph.plugAll cords, journal } := by
  have hRead := agrees_reading e (Patch.read source)
  rw [← directivesOf, h] at hRead
  obtain ⟨journal, hEq⟩ := (agrees_connects e base cords).trans hRead
  exact ⟨journal, congrArg Build.engine hEq⟩

/-! ### As far as the program gets -/

/-- How far the program gets is up to the directives, and no matter of the faults between them. -/
theorem getsThrough_unplaced (e : Engine κ) (read : List (Except Error Statement)) :
    e.getsThrough read = e.getsThrough (unplaced ((legible read).map Statement.directive)) := by
  induction read using List.reverseRecOn with
  | nil => rfl
  | append_singleton read r ih =>
      rw [getsThrough_concat, legible_append, List.map_append, ih]
      cases r with
      | error fault =>
          rw [show legible [(.error fault : Except Error Statement)] = [] from rfl]
          simp [stopsAt]
      | ok s =>
          have hStops : stopsAt (e.reading read) (.ok s) =
              stopsAt (e.drafted ((legible read).map Statement.directive))
                (.ok ⟨0, s.directive⟩) := by
            obtain ⟨journal, hEq⟩ := agrees_reading e read
            obtain ⟨line, d⟩ := s
            rw [hEq]
            cases d <;> rfl
          rw [hStops, drafted]
          exact (getsThrough_concat ..).symm.trans (congrArg _ (unplaced_concat ..).symm)

/-- The program gets through some connections if it stops at none of them. -/
theorem getsThrough_connects {base : List Directive}
    (hExclusive : (e.drafted base).engine.graph.Exclusive)
    (hCounted : (e.drafted base).engine.graph.Counted) (cords : List Cord) :
    e.getsThrough (unplaced (base ++ cords.map Cord.directive)) =
      (e.getsThrough (unplaced base) && !cords.any (e.drafted base).engine.graph.stops) := by
  induction cords using List.reverseRecOn with
  | nil => simp
  | append_singleton cords c ih =>
      have hStops : stopsAt (e.drafted (base ++ cords.map Cord.directive)) (.ok ⟨0, c.directive⟩) =
          (e.drafted base).engine.graph.stops c := by
        obtain ⟨journal, hEq⟩ := agrees_connects e base cords
        rw [hEq, ← Graph.stops_plugAll hExclusive hCounted cords c]
        rfl
      rw [List.map_append, List.map_singleton, ← List.append_assoc, unplaced_concat,
        getsThrough_concat, ih, ← drafted, hStops, List.any_append]
      simp [Bool.and_assoc]

/-! ### Setting up -/

/-- What the built-in kinds schedule sends a message. -/
theorem isMessage_of_init {scope : InitScope} {o : Object κ} (h : o.isBuiltin = true)
    {due : Float} {commands : Action} (hMem : .schedule due commands ∈ (o.init scope).2) :
    ∀ c ∈ commands, c.isMessage = true := by
  have hDuty : .schedule due commands ∈ o.duty.requests scope := by
    rw [← Object.filter_init scope h]
    exact List.mem_filter.mpr ⟨hMem, rfl⟩
  cases hKind : o.duty with
  | nothing => simp [hKind, Duty.requests] at hDuty
  | seed inlet =>
      rw [hKind, Duty.requests, seedInlet] at hDuty
      split at hDuty <;> simp at hDuty
  | bang =>
      rw [hKind, Duty.requests, bangAtStart, List.mem_singleton] at hDuty
      obtain ⟨-, rfl⟩ := Request.schedule.inj hDuty
      simp [Command.isMessage]

namespace Alike

variable {start start' : Array (Event κ)}

omit [CustomKind κ] in
/-- Writing from here on. -/
theorem restart (h : Alike start start' e e') (journal journal' : Array (Event κ)) :
    Alike journal journal' { e with journal } { e' with journal := journal' } := by
  obtain ⟨graph, written, rfl⟩ := h.rest
  exact ⟨⟨graph, journal', rfl⟩, h.graph, ⟨#[], by simp, by simp⟩, h.waiting⟩

omit [CustomKind κ] in
/-- The inlets are pointed at the same outlets. -/
theorem resolve (h : Alike start start' e e') : Alike start start'
    { e with graph := { e.graph with nodes := e.graph.nodes.mapIdx e.graph.resolvedNode } }
    { e' with graph := { e'.graph with nodes := e'.graph.nodes.mapIdx e'.graph.resolvedNode } } := by
  have hGraph := h.graph.resolve
  obtain ⟨graph, journal, rfl⟩ := h.rest
  exact ⟨⟨_, journal, rfl⟩, hGraph, h.written, h.waiting⟩

omit [CustomKind κ] in
theorem grant (h : Alike start start' e e') (node : Nat) {r : Request}
    (hSends : ∀ due commands, r = .schedule due commands → ∀ c ∈ commands, c.isMessage = true) :
    Alike start start' (Engine.grant node e r) (Engine.grant node e' r) := by
  cases r with
  | constant inlet value =>
      refine h.onNode node fun n n' _ hBare => ?_
      exact Node.bare_onInlets hBare fun inlets => inlets.modify inlet (·.setConstant value)
  | listen name =>
      obtain ⟨graph, journal, rfl⟩ := h.rest
      exact ⟨⟨graph, journal, rfl⟩, h.graph, h.written, h.waiting⟩
  | schedule due commands =>
      obtain ⟨graph, journal, rfl⟩ := h.rest
      refine ⟨⟨graph, journal, rfl⟩, h.graph, h.written, fun action hAction => ?_⟩
      rcases List.mem_cons.mp ((Agenda.schedule_perm _ _ _).mem_iff.mp hAction) with rfl | hAction
      · exact hSends due action rfl
      · exact h.waiting action hAction
  | record entry => exact h.log [entry]

omit [CustomKind κ] in
theorem grants (node : Nat) (requests : List Request)
    (hSends : ∀ due commands, .schedule due commands ∈ requests →
      ∀ c ∈ commands, c.isMessage = true) :
    ∀ {e e' : Engine κ}, Alike start start' e e' →
      Alike start start' (requests.foldl (Engine.grant node) e)
        (requests.foldl (Engine.grant node) e') := by
  induction requests with
  | nil => exact fun h => h
  | cons r requests ih =>
      intro e e' h
      refine ih (fun due commands hMem => hSends due commands (List.mem_cons_of_mem _ hMem)) ?_
      exact h.grant node fun due commands hr => hSends due commands (hr ▸ List.mem_cons_self)

/-- Boxes that are the same but for the inlets of placeholders ask for the same. -/
theorem init (h : Alike start start' e e') {n n' : Node κ} (hBare : n'.bare = n.bare)
    (node : Nat) :
    n'.object.init (e'.initScope node n') = n.object.init (e.initScope node n) := by
  obtain ⟨graph, journal, rfl⟩ := h.rest
  rcases Node.eq_or_null_of_bare hBare with rfl | ⟨hNull, hEq⟩
  · rfl
  · rw [hEq, hNull]
    rfl

theorem initNode (h : Alike start start' e e') (hBuiltin : ∀ n ∈ e.graph.nodes,
    n.object.isBuiltin = true) (node : Nat) :
    Alike start start' (e.initNode node) (e'.initNode node) := by
  unfold Engine.initNode
  cases hNode : e.graph.nodes[node]? with
  | none =>
      rw [h.graph.boxed.noNode hNode]
      exact h
  | some n =>
      obtain ⟨n', hNode', hBare⟩ := h.graph.boxed.node hNode
      rw [hNode']
      simp only [h.init hBare]
      refine grants node _ (fun due commands hMem => ?_)
        (h.withObject hNode (Object.isPlaceholder_init _ _))
      exact isMessage_of_init (hBuiltin n (Array.mem_of_getElem? hNode)) hMem

/-- Setting up the boxes.  They stay built-in ones throughout. -/
theorem foldl_initNode (nodes : List Nat) : ∀ {e e' : Engine κ}, Alike start start' e e' →
    e.graph.Sound → Alike start start' (nodes.foldl Engine.initNode e)
      (nodes.foldl Engine.initNode e') := by
  induction nodes with
  | nil => exact fun h _ => h
  | cons node nodes ih =>
      intro e e' h hSound
      exact ih (h.initNode (fun n hn => (hSound.boxes n hn).builtin) node)
        (hSound.evolves (dresses_initNode e node).graph)

theorem initNodes (h : Alike start start' e e') (hSound : e.graph.Sound) :
    Alike start start' e.initNodes e'.initNodes := by
  rw [Engine.initNodes, Engine.initNodes, h.graph.size]
  exact h.foldl_initNode _ hSound

end Alike

/-! ### The inlets of placeholders -/

omit [CustomKind κ] in
/-- No built-in kind has more inlets than can be counted. -/
theorem inlets_builtinKinds : ∀ d ∈ (Registry.builtinKinds : List (KindDecl κ)),
    d.layout.inlets < twoTo 64 := by
  simp only [Registry.builtinKinds, Registry.structuralKinds, Registry.signalKinds,
    Registry.controlKinds, SignalOp.all, Operator.all, List.map_cons, List.map_nil,
    List.forall_mem_append, List.forall_mem_cons, List.not_mem_nil, false_implies, implies_true,
    and_true]
  and_intros
  all_goals exact Nat.le_of_ble_eq_true rfl

/-- Placeholders have the inlets that their kind lays out. -/
theorem inlets_preinit {o : Object κ} (hBuiltin : o.isBuiltin = true) {args : List String}
    {layout : Layout} (hNull : (o.preinit args layout).1.isPlaceholder = true) :
    (o.preinit args layout).2.inlets = layout.inlets := by
  cases o with
  | custom k => simp [Object.isBuiltin] at hBuiltin
  | _ => first | rfl | simp [Object.preinit, Object.isPlaceholder] at hNull

omit [CustomKind κ] in
theorem inlets_resolve (kind : String) :
    ((Registry.builtin : Registry κ).resolve kind).1.layout.inlets < twoTo 64 :=
  Registry.resolve_keeps (p := fun d => d.layout.inlets < twoTo 64) inlets_builtinKinds
    (twoTo_pos 64) kind

theorem counted_createNode (h : e.Drafting) (hCounted : e.graph.Counted) (kind : String)
    (position : Position) (args : List String) :
    (e.createNode kind position args).graph.Counted := by
  have hBuiltin := (Registry.suits_resolve (κ := κ) (writtenKind kind)).builtin args
  have hFew := inlets_resolve (κ := κ) (writtenKind kind)
  rw [← h.registry] at hBuiltin hFew
  refine hCounted.addNode (fun hNull => ?_) _ _ _ _ _ _
  rw [List.length_map, List.length_range]
  exact Nat.lt_of_le_of_lt (Nat.le_of_eq (inlets_preinit hBuiltin hNull)) hFew

/-- An engine whose patch is being read, and whose placeholders can be counted. -/
structure Counting (e : Engine κ) : Prop extends e.Drafting where
  counted : e.graph.Counted

theorem counted_build (hRegistry : e.registry = .builtin) (hEmpty : e.graph = .empty)
    (statements : List (Except Error Statement)) : (e.build statements).graph.Counted := by
  suffices h : (e.build statements).Counting from h.counted
  refine build_keeps (applyResult_keeps (fun _ kind position args h => ?_)
    (fun _ _ _ _ _ _ _ _ hConnect h => ?_) fun _ _ _ h => ?_) _ ⟨?_, ?_⟩
  · exact ⟨h.createNode kind position args,
      counted_createNode h.toDrafting h.counted kind position args⟩
  · exact ⟨⟨h.registry, h.graph.connect hConnect, h.loaded⟩, h.counted.connect hConnect⟩
  · exact ⟨⟨h.registry, h.graph, h.loaded⟩, h.counted⟩
  · exact ⟨hRegistry, hEmpty ▸ .empty, rfl⟩
  · show e.graph.Counted
    rw [hEmpty]
    exact fun n hn => absurd hn (by simp [Graph.empty])

/-! ### Loading -/

theorem load_of_cycle {settings : Settings} {registry : Registry κ} {source : String} {n : Nat}
    (hThrough : (Engine.new settings registry : Engine κ).getsThrough (Patch.read source) = true)
    (hCycle : ((Engine.new settings registry : Engine κ).build
      (Patch.read source)).graph.signalCycle? = some n) :
    ((Engine.new settings registry : Engine κ).load source).1 = .error (.signalCycle n) := by
  rw [load, loadRead_of_through rfl hThrough, finish]
  rcases Graph.setupInPlace_eq ((Engine.new settings registry : Engine κ).build
    (Patch.read source)).graph with ⟨m, hFound, hSetup⟩ | ⟨hNone, -⟩
  · obtain rfl := Option.some.inj (hCycle.symm.trans hFound)
    simp only [hSetup]
  · simp [hCycle] at hNone

/-- The graph that the directives before the connections make. -/
def draftedGraph (settings : Settings) (registry : Registry κ) (base : List Directive) : Graph κ :=
  ((Engine.new settings registry).drafted base).engine.graph

theorem built_draftedGraph (settings : Settings) (registry : Registry κ) (base : List Directive) :
    (draftedGraph settings registry base).Built :=
  built_build rfl _

theorem counted_draftedGraph (settings : Settings) (base : List Directive) :
    (draftedGraph settings (.builtin : Registry κ) base).Counted :=
  counted_build (e := (Engine.new settings .builtin : Engine κ)) rfl rfl (unplaced base)

section Reordered

variable {settings : Settings} {source source' : String} {base : List Directive}
  {cords cords' : List Cord}

theorem graph_build {registry : Registry κ}
    (hSource : directivesOf source = base ++ cords.map Cord.directive) :
    ((Engine.new settings registry).build (Patch.read source)).graph =
      (draftedGraph settings registry base).plugAll cords := by
  obtain ⟨journal, hEq⟩ := build_eq hSource (Engine.new settings registry)
  rw [hEq]
  rfl

/-- The program gets through a patch if it gets to the connections and stops at none of them. -/
theorem getsThrough_eq (hSource : directivesOf source = base ++ cords.map Cord.directive) :
    (Engine.new settings .builtin : Engine κ).getsThrough (Patch.read source) =
      ((Engine.new settings .builtin : Engine κ).getsThrough (unplaced base) &&
        !cords.any (draftedGraph settings (.builtin : Registry κ) base).stops) := by
  rw [getsThrough_unplaced, ← directivesOf, hSource]
  exact getsThrough_connects (built_draftedGraph settings .builtin base).exclusive
    (counted_draftedGraph settings base) cords

/-- The program gets through both patches, or through neither. -/
theorem getsThrough_reordered (hSource : directivesOf source = base ++ cords.map Cord.directive)
    (hSource' : directivesOf source' = base ++ cords'.map Cord.directive)
    (hOrder : (draftedGraph settings (.builtin : Registry κ) base).Reordered cords cords') :
    (Engine.new settings .builtin : Engine κ).getsThrough (Patch.read source') =
      (Engine.new settings .builtin : Engine κ).getsThrough (Patch.read source) := by
  rw [getsThrough_eq hSource, getsThrough_eq hSource', hOrder.any_stops]

/-- It stops at none of the connections then. -/
theorem stops_eq_false (hSource : directivesOf source = base ++ cords.map Cord.directive)
    (hThrough : (Engine.new settings .builtin : Engine κ).getsThrough (Patch.read source) = true) :
    ∀ c ∈ cords, (draftedGraph settings (.builtin : Registry κ) base).stops c = false := by
  rw [getsThrough_eq hSource, Bool.and_eq_true, Bool.not_eq_true', List.any_eq_false] at hThrough
  exact fun c hc => Bool.eq_false_iff.mpr (hThrough.2 c hc)

/-- Once a patch is loaded, every slot holds the wire of the last connection that claims it. -/
theorem wireAt?_loadedFrom (hSource : directivesOf source = base ++ cords.map Cord.directive)
    (hThrough : (Engine.new settings .builtin : Engine κ).getsThrough (Patch.read source) = true)
    (slot : Rate × Nat × Nat) :
    (loadedFrom settings (.builtin : Registry κ) source).graph.wireAt? slot =
      ((draftedGraph settings (.builtin : Registry κ) base).lastClaim? cords slot).or
        ((draftedGraph settings (.builtin : Registry κ) base).wireAt? slot) := by
  have hRecent : (loadedFrom settings (.builtin : Registry κ) source).graph.recent =
      ((draftedGraph settings (.builtin : Registry κ) base).plugAll cords).recent := by
    rw [← graph_build hSource, loadedFrom]
    generalize (Engine.new settings .builtin : Engine κ).build (Patch.read source) = b
    exact (dresses_initNodes { b with
      graph := { b.graph with nodes := b.graph.nodes.mapIdx b.graph.resolvedNode } }).graph.recent
  rw [← Graph.wireAt?_plugAll (built_draftedGraph settings .builtin base).exclusive
    (counted_draftedGraph settings base) (stops_eq_false hSource hThrough), Graph.wireAt?,
    Graph.wireAt?, hRecent]

/-- Reading the patches leads to engines that are wired alike. -/
theorem alike_build (hSource : directivesOf source = base ++ cords.map Cord.directive)
    (hSource' : directivesOf source' = base ++ cords'.map Cord.directive)
    (hOrder : (draftedGraph settings (.builtin : Registry κ) base).Reordered cords cords')
    (hThrough : (Engine.new settings .builtin : Engine κ).getsThrough (Patch.read source) = true)
    (hThrough' : (Engine.new settings .builtin : Engine κ).getsThrough (Patch.read source') = true) :
    ∃ start start', Alike start start'
        ((Engine.new settings .builtin : Engine κ).build (Patch.read source))
        ((Engine.new settings .builtin : Engine κ).build (Patch.read source')) := by
  have hBuilt := built_draftedGraph settings (.builtin : Registry κ) base
  have hAgenda : ((Engine.new settings .builtin : Engine κ).drafted base).engine.agenda = .empty :=
    (unmoved_build _ _).agenda
  obtain ⟨journal, hEq⟩ := build_eq hSource (Engine.new settings .builtin : Engine κ)
  obtain ⟨journal', hEq'⟩ := build_eq hSource' (Engine.new settings .builtin : Engine κ)
  refine ⟨journal, journal', ?_⟩
  rw [hEq, hEq']
  refine ⟨⟨_, journal', rfl⟩, hBuilt.alike_plugAll (counted_draftedGraph settings base) hOrder
    (stops_eq_false hSource hThrough) (stops_eq_false hSource' hThrough'),
    ⟨#[], by simp, by simp⟩, ?_⟩
  simp [OnlyMessages, hAgenda, Agenda.empty, Agenda.actions]

/-- If there are no circles, loading the patches leads to twins. -/
theorem twins_load {start start' : Array (Event κ)} (h : Alike start start'
      ((Engine.new settings .builtin : Engine κ).build (Patch.read source))
      ((Engine.new settings .builtin : Engine κ).build (Patch.read source')))
    (hThrough : (Engine.new settings .builtin : Engine κ).getsThrough (Patch.read source) = true)
    (hThrough' : (Engine.new settings .builtin : Engine κ).getsThrough (Patch.read source') = true)
    (hNone : ((Engine.new settings .builtin : Engine κ).build
      (Patch.read source)).graph.signalCycle? = none)
    (hNone' : ((Engine.new settings .builtin : Engine κ).build
      (Patch.read source')).graph.signalCycle? = none) :
    Twins (loadedFrom settings .builtin source : Engine κ).journal
      (loadedFrom settings .builtin source' : Engine κ).journal
      (loadedFrom settings .builtin source) (loadedFrom settings .builtin source') := by
  have hDrafting := drafting_build (e := (Engine.new settings .builtin : Engine κ)) rfl .empty
    (Patch.read source)
  obtain ⟨resolved, hResolved, -⟩ :=
    load_eq_ok (e := (Engine.new settings .builtin : Engine κ)) rfl hThrough rfl hNone
  have hSound := (hDrafting.graph.setup hResolved).1
  obtain ⟨-, rfl⟩ := Graph.setup_eq_ok hResolved
  exact ⟨(h.resolve.initNodes hSound).restart _ _,
    (Live.new settings).load (load_of_acyclic hThrough hNone),
    (Live.new settings).load (load_of_acyclic hThrough' hNone')⟩

/--
**The order of the connections does not show**, as long as those that claim the same slot
follow each other as before.  Two patches with the same directives before their connections
are both refused for a signal cycle, or both load, unless the program stops at both since a
connection to the last inlet of all overflows.  If they load, then either way the last
connection that claims a slot has it, and whatever messages are sent and however many frames
are rendered, the answers, the calls of message hooks and all that is written are the same.
-/
theorem connects_in_any_order
    (hSource : directivesOf source = base ++ cords.map Cord.directive)
    (hSource' : directivesOf source' = base ++ cords'.map Cord.directive)
    (hOrder : (draftedGraph settings (.builtin : Registry κ) base).Reordered cords cords') :
    ((∃ node outlet sink inlet, .connect node outlet sink inlet ∈ directivesOf source ∧
          twoTo 64 ≤ inlet + 1) ∧
        ((Engine.new settings .builtin : Engine κ).load source).1 = .error .overflow ∧
        ((Engine.new settings .builtin : Engine κ).load source').1 = .error .overflow) ∨
    ((∃ n, ((Engine.new settings .builtin : Engine κ).load source).1 = .error (.signalCycle n)) ∧
        ∃ n, ((Engine.new settings .builtin : Engine κ).load source').1 =
          .error (.signalCycle n)) ∨
      ∃ e e' : Engine κ, (Engine.new settings .builtin).load source = (.ok (), e) ∧
        (Engine.new settings .builtin).load source' = (.ok (), e') ∧
        (∀ slot, e.graph.wireAt? slot =
            ((draftedGraph settings (.builtin : Registry κ) base).lastClaim? cords slot).or
              ((draftedGraph settings (.builtin : Registry κ) base).wireAt? slot) ∧
          e'.graph.wireAt? slot = e.graph.wireAt? slot) ∧
        ∀ commands : List Command, (∀ c ∈ commands, c.isPlayed = true) →
          replies commands e' = replies commands e ∧
            e'.callsOf commands = e.callsOf commands ∧
            ∃ written, (e.performAll commands).journal = e.journal ++ written ∧
              (e'.performAll commands).journal = e'.journal ++ written := by
  have hSame := getsThrough_reordered (κ := κ) hSource hSource' hOrder
  cases hThrough : (Engine.new settings .builtin : Engine κ).getsThrough (Patch.read source) with
  | false =>
      obtain ⟨s, hs, node, outlet, sink, inlet, hDirective, hLast⟩ := exists_last_inlet hThrough
      refine .inl ⟨⟨node, outlet, sink, inlet, ?_, hLast⟩, loadRead_of_stopped rfl hThrough,
        loadRead_of_stopped rfl (hSame.trans hThrough)⟩
      exact hDirective ▸ List.mem_map_of_mem hs
  | true =>
      have hThrough' := hSame.trans hThrough
      obtain ⟨start, start', h⟩ := alike_build hSource hSource' hOrder hThrough hThrough'
      have hWired := (built_build (e := (Engine.new settings .builtin : Engine κ)) rfl
        (Patch.read source)).wellWired
      have hWired' := (built_build (e := (Engine.new settings .builtin : Engine κ)) rfl
        (Patch.read source')).wellWired
      cases hCycle : ((Engine.new settings .builtin : Engine κ).build
          (Patch.read source)).graph.signalCycle? with
      | some n =>
          refine .inr (.inl ?_)
          cases hCycle' : ((Engine.new settings .builtin : Engine κ).build
              (Patch.read source')).graph.signalCycle? with
          | none =>
              have hNone := h.graph.symm.signalCycle? hWired' hWired hCycle'
              simp [hCycle] at hNone
          | some n' =>
              exact ⟨⟨n, load_of_cycle hThrough hCycle⟩, n', load_of_cycle hThrough' hCycle'⟩
      | none =>
          have hNone' := h.graph.signalCycle? hWired hWired' hCycle
          have hTwins := twins_load h hThrough hThrough' hCycle hNone'
          refine .inr (.inr ⟨_, _, load_of_acyclic hThrough hCycle,
            load_of_acyclic hThrough' hNone', fun slot => ⟨?_, ?_⟩, fun commands hPlayed => ?_⟩)
          · exact wireAt?_loadedFrom hSource hThrough slot
          · rw [hTwins.graph.wires]
          · obtain ⟨hReplies, hCalls, hAfter⟩ := Twins.performAll commands hPlayed hTwins
            exact ⟨hReplies, hCalls, hAfter.written⟩

end Reordered

/-! ### A patch in two orders -/

/-- Two oscillators, an adder and an output. -/
def sumBoxes : List Directive :=
  [.object ⟨0, 0⟩ "osc~" ["440"], .object ⟨0, 0⟩ "phasor~" ["2"], .object ⟨0, 0⟩ "+~" [],
    .object ⟨0, 0⟩ "dac~" []]

/-- Both oscillators claim the first inlet of the adder, and the second one gets it. -/
def sumCords : List Cord := [⟨0, 0, 2, 0⟩, ⟨1, 0, 2, 0⟩, ⟨0, 0, 2, 1⟩, ⟨2, 0, 3, 0⟩]

def sumCordsMixed : List Cord := [⟨2, 0, 3, 0⟩, ⟨0, 0, 2, 0⟩, ⟨0, 0, 2, 1⟩, ⟨1, 0, 2, 0⟩]

def sumPatch : String :=
  "#X obj 0 0 osc~ 440;\n#X obj 0 0 phasor~ 2;\n#X obj 0 0 +~;\n#X obj 0 0 dac~;\n" ++
    "#X connect 0 0 2 0;\n#X connect 1 0 2 0;\n#X connect 0 0 2 1;\n#X connect 2 0 3 0;\n"

def sumPatchMixed : String :=
  "#X obj 0 0 osc~ 440;\n#X obj 0 0 phasor~ 2;\n#X obj 0 0 +~;\n#X obj 0 0 dac~;\n" ++
    "#X connect 2 0 3 0;\n#X connect 0 0 2 0;\n#X connect 0 0 2 1;\n#X connect 1 0 2 0;\n"

/-- The wires come to lie in different orders, and the patches play the same. -/
theorem connects_in_any_order_sum : ∃ e e' : Engine Empty,
    (Engine.new .standard .builtin).load sumPatch = (.ok (), e) ∧
      (Engine.new .standard .builtin).load sumPatchMixed = (.ok (), e') ∧
      e'.graph.wires ≠ e.graph.wires ∧
      e'.graph.wireAt? (.signal, 2, 0) = some ⟨1, 0, 2, 0, .signal⟩ ∧
      replies [.render 1, .emit 0 0 .bang, .render 2] e' =
        replies [.render 1, .emit 0 0 .bang, .render 2] e := by
  have hSource : directivesOf sumPatch = sumBoxes ++ sumCords.map Cord.directive := by
    decide +kernel
  have hSource' : directivesOf sumPatchMixed = sumBoxes ++ sumCordsMixed.map Cord.directive := by
    decide +kernel
  have hFacts : (draftedGraph .standard (.builtin : Registry Empty) sumBoxes).Reordered
        sumCords sumCordsMixed ∧
      (draftedGraph .standard (.builtin : Registry Empty) sumBoxes).lastClaim?
        sumCords (.signal, 2, 0) = some ⟨1, 0, 2, 0, .signal⟩ ∧
      ((draftedGraph .standard (.builtin : Registry Empty) sumBoxes).plugAll sumCords).wires =
        [⟨1, 0, 2, 0, .signal⟩, ⟨0, 0, 2, 1, .signal⟩, ⟨2, 0, 3, 0, .signal⟩] ∧
      ((draftedGraph .standard (.builtin : Registry Empty) sumBoxes).plugAll sumCordsMixed).wires =
        [⟨2, 0, 3, 0, .signal⟩, ⟨0, 0, 2, 1, .signal⟩, ⟨1, 0, 2, 0, .signal⟩] := by
    decide +kernel
  obtain ⟨hOrder, hClaim, hWires, hWires'⟩ := hFacts
  have hForward : ∀ w ∈ ((Engine.new .standard .builtin : Engine Empty).build
      (Patch.read sumPatch)).graph.wires, w.rate = .signal → w.source < w.sink := by
    rw [graph_build hSource, hWires]
    decide
  obtain ⟨loaded, hLoads⟩ := loads_of_forward (by decide +kernel) hForward
  rcases connects_in_any_order hSource hSource' hOrder with
    ⟨-, hStopped, -⟩ | ⟨⟨n, hFailed⟩, -⟩ | hTwins
  · simp [hLoads] at hStopped
  · simp [hLoads] at hFailed
  · obtain ⟨e, e', hLoad, hLoad', hSlots, hPlays⟩ := hTwins
    refine ⟨e, e', hLoad, hLoad', ?_, ?_, (hPlays _ (by decide)).1⟩
    · rw [(lasts_load hLoad).graph.wires, (lasts_load hLoad').graph.wires, graph_build hSource,
        graph_build hSource', hWires, hWires']
      decide
    · obtain ⟨hSlot, hSame⟩ := hSlots (.signal, 2, 0)
      rw [hSame, hSlot, hClaim, Option.some_or]

end Engine

end Patchbay
