import Patchbay.Proofs.Repeats

/-
Every call of a hook, with the engine that the hook is called in.

A story tells which messages arrive and which frames begin, but not what a box saw when its
hook was called.  A trace does: each of its moments carries the engine as it is then, for a
message that reaches a box, for a box that is about to be computed, and for a frame that
begins.  Like a story it is told beside the definitions that run.  Which boxes a pull
computes is known already, so that part of a trace is the list `pulled` and the engines
along it.

`Course` is what a trace means: between two moments nothing happens that a hook could be
called for, every moment leads on by what its hook does, and every hook that is called
belongs to a box that is there.  From this follows whatever is kept by all small changes:
it holds at each moment of a trace.

The frames of a drive are threaded on what happens between them.  `Threads` says what a
relation has to satisfy in order to hold along a drive, so that no statement about traces
goes through the rounds of a drive again.
-/

namespace Patchbay

/-- A call of a hook, or the beginning of a frame, and the engine at that moment. -/
inductive Moment (κ : Type) where
  /-- A message reaches a box. -/
  | handles (e : Engine κ) (node : Nat) (arrival : Arrival) (m : Message)
  /-- A box is computed. -/
  | computes (e : Engine κ) (node : Nat)
  | begins (e : Engine κ)

namespace Moment

variable {κ : Type}

def engine : Moment κ → Engine κ
  | .handles e _ _ _ => e
  | .computes e _ => e
  | .begins e => e

/-- If a hook is called, it is that of a box that is there. -/
def InRange : Moment κ → Prop
  | .handles e node _ _ => node < e.graph.size
  | .computes e node => node < e.graph.size
  | .begins _ => True

end Moment

/-- Whether a command computes a single node. -/
def Command.ticks : Command → Bool
  | .tick _ => true
  | _ => false

namespace Engine

variable {κ : Type} [CustomKind κ]

/-! ### Tracing -/

/-- The message hook that a step of a delivery calls, if it calls one. -/
def stepTrace (e : Engine κ) : Pending → List (Moment κ)
  | .inlet node arrival m depth =>
    if depth < maxDepth ∧ node < e.graph.size then [.handles e node arrival m] else []
  | _ => []

/-- The message hooks that a delivery calls. -/
def deliverTrace (e : Engine κ) : List Pending → List (Moment κ)
  | [] => []
  | p :: rest =>
    let done := e.deliverStep p
    stepTrace e p ++ deliverTrace done.2 (done.1 ++ rest)
termination_by stack => WellFounded.wrap Pending.unfolds_wf stack
decreasing_by
  exact ⟨p, rest, _, rfl, rfl, rank_deliverStep e p⟩

/-- The moments of computing nodes one after the other. -/
def computeTrace : List Nat → Engine κ → List (Moment κ)
  | [], _ => []
  | n :: order, e => .computes e n :: computeTrace order (e.processNode n)

/-- The moments of computing a node and what it needs. -/
def tickTrace (e : Engine κ) (node : Nat) : List (Moment κ) :=
  computeTrace (pulled e.graph.size e node) e

/-- The moments of computing the output. -/
def finishTrace (e : Engine κ) : List (Moment κ) :=
  computeTrace (listAlong tick (fun e node => pulled e.graph.size e node) e.graph.endpoints
    e.silenced) e.silenced

/-- The moments of a command, given how to render a frame and the moments of that. -/
def commandTrace (render : Engine κ → Engine κ) (tell : Engine κ → List (Moment κ))
    (c : Command) (e : Engine κ) : List (Moment κ) :=
  match c with
  | .send name m => deliverTrace e [.receiver name m 0]
  | .emit node outlet m => deliverTrace e [.outlet (nodeIndex node) outlet m 0]
  -- A number that stands for no node has no hooks.
  | .tick node => if nodeIndex node < e.graph.size then e.tickTrace (nodeIndex node) else []
  | c => (commandFrames render c e).flatMap tell

/-- The moments of doing one thing after the other. -/
def foldTrace {α : Type} (f : Engine κ → α → Engine κ) (tell : Engine κ → α → List (Moment κ)) :
    List α → Engine κ → List (Moment κ)
  | [], _ => []
  | a :: l, e => tell e a ++ foldTrace f tell l (f e a)

/-- The moments of a frame: it begins, the actions that are due run, and the output is computed. -/
def frameTraceWith (run : Action → Engine κ → Engine κ)
    (tell : Action → Engine κ → List (Moment κ)) (e : Engine κ) : List (Moment κ) :=
  .begins e ::
    (foldTrace (fun e action => run action e) (fun e action => tell action e)
        e.beginFrame.1 e.beginFrame.2 ++
      finishTrace (e.beginFrame.1.foldl (fun e action => run action e) e.beginFrame.2))

/-- The moments of an action, nested at most `depth` deep. -/
def traceWithin : Nat → Action → Engine κ → List (Moment κ)
  | 0, _, _ => []
  | depth + 1, action, e =>
    foldTrace (performLogged (renderWith (runWithin depth)))
      (fun e c => commandTrace (renderWith (runWithin depth))
        (frameTraceWith (runWithin depth) (traceWithin depth)) c e) action e

/-- The moments of rendering a frame. -/
def frameTrace (e : Engine κ) : List (Moment κ) :=
  frameTraceWith (runWithin e.waitingActions) (traceWithin e.waitingActions) e

/-- The moments of a command. -/
def trace (e : Engine κ) (c : Command) : List (Moment κ) :=
  commandTrace render frameTrace c e

/-- What can come of an engine by which commands, and the trace of it.  Between the commands the
host may attach another sink, answer for it, or take out the journal. -/
inductive Session (e : Engine κ) : List Command → List (Moment κ) → Engine κ → Prop
  | start : Session e [] [] e
  | perform {commands : List Command} {moments : List (Moment κ)} {e' : Engine κ}
      (h : Session e commands moments e') (c : Command) :
      Session e (commands ++ [c]) (moments ++ e'.trace c) (e'.perform c).2
  | host {commands : List Command} {moments : List (Moment κ)} {e' : Engine κ}
      (h : Session e commands moments e') (sink : Option Sink) (journal : Array (Event κ)) :
      Session e commands moments { e' with sink, journal }

/-! ### What a trace means -/

/-- The changes that call no hook and begin no frame. -/
inductive Lull : Engine κ → Engine κ → Prop
  | note (e : Engine κ) (journal : Array (Event κ)) : Lull e { e with journal }
  | drive (e : Engine κ) (state : State) (overflow : Array Float32) (sink : Option Sink) :
      Lull e { e with state, overflow, sink }
  | silence (e : Engine κ) : Lull e e.silenced
  | endFrame (e : Engine κ) : Lull e { e with rendering := false }
  | schedule (e : Engine κ) (due : Float) (commands : Action) :
      Lull e (e.schedule due commands)

/-- How a trace leads from one engine to another. -/
inductive Course (e : Engine κ) : List (Moment κ) → Engine κ → Prop
  | nil : Course e [] e
  | lull {moments : List (Moment κ)} {e' e'' : Engine κ} (h : Course e moments e')
      (hLull : Lull e' e'') : Course e moments e''
  | handle {moments : List (Moment κ)} {e' : Engine κ} (h : Course e moments e') (node : Nat)
      (arrival : Arrival) (m : Message) (hNode : node < e'.graph.size) :
      Course e (moments ++ [.handles e' node arrival m]) (e'.handle node arrival m).2
  | process {moments : List (Moment κ)} {e' : Engine κ} (h : Course e moments e') (node : Nat)
      (hNode : node < e'.graph.size) :
      Course e (moments ++ [.computes e' node]) (e'.processNode node)
  | beginFrame {moments : List (Moment κ)} {e' : Engine κ} (h : Course e moments e') :
      Course e (moments ++ [.begins e']) e'.beginFrame.2

variable {e e' e'' : Engine κ} {moments moments' : List (Moment κ)}

theorem steady_changes (h : Chain Change e e') : e.Steady e' :=
  h.keeps (fun _ _ hChange hSteady => hSteady.trans hChange.steady) (.refl e)

theorem Pullable.changes (h : e.Pullable) (hChanges : Chain Change e e') : e'.Pullable :=
  hChanges.keeps (fun _ _ hChange hPullable => hPullable.change hChange) h

theorem Lull.change (h : Lull e e') : Change e e' := by
  cases h with
  | note journal => exact .work (.touch (.note e journal))
  | drive state overflow sink => exact .work (.touch (.drive e state overflow sink))
  | silence => exact .work (.silence e)
  | endFrame => exact .work (.endFrame e)
  | schedule due commands => exact .schedule e due commands

namespace Course

theorem trans (h : Course e moments e') (h' : Course e' moments' e'') :
    Course e (moments ++ moments') e'' := by
  induction h' with
  | nil => rwa [List.append_nil]
  | lull _ hLull ih => exact ih.lull hLull
  | handle _ node arrival m hNode ih =>
      rw [← List.append_assoc]
      exact ih.handle node arrival m hNode
  | process _ node hNode ih =>
      rw [← List.append_assoc]
      exact ih.process node hNode
  | beginFrame _ ih =>
      rw [← List.append_assoc]
      exact ih.beginFrame

/-- A lull first. -/
theorem after_lull (hLull : Lull e e') (h : Course e' moments e'') : Course e moments e'' :=
  (Course.nil.lull hLull).trans h

theorem changes (h : Course e moments e') : Chain Change e e' := by
  induction h with
  | nil => exact .refl
  | lull _ hLull ih => exact ih.tail hLull.change
  | handle _ node arrival m _ ih =>
      exact ih.trans (changes_of_works (chain_of_touches (fun _ _ hWork => hWork)
        (touches_handle _ node arrival m)))
  | process _ node _ ih => exact ih.tail (.work (.process _ node))
  | beginFrame _ ih => exact ih.tail (.beginFrame _)

theorem pullable (h : Course e moments e') (he : e.Pullable) : e'.Pullable :=
  he.changes h.changes

/-- The engine of each moment has come of the first one, and the box is there. -/
theorem moment (h : Course e moments e') {x : Moment κ} (hx : x ∈ moments) :
    Chain Change e x.engine ∧ x.InRange := by
  induction h with
  | nil => exact absurd hx List.not_mem_nil
  | lull _ _ ih => exact ih hx
  | handle h node arrival m hNode ih =>
      rcases List.mem_append.mp hx with hx | hx
      · exact ih hx
      · rw [List.mem_singleton.mp hx]
        exact ⟨h.changes, hNode⟩
  | process h node hNode ih =>
      rcases List.mem_append.mp hx with hx | hx
      · exact ih hx
      · rw [List.mem_singleton.mp hx]
        exact ⟨h.changes, hNode⟩
  | beginFrame h ih =>
      rcases List.mem_append.mp hx with hx | hx
      · exact ih hx
      · rw [List.mem_singleton.mp hx]
        exact ⟨h.changes, trivial⟩

end Course

/-! ### Messages -/

theorem course_log (e : Engine κ) (entries : List Entry) : Course e [] (e.log entries) :=
  .lull .nil (.note e _)

theorem course_deliverStep (e : Engine κ) (p : Pending) :
    Course e (e.stepTrace p) (e.deliverStep p).2 := by
  cases p with
  | outlet node outlet m depth =>
      simp only [deliverStep]
      split
      · exact .nil
      · exact course_log e _
  | receiver name m depth => exact course_log e _
  | inlet node arrival m depth =>
      simp only [deliverStep, stepTrace]
      by_cases hDepth : depth < maxDepth
      · by_cases hNode : node < e.graph.size
        · rw [if_pos hDepth, if_pos ⟨hDepth, hNode⟩]
          exact Course.nil.handle node arrival m hNode
        · have hNone : e.graph.nodes[node]? = none :=
            Array.getElem?_eq_none (Nat.le_of_not_lt hNode)
          rw [if_pos hDepth, if_neg fun h => hNode h.2]
          unfold handle
          rw [hNone]
          exact .nil
      · rw [if_neg hDepth, if_neg fun h => hDepth h.1]
        exact course_log e _

theorem course_deliver (e : Engine κ) (stack : List Pending) :
    Course e (e.deliverTrace stack) (e.deliver stack) := by
  induction e, stack using deliver.induct with
  | case1 e =>
      rw [deliverTrace, deliver]
      exact .nil
  | case2 e p rest done ih =>
      rw [deliverTrace, deliver]
      exact (course_deliverStep e p).trans ih

/-! ### Computing -/

theorem course_compute (order : List Nat) : ∀ e : Engine κ, (∀ n ∈ order, n < e.graph.size) →
    Course e (computeTrace order e) (e.compute order) := by
  induction order with
  | nil => exact fun e _ => .nil
  | cons n order ih =>
      intro e hRange
      obtain ⟨hFirst, hRest⟩ := List.forall_mem_cons.mp hRange
      have hSize : (e.processNode n).graph.size = e.graph.size :=
        (Work.process e n).steady.graph.size
      exact (Course.nil.process n hFirst).trans (ih _ fun k hk => hSize ▸ hRest k hk)

omit [CustomKind κ] in
/-- What is listed along the way is listed somewhere on it. -/
theorem mem_listAlong {α : Type} {f : Engine κ → α → Engine κ} {tell : Engine κ → α → List Nat}
    {p : Engine κ → Prop} (hKeep : ∀ e a, p e → p (f e a)) (l : List α) : ∀ e, p e →
      ∀ n ∈ listAlong f tell l e, ∃ e', p e' ∧ ∃ a ∈ l, n ∈ tell e' a := by
  induction l with
  | nil => exact fun e _ n hn => absurd hn List.not_mem_nil
  | cons a l ih =>
      intro e he n hn
      rcases List.mem_append.mp hn with hn | hn
      · exact ⟨e, he, a, List.mem_cons_self, hn⟩
      · obtain ⟨e', he', b, hb, hn⟩ := ih (f e a) (hKeep e a he) n hn
        exact ⟨e', he', b, List.mem_cons_of_mem _ hb, hn⟩

theorem steady_tickWithin (bound : Nat) (e : Engine κ) (node : Nat) :
    e.Steady (tickWithin bound e node) :=
  (works_tickWithin bound e node).keeps (fun _ _ hWork he => he.trans hWork.steady) (.refl e)

omit [CustomKind κ] in
theorem Steady.wellWired (h : e.Steady e') (hWired : e.graph.WellWired) : e'.graph.WellWired :=
  hWired.congr h.graph.wires h.graph.recent h.graph.size
    (h.graph.map_eq fun _ _ hNode => hNode.outlets)

/-- What is computed for a node that is there is there. -/
theorem lt_of_mem_pulled (bound : Nat) : ∀ (e : Engine κ) (node : Nat), e.graph.WellWired →
    node < e.graph.size → ∀ n ∈ pulled bound e node, n < e.graph.size := by
  induction bound with
  | zero => exact fun e node _ _ n hn => absurd hn List.not_mem_nil
  | succ bound ih =>
      intro e node hWired hNode n hn
      rcases List.mem_append.mp hn with hn | hn
      · obtain ⟨e', hSteady, source, hSource, hn⟩ := mem_listAlong (p := e.Steady)
          (fun e' source he' => by
            split
            · exact he'.trans (steady_tickWithin bound e' source)
            · exact he') _ e (.refl e) n hn
        split at hn
        · obtain ⟨w, hw, -, rfl, -⟩ := (Graph.mem_signalSources hWired).mp hSource
          rw [← hSteady.graph.size]
          refine ih e' w.source (hSteady.wellWired hWired) ?_ n hn
          rw [hSteady.graph.size]
          exact hWired.sourceInRange hw
        · exact absurd hn List.not_mem_nil
      · rw [List.mem_singleton.mp hn]
        exact hNode

theorem course_tick (hWired : e.graph.WellWired) {node : Nat} (hNode : node < e.graph.size) :
    Course e (e.tickTrace node) (e.tick node) := by
  rw [tick, tickWithin_eq_compute]
  exact course_compute _ e (lt_of_mem_pulled _ e node hWired hNode)

/-- There is nothing to compute for a number that stands for no node. -/
theorem tick_absent (hWired : e.graph.WellWired) {node : Nat} (hNode : e.graph.size ≤ node) :
    e.tick node = e := by
  have hSources : e.graph.signalSources node = [] := by
    refine List.eq_nil_iff_forall_not_mem.mpr fun source hSource => ?_
    obtain ⟨w, hw, -, -, hSink⟩ := (Graph.mem_signalSources hWired).mp hSource
    have hLess := hWired.sinkInRange w hw
    omega
  have hNone : e.graph.nodes[node]? = none := Array.getElem?_eq_none hNode
  have hTick : ∀ bound, tickWithin bound e node = e := by
    intro bound
    cases bound with
    | zero => rfl
    | succ bound => rw [tickWithin, hSources, List.foldl_nil, processNode, hNone]
  exact hTick _

theorem course_finishFrame (h : e.Pullable) : Course e (finishTrace e) e.finishFrame := by
  have hSilenced : e.Steady e.silenced := (Work.silence e).steady
  have hFinish : e.finishFrame =
      { e.graph.endpoints.foldl tick e.silenced with rendering := false } := rfl
  rw [hFinish, foldl_eq_compute tick (fun e node => pulled e.graph.size e node)
    fun e node => tickWithin_eq_compute _ e node]
  refine (Course.after_lull (.silence e) (course_compute _ e.silenced fun n hn => ?_)).lull
    (.endFrame _)
  obtain ⟨e', hSteady, node, hNode, hn⟩ := mem_listAlong (p := e.silenced.Steady)
    (fun e' node he' => he'.trans (steady_tickWithin _ e' node)) _ _ (.refl _) n hn
  rw [← hSteady.graph.size]
  refine lt_of_mem_pulled _ e' node ((hSilenced.trans hSteady).wellWired h.wired) ?_ n hn
  rw [hSteady.graph.size]
  exact h.inRange node hNode

/-! ### Frames of a command -/

/-- What a relation between an engine, the frames that are rendered from it and what comes of it has
to satisfy in order to hold along a drive. -/
structure Threads (render : Engine κ → Engine κ)
    (r : Engine κ → List (Engine κ) → Engine κ → Prop) : Prop where
  drive : ∀ (e : Engine κ) (state : State) (overflow : Array Float32) (sink : Option Sink)
    (journal : Array (Event κ)), r e [] { e with state, overflow, sink, journal }
  trans : ∀ {e e' e'' : Engine κ} {frames frames' : List (Engine κ)}, r e frames e' →
    r e' frames' e'' → r e (frames ++ frames') e''
  render : ∀ e : Engine κ, r e [e] (render e)

namespace Threads

variable {render : Engine κ → Engine κ} {r : Engine κ → List (Engine κ) → Engine κ → Prop}

omit [CustomKind κ] in
/-- What moves no frame first. -/
theorem after_drive (h : Threads render r) {e e' e'' : Engine κ} {frames : List (Engine κ)}
    (hDrive : r e [] e') (hRest : r e' frames e'') : r e frames e'' :=
  h.trans hDrive hRest

omit [CustomKind κ] in
theorem nextFrames (h : Threads render r) (n : Nat) :
    ∀ e : Engine κ, r e (Engine.nextFrames render n e) (renderMany render n e).2 := by
  induction n with
  | zero => intro e; exact h.drive e _ _ _ _
  | succ n ih => intro e; exact h.trans (h.render e) (ih (render e))

omit [CustomKind κ] in
theorem askSink (h : Threads render r) (e : Engine κ) : r e [] e.askSink.2 := by
  unfold Engine.askSink
  split
  · exact h.drive e _ _ _ _
  · exact h.drive e _ _ _ _

omit [CustomKind κ] in
/-- An offer after which something is left over. -/
theorem leave (h : Threads render r) (e : Engine κ) (samples overflow : Array Float32) :
    r e [] { (e.offer samples).2 with overflow } := by
  unfold Engine.offer
  split
  · exact h.drive e _ _ _ _
  · exact h.drive e _ _ _ _

omit [CustomKind κ] in
theorem driveRound (h : Threads render r) (e : Engine κ) :
    r e (if e.overflow.isEmpty then [e] else []) (Engine.driveRound render e).2 := by
  unfold Engine.driveRound
  split
  · exact h.trans (h.render e) (h.leave _ _ _)
  · exact h.leave e _ _

omit [CustomKind κ] in
theorem driveWithin (h : Threads render r) (cap budget : Nat) :
    ∀ (frames : Nat) (e : Engine κ), r e (driveFrames render budget e)
      (Engine.driveWithin render cap budget frames e).2 := by
  induction budget with
  | zero =>
      intro frames e
      rw [driveWithin_zero]
      refine h.after_drive (h.askSink e) ?_
      split
      · exact h.drive e.askSink.2 _ _ _ _
      · exact h.drive e.askSink.2 _ _ _ _
  | succ budget ih =>
      intro frames e
      rw [driveWithin_succ, driveFrames]
      by_cases hWants : e.askSink.1 = true
      · rw [if_pos hWants, if_pos hWants]
        exact h.after_drive (h.askSink e) (h.trans (h.driveRound _) (ih _ _))
      · rw [if_neg hWants, if_neg hWants]
        exact h.askSink e

omit [CustomKind κ] in
theorem writeWith (h : Threads render r) (e : Engine κ) :
    r e (writeFrames render e) (Engine.writeWith render e).2 := by
  unfold Engine.writeWith writeFrames
  split
  · exact h.drive e _ _ _ _
  · split
    · exact h.driveWithin _ _ _ e
    · exact h.drive e _ _ _ _

/-- A command that renders or drives. -/
theorem performWith (h : Threads render r) {c : Command} (hPassive : c.isPassive = false)
    (hTicks : c.ticks = false) (e : Engine κ) :
    r e (commandFrames render c e) (Engine.performWith render c e).2 := by
  cases c with
  | render n => exact h.nextFrames n e
  | skip n =>
      rw [Engine.performWith, ← renderMany_snd]
      exact h.nextFrames n e
  | play =>
      simp only [commandFrames, Engine.performWith, playWith]
      split
      · exact h.drive e _ _ _ _
      · exact h.after_drive (h.drive e .running _ _ _) (h.writeWith _)
  | write => exact h.writeWith e
  | tick node => exact Bool.noConfusion hTicks
  | _ => exact Bool.noConfusion hPassive

end Threads

/-! ### Commands -/

section Commands

variable {render : Engine κ → Engine κ} {tell : Engine κ → List (Moment κ)}

/-- Only sends and emits of the passive commands call hooks. -/
theorem commandTrace_passive {c : Command} (hPassive : c.isPassive = true) (e : Engine κ) :
    commandTrace render tell c e = [] ∨
      ∃ p : Pending, commandTrace render tell c e = e.deliverTrace [p] := by
  cases c with
  | send name m => exact .inr ⟨_, rfl⟩
  | emit node outlet m => exact .inr ⟨_, rfl⟩
  | render n => exact Bool.noConfusion hPassive
  | skip n => exact Bool.noConfusion hPassive
  | tick node => exact Bool.noConfusion hPassive
  | play => exact Bool.noConfusion hPassive
  | write => exact Bool.noConfusion hPassive
  | _ => exact .inl rfl

theorem course_stop (e : Engine κ) : Course e [] e.stop := by
  unfold stop
  split
  · exact (Course.nil.lull (.drive e _ _ _)).lull (.note _ _)
  · exact course_log e _

/-- A command that renders or drives calls the hooks that its frames call. -/
theorem commandTrace_frames {c : Command} (hPassive : c.isPassive = false)
    (hTicks : c.ticks = false) (e : Engine κ) :
    commandTrace render tell c e = (commandFrames render c e).flatMap tell := by
  cases c with
  | send name m => exact Bool.noConfusion hPassive
  | emit node outlet m => exact Bool.noConfusion hPassive
  | tick node => exact Bool.noConfusion hTicks
  | _ => rfl

/-- Traces thread through drives if frames are traced. -/
theorem threads_course (hRender : ∀ e : Engine κ, e.Pullable → Course e (tell e) (render e)) :
    Threads render fun e frames e' => e.Pullable → Course e (frames.flatMap tell) e' := by
  refine ⟨fun e state overflow sink journal _ => ?_, fun {e e' e'' frames frames'} h h' he => ?_,
    fun e he => ?_⟩
  · exact (Course.nil.lull (.drive e state overflow sink)).lull (.note _ journal)
  · rw [List.flatMap_append]
    exact (h he).trans (h' ((h he).pullable he))
  · rw [List.flatMap_singleton]
    exact hRender e he

theorem course_performWith (hRender : ∀ e : Engine κ, e.Pullable → Course e (tell e) (render e))
    (c : Command) (h : e.Pullable) :
    Course e (commandTrace render tell c e) (performWith render c e).2 := by
  cases c with
  | send name m => exact course_deliver e _
  | emit node outlet m => exact course_deliver e _
  | schedule due commands => exact .lull .nil (.schedule e due commands)
  | tick node =>
      simp only [commandTrace, performWith]
      split
      · rename_i hNode
        exact course_tick h.wired hNode
      · rename_i hNode
        rw [tick_absent h.wired (Nat.le_of_not_lt hNode)]
        exact .nil
  | mark topic label => exact course_log e _
  | stop => exact course_stop e
  | render n => exact (threads_course hRender).performWith rfl rfl e h
  | skip n => exact (threads_course hRender).performWith rfl rfl e h
  | play => exact (threads_course hRender).performWith rfl rfl e h
  | write => exact (threads_course hRender).performWith rfl rfl e h
  | _ => exact .nil

theorem course_performLogged (hRender : ∀ e : Engine κ, e.Pullable → Course e (tell e) (render e))
    (c : Command) (h : e.Pullable) :
    Course e (commandTrace render tell c e) (performLogged render e c) := by
  obtain ⟨journal, hEq⟩ := performLogged_eq render e c
  rw [hEq]
  exact (course_performWith hRender c h).lull (.note _ journal)

end Commands

/-! ### Frames and sessions -/

theorem course_foldl {α : Type} (f : Engine κ → α → Engine κ)
    (tell : Engine κ → α → List (Moment κ))
    (h : ∀ e a, e.Pullable → Course e (tell e a) (f e a)) (l : List α) :
    ∀ e : Engine κ, e.Pullable → Course e (foldTrace f tell l e) (l.foldl f e) := by
  induction l with
  | nil => exact fun e _ => .nil
  | cons a l ih =>
      intro e he
      have hFirst := h e a he
      exact hFirst.trans (ih (f e a) (hFirst.pullable he))

theorem course_renderWith {run : Action → Engine κ → Engine κ}
    {tell : Action → Engine κ → List (Moment κ)}
    (h : ∀ action e, e.Pullable → Course e (tell action e) (run action e)) (he : e.Pullable) :
    Course e (frameTraceWith run tell e) (renderWith run e) := by
  have hBegun : Course e [.begins e] e.beginFrame.2 := Course.nil.beginFrame
  have hDue := course_foldl (fun e action => run action e) (fun e action => tell action e)
    (fun e action he => h action e he) e.beginFrame.1 e.beginFrame.2 (hBegun.pullable he)
  exact hBegun.trans (hDue.trans (course_finishFrame (hDue.pullable (hBegun.pullable he))))

theorem course_runWithin (depth : Nat) : ∀ (action : Action) (e : Engine κ), e.Pullable →
    Course e (traceWithin depth action e) (runWithin depth action e) := by
  induction depth with
  | zero => exact fun action e _ => .nil
  | succ depth ih =>
      intro action e he
      exact course_foldl _ _ (fun e c he => course_performLogged
        (fun e he => course_renderWith ih he) c he) action e he

theorem course_render (h : e.Pullable) : Course e e.frameTrace e.render :=
  course_renderWith (course_runWithin _) h

/-- **Every command is traced in full.** -/
theorem course_perform (h : e.Pullable) (c : Command) : Course e (e.trace c) (e.perform c).2 :=
  course_performWith (fun _ he => course_render he) c h

theorem Session.course {commands : List Command} (h : Session e commands moments e')
    (he : e.Pullable) : Course e moments e' := by
  induction h with
  | start => exact .nil
  | perform _ c ih => exact ih.trans (course_perform (ih.pullable he) c)
  | host _ sink journal ih => exact (ih.lull (.drive _ _ _ sink)).lull (.note _ journal)

end Engine

end Patchbay
