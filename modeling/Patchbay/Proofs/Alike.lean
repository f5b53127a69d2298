import Patchbay.Proofs.Frame
import Patchbay.Proofs.Rewiring
import Patchbay.Proofs.Story

/-
Engines that are wired alike.

Two engines whose wires are the same up to their order are told apart by no message and no
frame.  A message goes where the wire at its outlet leads, which is asked by key.  A frame is
more delicate: its boxes are walked in the order of the wires, so the two engines compute them
in different orders.  But both are frame orders of either graph, and every frame order comes to
the same, so one list of boxes does for both.

What the engines have written so far may differ; from there on they write the same.
-/

namespace Patchbay

/-! ### What is seen of a story -/

namespace Happening

variable {κ : Type}

def call? : Happening κ → Option Call
  | .called c => some c
  | _ => none

end Happening

/-- The calls of message hooks in a story. -/
def callsIn {κ : Type} (story : List (Happening κ)) : List Call :=
  story.filterMap Happening.call?

theorem callsIn_append {κ : Type} (story told : List (Happening κ)) :
    callsIn (story ++ told) = callsIn story ++ callsIn told :=
  List.filterMap_append

namespace Command

/-- Whether a command sends a message or renders frames. -/
def isPlayed (c : Command) : Bool :=
  match c with
  | .render _ => true
  | c => c.isMessage

end Command

namespace Graph.Alike

variable {κ : Type} {g g' : Graph κ}

theorem isOutput (h : g.Alike g') : g'.isOutput = g.isOutput := by
  funext i
  have hAny : ∀ x : Option (Node κ),
      (x.any fun n => n.kind == "dac~") = (x.map Node.kind).any (· == "dac~") := by
    intro x
    cases x <;> rfl
  rw [Graph.isOutput, Graph.isOutput, hAny, hAny, h.boxed.map_eq fun _ _ => rfl]

/-- Graphs that are wired alike have the same frame orders. -/
theorem frameOrder (h : g.Alike g') {order : List Nat} (hOrder : g.FrameOrder order) :
    g'.FrameOrder order := by
  have hWires : g'.SignalWire = g.SignalWire := by
    funext source sink
    exact propext (h.signals source sink)
  have hHeard : ∀ n, g'.Heard n ↔ g.Heard n := by
    intro n
    rw [Heard, Heard, h.isOutput, hWires]
  refine ⟨hOrder.nodup, fun n => ?_, ?_, ?_⟩
  · rw [hHeard]
    exact hOrder.mem n
  · rw [hWires]
    exact hOrder.sources
  · rw [h.isOutput]
    exact hOrder.outputs

end Graph.Alike

namespace Engine

variable {κ : Type} {e e' : Engine κ} {start start' : Array (Event κ)}

/-- Engines that are the same but for the order of their wires and what they had written at the
start.  Actions that wait send messages and do nothing else. -/
structure Alike (start start' : Array (Event κ)) (e e' : Engine κ) : Prop where
  rest : ∃ graph journal, e' = { e with graph, journal }
  graph : e.graph.Alike e'.graph
  /-- From the start on they have written the same. -/
  written : ∃ added, e.journal = start ++ added ∧ e'.journal = start' ++ added
  waiting : e.OnlyMessages

namespace Alike

theorem log (h : Alike start start' e e') (entries : List Entry) :
    Alike start start' (e.log entries) (e'.log entries) := by
  obtain ⟨graph, journal, rfl⟩ := h.rest
  obtain ⟨added, hWritten, hWritten'⟩ := h.written
  refine ⟨⟨graph, _, rfl⟩, h.graph, ⟨added ++ (entries.map Event.entry).toArray, ?_, ?_⟩, h.waiting⟩
  · rw [Engine.log, hWritten, Array.append_assoc]
  · rw [Engine.log, hWritten', Array.append_assoc]

/-- Changing a box on both sides. -/
theorem onNode (h : Alike start start' e e') (i : Nat) {f : Node κ → Node κ}
    (hf : ∀ n n', e.graph.nodes[i]? = some n → n'.bare = n.bare → (f n').bare = (f n).bare) :
    Alike start start' (e.onGraph fun g => g.modifyNode i f)
      (e'.onGraph fun g => g.modifyNode i f) := by
  obtain ⟨graph, journal, rfl⟩ := h.rest
  exact ⟨⟨_, journal, rfl⟩, h.graph.modifyNode i hf, h.written, h.waiting⟩

theorem listeners (h : Alike start start' e e') (name : String) :
    e'.listeners name = e.listeners name := by
  obtain ⟨graph, journal, rfl⟩ := h.rest
  rfl

theorem observe (h : Alike start start' e e') (node inlet : Nat) (m : Message) :
    Alike start start' (e.onGraph fun g => g.observe node inlet m)
      (e'.onGraph fun g => g.observe node inlet m) := by
  simp only [Graph.observe_eq]
  refine h.onNode node fun n n' _ hBare => ?_
  exact Node.bare_onInlets hBare fun inlets => inlets.modify inlet (·.observed m)

variable [CustomKind κ]

/-! ### Messages -/

/-- Boxes that are the same but for the inlets of placeholders answer a message alike. -/
theorem onMessage (h : Alike start start' e e') {n n' : Node κ} (hBare : n'.bare = n.bare)
    (node : Nat) (arrival : Arrival) (m : Message) :
    n'.object.onMessage (e'.messageScope node n'.kind) arrival m =
      n.object.onMessage (e.messageScope node n.kind) arrival m := by
  obtain ⟨graph, journal, rfl⟩ := h.rest
  rcases Node.eq_or_null_of_bare hBare with rfl | ⟨-, hEq⟩
  · rfl
  · rw [hEq]
    rfl

omit [CustomKind κ] in
/-- What a hook leaves of its box. -/
theorem withObject (h : Alike start start' e e') {i : Nat} {n : Node κ}
    (hNode : e.graph.nodes[i]? = some n) {o : Object κ}
    (hSame : o.isPlaceholder = n.object.isPlaceholder) :
    Alike start start' (e.onGraph fun g => g.modifyNode i fun k => { k with object := o })
      (e'.onGraph fun g => g.modifyNode i fun k => { k with object := o }) := by
  refine h.onNode i fun k k' hk hBare => ?_
  obtain rfl := Option.some.inj (hNode.symm.trans hk)
  exact Node.bare_withObject hBare hSame

theorem handle (h : Alike start start' e e') (node : Nat) (arrival : Arrival) (m : Message) :
    (e'.handle node arrival m).1 = (e.handle node arrival m).1 ∧
      Alike start start' (e.handle node arrival m).2 (e'.handle node arrival m).2 := by
  unfold Engine.handle
  cases hNode : e.graph.nodes[node]? with
  | none =>
      rw [h.graph.boxed.noNode hNode]
      exact ⟨rfl, h⟩
  | some n =>
      obtain ⟨n', hNode', hBare⟩ := h.graph.boxed.node hNode
      rw [hNode']
      cases arrival with
      | external =>
          simp only [h.onMessage hBare, true_and]
          exact (h.withObject hNode (Object.isPlaceholder_onMessage _ _ _ _)).log _
      | inlet inlet =>
          have hSeen := Graph.getElem?_observe hNode inlet m
          simp only [(h.observe node inlet m).onMessage hBare, true_and]
          exact ((h.observe node inlet m).withObject hSeen
            (Object.isPlaceholder_onMessage _ _ _ _)).log _

theorem deliverStep (h : Alike start start' e e') (p : Pending) :
    (e'.deliverStep p).1 = (e.deliverStep p).1 ∧ Pass.callsOf e' p = Pass.callsOf e p ∧
      Alike start start' (e.deliverStep p).2 (e'.deliverStep p).2 := by
  cases p with
  | outlet node outlet m depth =>
      simp only [Engine.deliverStep, h.graph.messageTarget?]
      split
      · exact ⟨rfl, rfl, h⟩
      · exact ⟨rfl, rfl, h.log _⟩
  | receiver name m depth =>
      simp only [Engine.deliverStep, h.listeners, true_and]
      exact ⟨rfl, h.log _⟩
  | inlet node arrival m depth =>
      obtain ⟨hSent, hAfter⟩ := h.handle node arrival m
      simp only [Engine.deliverStep, Pass.callsOf, callsAt, h.graph.size, true_and]
      split
      · exact ⟨congrArg (List.map _) hSent, hAfter⟩
      · exact ⟨rfl, h.log _⟩

/-- A row of steps, if each of them goes alike. -/
theorem cascades (steps : List Pending)
    (hEach : ∀ p ∈ steps, ∀ e e' : Engine κ, Alike start start' e e' →
      (e'.cascade p).calls = (e.cascade p).calls ∧
        Alike start start' (e.cascade p).engine (e'.cascade p).engine) :
    ∀ o o' : Outcome κ, o'.calls = o.calls → Alike start start' o.engine o'.engine →
      (Engine.cascades o' steps).calls = (Engine.cascades o steps).calls ∧
        Alike start start' (Engine.cascades o steps).engine
          (Engine.cascades o' steps).engine := by
  induction steps with
  | nil => exact fun o o' hCalls h => ⟨hCalls, h⟩
  | cons p steps ih =>
      intro o o' hCalls h
      obtain ⟨hMore, hAfter⟩ := hEach p List.mem_cons_self _ _ h
      refine ih (fun q hq => hEach q (List.mem_cons_of_mem _ hq)) (o.andThen fun e => e.cascade p)
        (o'.andThen fun e => e.cascade p) ?_ hAfter
      simp only [Outcome.andThen, hCalls, hMore]

/-- Induction on how far the step is from the depth limit. -/
theorem cascade (n : Nat) : ∀ p : Pending, p.rank = n → ∀ e e' : Engine κ,
    Alike start start' e e' → (e'.cascade p).calls = (e.cascade p).calls ∧
      Alike start start' (e.cascade p).engine (e'.cascade p).engine := by
  induction n using Nat.strongRecOn with
  | ind n ih =>
      intro p hRank e e' h
      obtain ⟨hNext, hCalls, hAfter⟩ := h.deliverStep p
      rw [cascade_eq, cascade_eq, hNext]
      refine cascades _ (fun q hq => ?_) _ _ hCalls hAfter
      exact ih q.rank (hRank ▸ rank_deliverStep e p q hq) q rfl

/-- **A message is delivered alike**, to the same boxes in the same order. -/
theorem deliver (h : Alike start start' e e') (p : Pending) :
    (e'.cascade p).calls = (e.cascade p).calls ∧
      Alike start start' (e.deliver [p]) (e'.deliver [p]) := by
  rw [(settles_deliver e p).2, (settles_deliver e' p).2]
  exact cascade p.rank p rfl e e' h

/-- A command that sends a message gets no answer. -/
theorem message (h : Alike start start' e e') (frame : Engine κ → Engine κ)
    (tell : Engine κ → List (Happening κ)) {c : Command} (hMessage : c.isMessage = true) :
    (performWith frame c e).1 = .silence ∧ (performWith frame c e').1 = .silence ∧
      callsIn (commandStory frame tell c e') = callsIn (commandStory frame tell c e) ∧
      Alike start start' (performWith frame c e).2 (performWith frame c e').2 := by
  cases c with
  | send name m =>
      obtain ⟨hCalls, hAfter⟩ := h.deliver (.receiver name m 0)
      refine ⟨rfl, rfl, ?_, hAfter⟩
      rw [commandStory, commandStory, hCalls]
  | emit node outlet m =>
      obtain ⟨hCalls, hAfter⟩ := h.deliver (.outlet (nodeIndex node) outlet m 0)
      refine ⟨rfl, rfl, ?_, hAfter⟩
      rw [commandStory, commandStory, hCalls]
  | _ => simp [Command.isMessage] at hMessage

theorem performLogged (h : Alike start start' e e') {frame : Engine κ → Engine κ} {c : Command}
    (hMessage : c.isMessage = true) :
    Alike start start' (performLogged frame e c) (performLogged frame e' c) := by
  obtain ⟨hSilent, hSilent', -, hAfter⟩ := h.message frame (fun _ => []) hMessage
  simp only [Engine.performLogged, hSilent, hSilent', Reply.isSilence, if_true]
  exact hAfter

/-! ### Frames -/

omit [CustomKind κ] in
theorem withOutput (h : Alike start start' e e') (output : Array Float32) :
    Alike start start' { e with output } { e' with output } := by
  obtain ⟨graph, journal, rfl⟩ := h.rest
  exact ⟨⟨graph, journal, rfl⟩, h.graph, h.written, h.waiting⟩

/-- Boxes that are the same but for the inlets of placeholders yield the same. -/
theorem yield (h : Alike start start' e e') {n n' : Node κ} (hBare : n'.bare = n.bare) :
    e'.yield e'.graph n' = e.yield e.graph n := by
  have hInputs := h.graph.inputOf
  obtain ⟨graph, journal, rfl⟩ := h.rest
  rcases Node.eq_or_null_of_bare hBare with rfl | ⟨hNull, hEq⟩
  · rw [Engine.yield, Engine.yield, Graph.inputsOf, Graph.inputsOf, hInputs]
    rfl
  · rw [hEq, Engine.yield, Engine.yield, hNull]
    rfl

theorem processNode (h : Alike start start' e e') (i : Nat) :
    Alike start start' (e.processNode i) (e'.processNode i) := by
  unfold Engine.processNode
  cases hNode : e.graph.nodes[i]? with
  | none =>
      rw [h.graph.boxed.noNode hNode]
      exact h
  | some n =>
      obtain ⟨n', hNode', hBare⟩ := h.graph.boxed.node hNode
      rw [hNode']
      have hYield : n'.object.process e'.frameScope (e'.graph.inputsOf n') n'.outputs =
          n.object.process e.frameScope (e.graph.inputsOf n) n.outputs := h.yield hBare
      simp only [hYield]
      have hComputed := h.onNode i (f := fun k => { k with
          object := (e.yield e.graph n).state, outputs := (e.yield e.graph n).outputs,
          stamp := e.frame }) fun k k' hk hBare => by
        obtain rfl := Option.some.inj (hNode.symm.trans hk)
        refine Node.bare_print (Node.bare_withObject hBare ?_) _ _
        exact Object.isPlaceholder_process _ _ _ _
      obtain ⟨graph, journal, rfl⟩ := h.rest
      exact (hComputed.withOutput _).log _

theorem compute (h : Alike start start' e e') (order : List Nat) :
    Alike start start' (e.compute order) (e'.compute order) := by
  induction order generalizing e e' with
  | nil => exact h
  | cons i order ih => exact ih (h.processNode i)

omit [CustomKind κ] in
theorem beginFrame (h : Alike start start' e e') :
    e'.beginFrame.1 = e.beginFrame.1 ∧
      Alike start start' e.beginFrame.2 e'.beginFrame.2 := by
  obtain ⟨graph, journal, rfl⟩ := h.rest
  exact ⟨rfl, ⟨graph, journal, rfl⟩, h.graph, h.written, h.waiting.beginFrame.2⟩

end Alike

variable [CustomKind κ]

omit [CustomKind κ] in
/-- Doing one thing after the other, if each is done alike. -/
theorem told_alike {α : Type} {r : Engine κ → Engine κ → Prop} {f : Engine κ → α → Engine κ}
    (tell : Engine κ → α → List (Happening κ)) (l : List α)
    (hStep : ∀ a ∈ l, ∀ e e', r e e' → callsIn (tell e' a) = callsIn (tell e a) ∧
      r (f e a) (f e' a)) :
    ∀ e e', r e e' → callsIn (foldStory f tell l e') = callsIn (foldStory f tell l e) ∧
      r (l.foldl f e) (l.foldl f e') := by
  induction l with
  | nil => exact fun e e' h => ⟨rfl, h⟩
  | cons a l ih =>
      intro e e' h
      obtain ⟨hTold, hStepped⟩ := hStep a List.mem_cons_self e e' h
      obtain ⟨hRest, hEnd⟩ := ih (fun b hb => hStep b (List.mem_cons_of_mem _ hb)) _ _ hStepped
      refine ⟨?_, hEnd⟩
      rw [foldStory, foldStory, callsIn_append, callsIn_append, hTold, hRest]

/-- If what is due in a frame is passive, any frame order says what the frame comes to. -/
theorem render_eq_compute (h : e.Live) (hPassive : e.RunsPassive) :
    (∃ order, e.afterDue.graph.FrameOrder order) ∧ ∀ order, e.afterDue.graph.FrameOrder order →
      e.render = { e.afterDue.silenced.compute order with rendering := false } := by
  have hSound := h.sound.graph.evolves (afterDue_spec hPassive).1.graph
  have hStale := stale_afterDue h.sound.stamps hPassive
  obtain ⟨order, hOrder, -⟩ := foldlM_endpoints (e := e.afterDue.silenced) hSound hStale
    e.afterDue.graph.endpoints [] .nil (by simp) rfl
  refine ⟨⟨order, hOrder⟩, fun order hOrder => ?_⟩
  rw [render_eq_afterDue, ← (pull_eq (e := e.afterDue.silenced) hSound hStale hOrder).2]
  rfl

namespace Alike

/-- An action that sends messages. -/
theorem action (h : Alike start start' e e') (frame : Engine κ → Engine κ)
    (tell : Engine κ → List (Happening κ)) {action : Action}
    (hMessages : ∀ c ∈ action, c.isMessage = true) :
    callsIn (foldStory (Engine.performLogged frame) (fun e c => commandStory frame tell c e)
        action e') =
      callsIn (foldStory (Engine.performLogged frame) (fun e c => commandStory frame tell c e)
        action e) ∧
      Alike start start' (action.foldl (Engine.performLogged frame) e)
        (action.foldl (Engine.performLogged frame) e') := by
  refine told_alike (r := Alike start start') _ action (fun c hc e e' h => ?_) e e' h
  exact ⟨(h.message frame tell (hMessages c hc)).2.2.1, h.performLogged (hMessages c hc)⟩

theorem runWithin (h : Alike start start' e e') (depth : Nat) {action : Action}
    (hMessages : ∀ c ∈ action, c.isMessage = true) :
    callsIn (storyWithin depth action e') = callsIn (storyWithin depth action e) ∧
      Alike start start' (Engine.runWithin depth action e)
        (Engine.runWithin depth action e') := by
  cases depth with
  | zero => exact ⟨rfl, h⟩
  | succ depth => exact h.action _ _ hMessages

/-- What is due in a frame makes the same calls. -/
theorem frameStory (h : Alike start start' e e') :
    callsIn e'.frameStory = callsIn e.frameStory := by
  obtain ⟨hSame, hBegun⟩ := h.beginFrame
  have hDepth : e'.waitingActions = e.waitingActions := by
    obtain ⟨graph, journal, rfl⟩ := h.rest
    rfl
  rw [Engine.frameStory, Engine.frameStory, frameStoryWith, frameStoryWith, hSame, hDepth]
  refine (told_alike (r := Alike start start') _ e.beginFrame.1
    (fun action hAction e₁ e₁' hNow => ?_) _ _ hBegun).1
  exact hNow.runWithin _ (h.waiting.beginFrame.1 action hAction)

theorem afterDue (h : Alike start start' e e') : Alike start start' e.afterDue e'.afterDue := by
  obtain ⟨hSame, hBegun⟩ := h.beginFrame
  rw [Engine.afterDue, Engine.afterDue, hSame]
  refine (told_alike (r := Alike start start') (fun _ _ => []) _
    (fun action hAction e₁ e₁' hNow => ⟨rfl, ?_⟩) _ _ hBegun).2
  exact (hNow.action Engine.render (fun _ => []) (h.waiting.beginFrame.1 action hAction)).2

omit [CustomKind κ] in
theorem silenced (h : Alike start start' e e') :
    Alike start start' e.silenced e'.silenced := by
  obtain ⟨graph, journal, rfl⟩ := h.rest
  exact h.withOutput _

omit [CustomKind κ] in
theorem endFrame (h : Alike start start' e e') :
    Alike start start' { e with rendering := false } { e' with rendering := false } := by
  obtain ⟨graph, journal, rfl⟩ := h.rest
  exact ⟨⟨graph, journal, rfl⟩, h.graph, h.written, h.waiting⟩

/-- **A frame is rendered alike.**  A frame order of the one graph is a frame order of the other,
and computing the boxes in that order comes to what either engine does. -/
theorem render (h : Alike start start' e e') (hLive : e.Live) (hLive' : e'.Live) :
    Alike start start' e.render e'.render := by
  have hPassive : e.RunsPassive := fun action hAction c hc =>
    Command.isPassive_of_isMessage (h.waiting.beginFrame.1 action hAction c hc)
  have hPassive' : e'.RunsPassive := by
    rw [RunsPassive, h.beginFrame.1]
    exact hPassive
  obtain ⟨⟨order, hOrder⟩, hRender⟩ := render_eq_compute hLive hPassive
  obtain ⟨-, hRender'⟩ := render_eq_compute hLive' hPassive'
  rw [hRender order hOrder, hRender' order (h.afterDue.graph.frameOrder hOrder)]
  exact (h.afterDue.silenced.compute order).endFrame

end Alike

/-! ### Playing -/

/-- Engines that run and are alike. -/
structure Twins (start start' : Array (Event κ)) (e e' : Engine κ) : Prop
    extends Alike start start' e e' where
  live : e.Live
  live' : e'.Live

namespace Twins

theorem render (h : Twins start start' e e') : Twins start start' e.render e'.render :=
  ⟨h.toAlike.render h.live h.live', h.live.perform (.skip 1), h.live'.perform (.skip 1)⟩

theorem renderMany (n : Nat) : ∀ {e e' : Engine κ}, Twins start start' e e' →
    (renderMany Engine.render n e').1 = (renderMany Engine.render n e).1 ∧
      callsIn ((nextFrames Engine.render n e').flatMap Engine.frameStory) =
        callsIn ((nextFrames Engine.render n e).flatMap Engine.frameStory) ∧
      Twins start start' (renderMany Engine.render n e).2 (renderMany Engine.render n e').2 := by
  induction n with
  | zero => exact fun h => ⟨rfl, rfl, h⟩
  | succ n ih =>
      intro e e' h
      obtain ⟨hFrames, hCalls, hEnd⟩ := ih h.render
      have hOutput : e'.render.output = e.render.output := by
        obtain ⟨graph, journal, hEq⟩ := h.render.rest
        rw [hEq]
      refine ⟨?_, ?_, hEnd⟩
      · exact congrArg₂ List.cons hOutput hFrames
      · rw [nextFrames, nextFrames, List.flatMap_cons, List.flatMap_cons, callsIn_append,
          callsIn_append, h.frameStory, hCalls]

/-- **A command that sends a message or renders frames goes alike**: the answer is the same, and so
are the calls. -/
theorem perform (h : Twins start start' e e') {c : Command} (hPlayed : c.isPlayed = true) :
    (e'.perform c).1 = (e.perform c).1 ∧ callsIn (e'.story c) = callsIn (e.story c) ∧
      Twins start start' (e.perform c).2 (e'.perform c).2 := by
  cases hMessage : c.isMessage with
  | true =>
      obtain ⟨hSilent, hSilent', hCalls, hAfter⟩ :=
        h.message Engine.render Engine.frameStory hMessage
      exact ⟨hSilent'.trans hSilent.symm, hCalls, hAfter, h.live.perform c, h.live'.perform c⟩
  | false =>
      cases c with
      | render n =>
          obtain ⟨hFrames, hCalls, hEnd⟩ := renderMany n h
          exact ⟨congrArg Reply.frames hFrames, hCalls, hEnd⟩
      | _ => simp_all [Command.isPlayed]

end Twins

/-- The answers to commands, one after the other. -/
def replies : List Command → Engine κ → List (Reply κ)
  | [], _ => []
  | c :: commands, e => (e.perform c).1 :: replies commands (e.perform c).2

/-- An engine after some commands. -/
def performAll (e : Engine κ) (commands : List Command) : Engine κ :=
  commands.foldl (fun e c => (e.perform c).2) e

/-- The calls of message hooks in the course of some commands. -/
def callsOf (e : Engine κ) (commands : List Command) : List Call :=
  callsIn (foldStory (fun e c => (e.perform c).2) story commands e)

/-- Whatever is sent to twins and however many frames they render. -/
theorem Twins.performAll (commands : List Command) (hPlayed : ∀ c ∈ commands, c.isPlayed = true) :
    ∀ {e e' : Engine κ}, Twins start start' e e' →
      replies commands e' = replies commands e ∧ e'.callsOf commands = e.callsOf commands ∧
        Twins start start' (e.performAll commands) (e'.performAll commands) := by
  induction commands with
  | nil => exact fun h => ⟨rfl, rfl, h⟩
  | cons c commands ih =>
      intro e e' h
      obtain ⟨hReply, hCalls, hAfter⟩ := h.perform (hPlayed c List.mem_cons_self)
      obtain ⟨hReplies, hMore, hEnd⟩ :=
        ih (fun d hd => hPlayed d (List.mem_cons_of_mem _ hd)) hAfter
      refine ⟨?_, ?_, hEnd⟩
      · rw [replies, replies, hReply, hReplies]
      · rw [callsOf, callsOf, foldStory, foldStory, callsIn_append, callsIn_append, hCalls]
        exact congrArg _ hMore

end Engine

end Patchbay
