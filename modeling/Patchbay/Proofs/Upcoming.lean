import Patchbay.Proofs.Trace

/-
When what a message starts is heard.

Time is read off in two places.  A box that is computed sees the frame that is being worked
on; a box that a message reaches sees the frame that comes next, which is the same one while
that frame is still being worked on and the one after it otherwise.  What is proved is that
the two agree: the block that a message names begins where the next block begins that is
computed, whether the message comes between frames or from an action within one.

The flag that tells the two cases apart is right at any moment, but the claim is about a
later one, so it is read backwards: `Awaits` goes through a trace from its end and compares
each message with the next box that is computed, and where a trace ends, the frame after it
takes the place of that box.  `Paced` is this together with what a trace leaves behind, and
it composes.  A frame is paced because its actions only speak, all for this frame, and then
its boxes are computed, at least one of them if there is an endpoint.  Without an endpoint
nothing is ever computed, and there is nothing to agree with.

Of the built-in boxes only a ramp remembers when a message came.  `Ramp.asked?` says which
messages start one, and it starts with the block that the message is for.
-/

namespace Patchbay

section Moments

variable {κ : Type}

/-- The frame that is computed next. -/
def Engine.upcoming (e : Engine κ) : Nat :=
  if e.rendering then e.frame else e.frame + 1

/-- The engine in which a box is computed. -/
def Moment.computed? : Moment κ → Option (Engine κ)
  | .computes e _ => some e
  | _ => none

theorem Moment.computed?_eq_some {x : Moment κ} {e : Engine κ} :
    x.computed? = some e ↔ ∃ node, x = .computes e node := by
  cases x with
  | computes d node => simp [computed?]
  | handles d node arrival m => simp [computed?]
  | begins d => simp [computed?]

/-- The frame of the first box that is computed, or else the frame after all. -/
def nextFrame (last : Nat) (moments : List (Moment κ)) : Nat :=
  ((moments.findSome? Moment.computed?).map Engine.frame).getD last

/-- Every message is for the frame of the next box that is computed. -/
def Awaits (last : Nat) : List (Moment κ) → Prop
  | [] => True
  | .handles e _ _ _ :: later => e.upcoming = nextFrame last later ∧ Awaits last later
  | .computes _ _ :: later => Awaits last later
  | .begins _ :: later => Awaits last later

/-- Messages reach boxes, all for one frame, and nothing else happens. -/
def Speaks (frame : Nat) (moments : List (Moment κ)) : Prop :=
  ∀ x ∈ moments, ∃ e node arrival m, x = .handles e node arrival m ∧ e.upcoming = frame

/-- Boxes are computed, all for one frame, and nothing else happens. -/
def Computes (frame : Nat) (moments : List (Moment κ)) : Prop :=
  ∀ x ∈ moments, ∃ e node, x = .computes e node ∧ e.frame = frame

variable {last frame : Nat} {moments moments' : List (Moment κ)}

theorem nextFrame_append : nextFrame last (moments ++ moments') =
    nextFrame (nextFrame last moments') moments := by
  unfold nextFrame
  rw [List.findSome?_append]
  cases moments.findSome? Moment.computed? with
  | none => rfl
  | some e => rfl

/-- What comes later stands in for the frame after all. -/
theorem awaits_append : Awaits last (moments ++ moments') ↔
    Awaits (nextFrame last moments') moments ∧ Awaits last moments' := by
  induction moments with
  | nil => simp [Awaits]
  | cons x moments ih =>
      cases x with
      | handles e node arrival m =>
          simp only [List.cons_append, Awaits, nextFrame_append, ih, and_assoc]
      | computes e node => exact ih
      | begins e => exact ih

/-- A message of such a trace. -/
theorem Awaits.upcoming {told later : List (Moment κ)} {e : Engine κ} {node : Nat}
    {arrival : Arrival} {m : Message}
    (h : Awaits last (told ++ .handles e node arrival m :: later)) :
    e.upcoming = nextFrame last later :=
  (awaits_append.mp h).2.1

theorem Speaks.findSome? (h : Speaks frame moments) :
    moments.findSome? Moment.computed? = none := by
  refine List.findSome?_eq_none_iff.mpr fun x hx => ?_
  obtain ⟨e, node, arrival, m, rfl, -⟩ := h x hx
  rfl

theorem Speaks.nextFrame (h : Speaks frame moments) : nextFrame last moments = last := by
  rw [Patchbay.nextFrame, h.findSome?]
  rfl

theorem Speaks.awaits (h : Speaks frame moments) : Awaits frame moments := by
  induction moments with
  | nil => trivial
  | cons x moments ih =>
      obtain ⟨hFirst, hRest⟩ := List.forall_mem_cons.mp h
      obtain ⟨e, node, arrival, m, rfl, hFrame⟩ := hFirst
      have hLater : Speaks frame moments := hRest
      exact ⟨hFrame.trans hLater.nextFrame.symm, ih hLater⟩

theorem Speaks.append (h : Speaks frame moments) (h' : Speaks frame moments') :
    Speaks frame (moments ++ moments') := by
  intro x hx
  rcases List.mem_append.mp hx with hx | hx
  · exact h x hx
  · exact h' x hx

theorem Computes.nextFrame (h : Computes frame moments) (hSome : moments ≠ []) :
    nextFrame last moments = frame := by
  cases moments with
  | nil => exact absurd rfl hSome
  | cons x moments =>
      obtain ⟨e, node, rfl, hFrame⟩ := h x List.mem_cons_self
      exact hFrame

theorem Computes.awaits (h : Computes frame moments) : Awaits last moments := by
  induction moments with
  | nil => trivial
  | cons x moments ih =>
      obtain ⟨hFirst, hRest⟩ := List.forall_mem_cons.mp h
      obtain ⟨e, node, rfl, -⟩ := hFirst
      exact ih hRest

end Moments

namespace Ramp

/-- How to get to a target in a time: where to, and in how many samples.  A time that is not
positive takes no samples, and there is nothing to move along. -/
def way? (rate : Nat) (target time : Float32) : Option (Float32 × Float) :=
  let length := time.toFloat * Float.ofNat rate / 1000
  if length ≤ 0 then none else some (target, length)

/-- The way that a message asks for: a target and a time, or a target for which there is a time
already. -/
def asked? (rate : Nat) (arrival : Arrival) (m : Message) (s : Ramp) : Option (Float32 × Float) :=
  match arrival with
  | .inlet 0 =>
    match m.elements.mapM Atom.number? with
    | some [target] => s.nextTime.bind (way? rate target)
    | some (target :: time :: _) => way? rate target time
    | _ => none
  | _ => none

/-- What moves, moves from where it is, and from the block on that the message is for. -/
theorem segment_moveTo (scope : MessageScope) (s : Ramp) (target time : Float32) :
    (∀ w, way? scope.settings.sampleRate target time = some w →
      (moveTo scope s target time).segment = .ramp scope.blockStart s.value w.1 w.2) ∧
    (way? scope.settings.sampleRate target time = none →
      (moveTo scope s target time).segment = .hold) := by
  simp only [way?, moveTo]
  split
  · exact ⟨fun w hWay => absurd hWay (Option.some_ne_none w).symm, fun _ => rfl⟩
  · refine ⟨fun w hWay => ?_, fun hNone => absurd hNone (Option.some_ne_none _)⟩
    obtain rfl := Option.some.inj hWay
    rfl

/-- **A message starts exactly the ramps that it asks for.**  Otherwise the box stays on its way, or
stays where it is. -/
theorem segment_onMessage (scope : MessageScope) (arrival : Arrival) (m : Message) (s : Ramp) :
    (∀ w, s.asked? scope.settings.sampleRate arrival m = some w →
      (s.onMessage scope arrival m).1.segment = .ramp scope.blockStart s.value w.1 w.2) ∧
    (s.asked? scope.settings.sampleRate arrival m = none →
      (s.onMessage scope arrival m).1.segment = s.segment ∨
        (s.onMessage scope arrival m).1.segment = .hold) := by
  have hNone : ∀ {w : Float32 × Float} {p : Prop}, none = some w → p := fun h =>
    absurd h (Option.some_ne_none _).symm
  -- Without a target the message can only say that the box should stay.
  have hWord : ∀ r : Ramp × List Reaction, r = (if m.first?.bind Atom.symbol? = some "stop" then
      ({ s with segment := .hold }, []) else (s, [scope.mismatch "float" m])) →
      r.1.segment = s.segment ∨ r.1.segment = .hold := by
    rintro r rfl
    split
    · exact .inr rfl
    · exact .inl rfl
  rcases arrival with (_ | _ | inlet) | _
  · simp only [onMessage, asked?]
    rcases m.elements.mapM Atom.number? with _ | _ | ⟨target, _ | ⟨time, rest⟩⟩
    · exact ⟨fun w h => hNone h, fun _ => hWord _ rfl⟩
    · exact ⟨fun w h => hNone h, fun _ => hWord _ rfl⟩
    · cases s.nextTime with
      | none => exact ⟨fun w h => hNone h, fun _ => .inr rfl⟩
      | some time =>
          obtain ⟨hMoves, hStays⟩ := segment_moveTo scope { s with nextTime := none } target time
          exact ⟨hMoves, fun h => .inr (hStays h)⟩
    · obtain ⟨hMoves, hStays⟩ := segment_moveTo scope s target time
      exact ⟨hMoves, fun h => .inr (hStays h)⟩
  · refine ⟨fun w h => hNone h, fun _ => .inl ?_⟩
    simp only [onMessage, takeNumber]
    split
    · rfl
    · rfl
  · exact ⟨fun w h => hNone h, fun _ => .inl rfl⟩
  · exact ⟨fun w h => hNone h, fun _ => .inl rfl⟩

end Ramp

namespace Engine

variable {κ : Type} [CustomKind κ] {e e' e'' : Engine κ} {moments moments' : List (Moment κ)}

/-! ### Messages take no time -/

/-- The clock of an engine stands still. -/
structure Timeless (e e' : Engine κ) : Prop where
  frame : e'.frame = e.frame
  rendering : e'.rendering = e.rendering

omit [CustomKind κ] in
theorem Timeless.upcoming (h : Timeless e e') : e'.upcoming = e.upcoming := by
  rw [Engine.upcoming, Engine.upcoming, h.frame, h.rendering]

omit [CustomKind κ] in
theorem Timeless.trans (h : Timeless e e') (h' : Timeless e' e'') : Timeless e e'' :=
  ⟨h'.frame.trans h.frame, h'.rendering.trans h.rendering⟩

theorem timeless_touches (h : Chain Touch e e') : Timeless e e' := by
  refine h.keeps (fun d d' hTouch hd => hd.trans ?_) ⟨rfl, rfl⟩
  cases hTouch <;> exact ⟨rfl, rfl⟩

/-- A passive command takes no time. -/
theorem timeless_performWith {render : Engine κ → Engine κ} {c : Command}
    (hPassive : c.isPassive = true) (e : Engine κ) :
    Timeless e (performWith render c e).2 := by
  rcases performWith_passive render hPassive e with ⟨due, commands, rfl⟩ | hTouches
  · exact ⟨rfl, rfl⟩
  · exact timeless_touches hTouches

theorem speaks_deliver (e : Engine κ) (stack : List Pending) :
    Speaks e.upcoming (e.deliverTrace stack) := by
  induction e, stack using deliver.induct with
  | case1 e =>
      rw [deliverTrace]
      exact fun x hx => absurd hx List.not_mem_nil
  | case2 e p rest done ih =>
      rw [deliverTrace]
      refine Speaks.append (fun x hx => ?_) ?_
      · cases p with
        | outlet node outlet m depth => exact absurd hx List.not_mem_nil
        | receiver name m depth => exact absurd hx List.not_mem_nil
        | inlet node arrival m depth =>
            rw [stepTrace] at hx
            split at hx
            · exact ⟨e, node, arrival, m, List.mem_singleton.mp hx, rfl⟩
            · exact absurd hx List.not_mem_nil
      · have hClock := timeless_touches (touches_deliverStep e p)
        rw [← hClock.upcoming]
        exact ih

theorem speaks_commandTrace {render : Engine κ → Engine κ} {tell : Engine κ → List (Moment κ)}
    {c : Command} (hPassive : c.isPassive = true) (e : Engine κ) :
    Speaks e.upcoming (commandTrace render tell c e) := by
  rcases commandTrace_passive hPassive e with hNone | ⟨p, hDeliver⟩
  · rw [hNone]
    exact fun x hx => absurd hx List.not_mem_nil
  · rw [hDeliver]
    exact speaks_deliver e [p]

omit [CustomKind κ] in
/-- Things done one after the other, each of which speaks and takes no time. -/
theorem speaks_foldl {α : Type} (f : Engine κ → α → Engine κ)
    (tell : Engine κ → α → List (Moment κ)) (l : List α)
    (h : ∀ e, ∀ a ∈ l, Speaks e.upcoming (tell e a) ∧ Timeless e (f e a)) : ∀ e : Engine κ,
      Speaks e.upcoming (foldTrace f tell l e) ∧ Timeless e (l.foldl f e) := by
  induction l with
  | nil => exact fun e => ⟨fun x hx => absurd hx List.not_mem_nil, ⟨rfl, rfl⟩⟩
  | cons a l ih =>
      intro e
      obtain ⟨hSpeaks, hClock⟩ := h e a List.mem_cons_self
      obtain ⟨hLater, hRest⟩ := ih (fun e b hb => h e b (List.mem_cons_of_mem _ hb)) (f e a)
      rw [hClock.upcoming] at hLater
      exact ⟨hSpeaks.append hLater, hClock.trans hRest⟩

theorem speaks_traceWithin (depth : Nat) {action : Action}
    (hPassive : ∀ c ∈ action, c.isPassive = true) (e : Engine κ) :
    Speaks e.upcoming (traceWithin depth action e) ∧ Timeless e (runWithin depth action e) := by
  cases depth with
  | zero => exact ⟨fun x hx => absurd hx List.not_mem_nil, ⟨rfl, rfl⟩⟩
  | succ depth =>
      refine speaks_foldl _ _ action (fun e c hc => ?_) e
      obtain ⟨journal, hEq⟩ := performLogged_eq (renderWith (runWithin depth)) e c
      rw [hEq]
      refine ⟨speaks_commandTrace (hPassive c hc) e, ?_⟩
      exact (timeless_performWith (hPassive c hc) e).trans ⟨rfl, rfl⟩

/-- What a message box is told to say reaches the box behind it first. -/
theorem trace_emit {node outlet target inlet : Nat} (hNode : nodeIndex node = node)
    (hTarget : e.graph.messageTarget? node outlet = some (target, inlet))
    (hIn : target < e.graph.size) (m : Message) :
    ∃ heard, e.trace (.emit node outlet m) = .handles e target (.inlet inlet) m :: heard ∧
      Speaks e.upcoming heard := by
  have hTrace : e.trace (.emit node outlet m) = e.deliverTrace [.outlet node outlet m 0] := by
    show e.deliverTrace [.outlet (nodeIndex node) outlet m 0] = _
    rw [hNode]
  have hStep : e.deliverStep (.outlet node outlet m 0) =
      ([.inlet target (.inlet inlet) m 0], e) := by
    simp only [deliverStep, hTarget]
  have hHandles : e.stepTrace (.inlet target (.inlet inlet) m 0) =
      [.handles e target (.inlet inlet) m] :=
    if_pos ⟨by decide, hIn⟩
  have hClock := timeless_touches (touches_deliverStep e (.inlet target (.inlet inlet) m 0))
  rw [hTrace, deliverTrace, hStep, List.singleton_append, deliverTrace, hHandles]
  refine ⟨_, rfl, ?_⟩
  rw [← hClock.upcoming]
  exact speaks_deliver _ _

/-! ### Computing takes no time, either -/

theorem computes_computeTrace (order : List Nat) : ∀ e : Engine κ,
    Computes e.frame (computeTrace order e) := by
  induction order with
  | nil => exact fun e x hx => absurd hx List.not_mem_nil
  | cons n order ih =>
      intro e x hx
      rcases List.mem_cons.mp hx with rfl | hx
      · exact ⟨e, n, rfl, rfl⟩
      · have hFrame : (e.processNode n).frame = e.frame := (Work.process e n).frame
        exact hFrame ▸ ih (e.processNode n) x hx

/-- If there is an endpoint, something is computed. -/
theorem finishTrace_ne_nil (h : e.Pullable) (hEndpoint : e.graph.endpoints ≠ []) :
    finishTrace e ≠ [] := by
  obtain ⟨p, rest, hEndpoints⟩ := List.exists_cons_of_ne_nil hEndpoint
  have hIn : p < e.graph.size := h.inRange p (by rw [hEndpoints]; exact List.mem_cons_self)
  obtain ⟨bound, hBound⟩ : ∃ bound, e.graph.size = bound + 1 := ⟨e.graph.size - 1, by omega⟩
  have hPulled : pulled e.silenced.graph.size e.silenced p ≠ [] := by
    show pulled e.graph.size e.silenced p ≠ []
    rw [hBound, pulled]
    simp
  rw [finishTrace, hEndpoints, listAlong]
  cases hOrder : pulled e.silenced.graph.size e.silenced p with
  | nil => exact absurd hOrder hPulled
  | cons n order => exact List.cons_ne_nil _ _

/-! ### Traces that keep the pace -/

/-- Every message is for the frame of the next box that is computed, and if no box is computed after
it, for the frame that is still to come. -/
structure Paced (e : Engine κ) (moments : List (Moment κ)) (e' : Engine κ) : Prop where
  changes : Chain Change e e'
  rests : e'.rendering = false
  /-- Without endpoints nothing is computed. -/
  idle : e.graph.endpoints = [] → ∀ x ∈ moments, x.computed? = none
  awaits : e.graph.endpoints ≠ [] → Awaits (e'.frame + 1) moments
  /-- The next box that is computed is computed for the next frame. -/
  next : e.graph.endpoints ≠ [] → nextFrame (e'.frame + 1) moments = e.frame + 1

theorem Paced.trans (h : Paced e moments e') (h' : Paced e' moments' e'') :
    Paced e (moments ++ moments') e'' := by
  have hEndpoints : e'.graph.endpoints = e.graph.endpoints :=
    (steady_changes h.changes).graph.endpoints
  refine ⟨h.changes.trans h'.changes, h'.rests, fun hNone x hx => ?_, fun hSome => ?_,
    fun hSome => ?_⟩
  · rcases List.mem_append.mp hx with hx | hx
    · exact h.idle hNone x hx
    · exact h'.idle (hEndpoints.trans hNone) x hx
  · have hLater : e'.graph.endpoints ≠ [] := hEndpoints ▸ hSome
    refine awaits_append.mpr ⟨?_, h'.awaits hLater⟩
    rw [h'.next hLater]
    exact h.awaits hSome
  · rw [nextFrame_append, h'.next (hEndpoints ▸ hSome)]
    exact h.next hSome

/-- Messages between frames. -/
theorem Paced.of_speaks (hChanges : Chain Change e e') (hRests : e.rendering = false)
    (hClock : Timeless e e') (hSpeaks : Speaks e.upcoming moments) : Paced e moments e' := by
  have hUpcoming : e.upcoming = e'.frame + 1 := by
    rw [upcoming, hRests, hClock.frame]
    rfl
  refine ⟨hChanges, hClock.rendering.trans hRests, fun _ x hx => ?_, fun _ => ?_, fun _ => ?_⟩
  · obtain ⟨d, node, arrival, m, rfl, -⟩ := hSpeaks x hx
    rfl
  · rw [← hUpcoming]
    exact hSpeaks.awaits
  · rw [hSpeaks.nextFrame, hClock.frame]

theorem paced_drive (hRests : e.rendering = false) (state : State) (overflow : Array Float32)
    (sink : Option Sink) (journal : Array (Event κ)) :
    Paced e [] { e with state, overflow, sink, journal } := by
  refine .of_speaks ?_ hRests ⟨rfl, rfl⟩ fun x hx => absurd hx List.not_mem_nil
  exact changes_of_works (chain_of_touches (fun _ _ hWork => hWork) (touches_drive e _ _ _ _))

omit [CustomKind κ] in
/-- A frame is passive if everything that waits is. -/
theorem runsPassive_of_waiting
    (h : ∀ action ∈ e.agenda.actions, ∀ c ∈ action, c.isPassive = true) : e.RunsPassive := by
  have hLeft := Agenda.takeDue_actions e.agenda (e.settings.frameTime (e.frame + 1))
  exact fun action hAction => h action (hLeft ▸ List.mem_append_left _ hAction)

/-- A frame of passive actions: they only speak, all for this frame, and then the output is
computed. -/
theorem frameTrace_passive (hPassive : e.RunsPassive) :
    ∃ due d, e.frameTrace = .begins e :: (due ++ finishTrace d) ∧ e.render = d.finishFrame ∧
      Chain Change e d ∧ Speaks (e.frame + 1) due ∧ Computes (e.frame + 1) (finishTrace d) := by
  obtain ⟨hSpeaks, hClock⟩ := speaks_foldl
    (fun d action => runWithin e.waitingActions action d)
    (fun d action => traceWithin e.waitingActions action d) e.beginFrame.1
    (fun d action hAction => speaks_traceWithin _ (hPassive action hAction) d) e.beginFrame.2
  refine ⟨_, _, rfl, rfl, ?_, hSpeaks, ?_⟩
  · refine (Relation.ReflTransGen.single (.beginFrame e)).trans ?_
    exact foldl_chain _ (fun d action _ => changes_runWithin _ action d) _
  · have hFrame := hClock.frame
    rw [show e.beginFrame.2.frame = e.frame + 1 from rfl] at hFrame
    rw [← hFrame]
    exact computes_computeTrace _ _

/-- Within a frame of passive actions no other begins. -/
theorem begins_frameTrace (hPassive : e.RunsPassive) {b : Engine κ}
    (hb : .begins b ∈ e.frameTrace) : b = e := by
  obtain ⟨due, d, hTrace, -, -, hSpeaks, hComputes⟩ := frameTrace_passive hPassive
  rw [hTrace, List.mem_cons, List.mem_append] at hb
  rcases hb with hb | hb | hb
  · cases hb
    rfl
  · obtain ⟨d', node, arrival, m, hHandles, -⟩ := hSpeaks _ hb
    cases hHandles
  · obtain ⟨d', node, hComputed, -⟩ := hComputes _ hb
    cases hComputed

/-- **A frame of passive actions keeps the pace.** -/
theorem paced_frame (h : e.Pullable) (hPassive : e.RunsPassive) :
    Paced e e.frameTrace e.render := by
  obtain ⟨due, d, hTrace, hRender, hChanges, hSpeaks, hComputes⟩ := frameTrace_passive hPassive
  rw [hTrace, hRender]
  have hEndpoints : d.graph.endpoints = e.graph.endpoints :=
    (steady_changes hChanges).graph.endpoints
  have hPullable : d.Pullable := h.changes hChanges
  have hNext : ∀ last, e.graph.endpoints ≠ [] → nextFrame last (finishTrace d) = e.frame + 1 :=
    fun last hSome => hComputes.nextFrame (finishTrace_ne_nil hPullable (hEndpoints ▸ hSome))
  refine ⟨hChanges.trans (changes_of_works (works_finishFrame d)), rfl, fun hNone x hx => ?_,
    fun hSome => ?_, fun hSome => ?_⟩
  · rw [List.mem_cons, List.mem_append] at hx
    rcases hx with rfl | hx | hx
    · rfl
    · obtain ⟨d', node, arrival, m, rfl, -⟩ := hSpeaks x hx
      rfl
    · rw [finishTrace, hEndpoints, hNone] at hx
      exact absurd hx List.not_mem_nil
  · refine awaits_append.mpr ⟨?_, hComputes.awaits⟩
    rw [hNext _ hSome]
    exact hSpeaks.awaits
  · show nextFrame _ (due ++ finishTrace d) = _
    rw [nextFrame_append, hSpeaks.nextFrame]
    exact hNext _ hSome

/-- A passive frame of an engine with an endpoint computes something. -/
theorem computes_frameTrace (h : e.Pullable) (hPassive : e.RunsPassive)
    (hEndpoint : e.graph.endpoints ≠ []) :
    ∃ next, e.frameTrace.findSome? Moment.computed? = some next := by
  obtain ⟨due, d, hTrace, -, hChanges, -, hComputes⟩ := frameTrace_passive hPassive
  have hSome : finishTrace d ≠ [] := by
    refine finishTrace_ne_nil (h.changes hChanges) ?_
    rwa [(steady_changes hChanges).graph.endpoints]
  refine Option.ne_none_iff_exists'.mp fun hNone => ?_
  obtain ⟨x, rest, hFinish⟩ := List.exists_cons_of_ne_nil hSome
  obtain ⟨d', node, rfl, -⟩ := hComputes x (by rw [hFinish]; exact List.mem_cons_self)
  rw [List.findSome?_eq_none_iff] at hNone
  refine absurd (hNone (.computes d' node) ?_) (Option.some_ne_none d')
  rw [hTrace, hFinish]
  simp

/-! ### Sessions -/

/-- Frames thread through drives if their actions are passive. -/
theorem threads_paced : Threads render fun (e : Engine κ) frames e' =>
    e.Pullable → e.rendering = false → (∀ b ∈ frames, b.RunsPassive) →
      Paced e (frames.flatMap frameTrace) e' := by
  refine ⟨fun e state overflow sink journal _ hRests _ => paced_drive hRests _ _ _ _,
    fun {e e' e'' frames frames'} h h' he hRests hPassive => ?_, fun e he _ hPassive => ?_⟩
  · have hFirst := h he hRests fun b hb => hPassive b (List.mem_append_left _ hb)
    rw [List.flatMap_append]
    exact hFirst.trans (h' (he.changes hFirst.changes) hFirst.rests fun b hb =>
      hPassive b (List.mem_append_right _ hb))
  · rw [List.flatMap_singleton]
    exact paced_frame he (hPassive e (List.mem_singleton_self e))

/-- Every command keeps the pace but one that computes a single node. -/
theorem paced_perform (h : e.Pullable) (hRests : e.rendering = false) {c : Command}
    (hTicks : c.ticks = false) (hPassive : ∀ b, .begins b ∈ e.trace c → b.RunsPassive) :
    Paced e (e.trace c) (e.perform c).2 := by
  cases hKind : c.isPassive with
  | true =>
      exact .of_speaks (changes_perform e c) hRests (timeless_performWith hKind e)
        (speaks_commandTrace hKind e)
  | false =>
      have hTrace : commandTrace render frameTrace c e =
          (commandFrames render c e).flatMap frameTrace := commandTrace_frames hKind hTicks e
      rw [trace, hTrace] at hPassive ⊢
      refine threads_paced.performWith hKind hTicks e h hRests fun b hb => hPassive b ?_
      exact List.mem_flatMap.mpr ⟨b, hb, List.mem_cons_self⟩

theorem Session.paced {commands : List Command} (hSession : Session e commands moments e')
    (h : e.Pullable) (hRests : e.rendering = false) (hTicks : ∀ c ∈ commands, c.ticks = false)
    (hPassive : ∀ b, .begins b ∈ moments → b.RunsPassive) : Paced e moments e' := by
  induction hSession with
  | start => exact paced_drive hRests _ _ _ _
  | perform _ c ih =>
      have hFirst := ih (fun d hd => hTicks d (List.mem_append_left _ hd))
        fun b hb => hPassive b (List.mem_append_left _ hb)
      exact hFirst.trans (paced_perform (h.changes hFirst.changes) hFirst.rests
        (hTicks c (List.mem_append_right _ (List.mem_singleton_self c)))
        fun b hb => hPassive b (List.mem_append_right _ hb))
  | @host _ _ d _ sink journal ih =>
      have hFirst := ih hTicks hPassive
      have hBoth := hFirst.trans (paced_drive hFirst.rests d.state d.overflow sink journal)
      rwa [List.append_nil] at hBoth

/-! ### Between frames no frame is worked on -/

theorem Work.rests (h : Work e e') (hRests : e.rendering = false) : e'.rendering = false := by
  cases h with
  | touch h =>
      cases h with
      | _ => exact hRests
  | process node =>
      unfold processNode
      split
      · exact hRests
      · exact hRests
  | silence => exact hRests
  | endFrame => rfl

/-- Whatever is done, a frame that it begins is ended by it. -/
theorem rests_perform (hRests : e.rendering = false) (c : Command) :
    (e.perform c).2.rendering = false := by
  have hChain : Chain (fun d d' : Engine κ => d.rendering = false → d'.rendering = false) e
      (e.perform c).2 :=
    performWith_chain (fun _ _ hWork => hWork.rests) (fun d => .single fun _ => rfl) c e
      fun _ _ _ hd => hd
  exact hChain.keeps (p := fun d => d.rendering = false) (fun _ _ hStep hd => hStep hd) hRests

theorem Run.rests {story : List (Happening κ)} (h : Run e story e')
    (hRests : e.rendering = false) : e'.rendering = false := by
  induction h with
  | start => exact hRests
  | perform _ c ih => exact rests_perform ih c
  | host _ sink journal ih => exact ih

/-- Loading begins no frame. -/
theorem rests_load {source : String} (hLoad : e.load source = (.ok (), e')) :
    e'.rendering = e.rendering := by
  obtain ⟨resolved, entry, -, -, rfl⟩ := load_ok hLoad
  obtain ⟨_, _, _, hBuild⟩ := engine_build e (Patch.read source)
  obtain ⟨_, _, _, _, hInit⟩ := engine_initNodes (e.resolvedBy source resolved)
  rw [hInit, resolvedBy, hBuild]
  rfl

/-! ### The two clocks -/

/-- What handling a message leaves of a box. -/
theorem object_handle {node : Nat} {n : Node κ} (hNode : e.graph.nodes[node]? = some n)
    (arrival : Arrival) (m : Message) :
    ∃ n', (e.handle node arrival m).2.graph.nodes[node]? = some n' ∧
      n'.object = (n.object.onMessage (e.messageScope node n.kind) arrival m).1 := by
  unfold handle
  rw [hNode]
  cases arrival with
  | external =>
      refine ⟨{ n with object := _ }, ?_, rfl⟩
      show (e.graph.modifyNode node _).nodes[node]? = _
      rw [Graph.getElem?_modifyNode, if_pos rfl, hNode]
      rfl
  | inlet inlet =>
      refine ⟨{ n with inlets := n.inlets.modify inlet (·.observed m), object := _ }, ?_, rfl⟩
      show ((e.graph.observe node inlet m).modifyNode node _).nodes[node]? = _
      rw [Graph.getElem?_modifyNode, if_pos rfl, Graph.getElem?_observe hNode]
      rfl

/-- What a message says is upcoming is what is computed next, if anything is computed after it. -/
theorem Session.upcoming {commands : List Command} {told later : List (Moment κ)}
    {d next : Engine κ} {node : Nat} {arrival : Arrival} {m : Message}
    (hSession : Session e commands moments e') (h : e.Pullable) (hRests : e.rendering = false)
    (hTicks : ∀ c ∈ commands, c.ticks = false)
    (hPassive : ∀ b, .begins b ∈ moments → b.RunsPassive)
    (hSplit : moments = told ++ .handles d node arrival m :: later)
    (hNext : later.findSome? Moment.computed? = some next) : d.upcoming = next.frame := by
  have hPaced := hSession.paced h hRests hTicks hPassive
  have hSome : e.graph.endpoints ≠ [] := by
    intro hNone
    obtain ⟨x, hx, hComputed⟩ := List.exists_of_findSome?_eq_some hNext
    have hMem : x ∈ moments := by
      rw [hSplit]
      exact List.mem_append_right _ (List.mem_cons_of_mem _ hx)
    rw [hPaced.idle hNone x hMem] at hComputed
    exact absurd hComputed (Option.some_ne_none next).symm
  have hAwaits := hPaced.awaits hSome
  rw [hSplit] at hAwaits
  rw [hAwaits.upcoming, nextFrame, hNext]
  rfl

/-- The settings never change. -/
theorem Session.settings {commands : List Command} (hSession : Session e commands moments e')
    (h : e.Pullable) {x : Moment κ} (hx : x ∈ moments) : x.engine.settings = e.settings :=
  (steady_changes ((hSession.course h).moment hx).1).settings

/-- **A message is for the block that is computed next.**  The block that begins where a message
says is the one of the next box that is computed.  A ramp that the message asks for begins there, at
the value that the box has, and no other ramp begins. -/
theorem message_meets_next_block {settings : Settings} {registry : Registry κ}
    {before : List (Happening κ)} {e₀ e₁ e : Engine κ} {source : String}
    {commands : List Command} {moments told later : List (Moment κ)} {d next : Engine κ}
    {node : Nat} {arrival : Arrival} {m : Message}
    (hBefore : Run (.new settings registry) before e₀) (hLoad : e₀.load source = (.ok (), e₁))
    (hSession : Session e₁ commands moments e) (hTicks : ∀ c ∈ commands, c.ticks = false)
    (hPassive : ∀ b, .begins b ∈ moments → b.RunsPassive)
    (hSplit : moments = told ++ .handles d node arrival m :: later)
    (hNext : later.findSome? Moment.computed? = some next) :
    (∀ kind, (d.messageScope node kind).blockStart = next.frameScope.blockStart) ∧
      ∀ n s, d.graph.nodes[node]? = some n → n.object = .ramp s →
        ∃ n' s', (d.handle node arrival m).2.graph.nodes[node]? = some n' ∧
          n'.object = .ramp s' ∧
          (∀ w, s.asked? d.settings.sampleRate arrival m = some w →
            s'.segment = .ramp next.frameScope.blockStart s.value w.1 w.2) ∧
          (s.asked? d.settings.sampleRate arrival m = none →
            s'.segment = s.segment ∨ s'.segment = .hold) := by
  have hPullable : e₁.Pullable := pullable_load hBefore hLoad
  have hRests : e₁.rendering = false := (rests_load hLoad).trans (hBefore.rests rfl)
  have hUpcoming : d.upcoming = next.frame :=
    hSession.upcoming hPullable hRests hTicks hPassive hSplit hNext
  have hHere : d.settings = e₁.settings := by
    refine hSession.settings hPullable (x := .handles d node arrival m) ?_
    rw [hSplit]
    exact List.mem_append_right _ List.mem_cons_self
  have hThere : next.settings = e₁.settings := by
    obtain ⟨x, hx, hComputed⟩ := List.exists_of_findSome?_eq_some hNext
    obtain ⟨k, rfl⟩ := Moment.computed?_eq_some.mp hComputed
    refine hSession.settings hPullable (x := .computes next k) ?_
    rw [hSplit]
    exact List.mem_append_right _ (List.mem_cons_of_mem _ hx)
  have hStart : ∀ kind, (d.messageScope node kind).blockStart = next.frameScope.blockStart := by
    intro kind
    show d.upcoming * d.settings.bufferSize = next.frame * next.settings.bufferSize
    rw [hUpcoming, hHere, hThere]
  refine ⟨hStart, fun n s hNode hRamp => ?_⟩
  obtain ⟨n', hAfter, hObject⟩ := object_handle hNode arrival m
  rw [hRamp] at hObject
  refine ⟨n', _, hAfter, hObject, ?_⟩
  rw [← hStart n.kind]
  exact Ramp.segment_onMessage (d.messageScope node n.kind) arrival m s

/-- A message box that feeds a ramp, and an output that the ramp feeds. -/
def glidePatch : String :=
  "#X msg 0 0 1 10;\n#X obj 0 0 line~;\n#X obj 0 0 dac~;\n" ++
    "#X connect 0 0 1 0;\n#X connect 1 0 2 0;\n"

def glide : Engine Empty :=
  loadedFrom .standard .builtin glidePatch

theorem load_glide :
    (Engine.new .standard .builtin).load glidePatch = (.ok (), glide) := by
  refine load_of_ranked id (by decide +kernel) ?_
  decide +kernel

/-- The message box feeds the ramp, nothing waits, and there is an output. -/
theorem glide_wired : glide.graph.messageTarget? 0 0 = some (1, 0) ∧ 1 < glide.graph.size ∧
    glide.agenda.slots.isEmpty = true ∧ glide.graph.endpoints = [2] := by
  decide +kernel

def rise : Message := ⟨[.number 1, .number 10]⟩

theorem message_meets_next_block_glide :
    ∃ (e : Engine Empty) (moments later : List (Moment Empty)) (next : Engine Empty),
      Run (.new .standard .builtin) [] (Engine.new .standard .builtin : Engine Empty) ∧
      (Engine.new .standard .builtin).load glidePatch = (.ok (), glide) ∧
      Session glide [.emit 0 0 rise, .render 1] moments e ∧
      (∀ b, .begins b ∈ moments → b.RunsPassive) ∧
      moments = [] ++ .handles glide 1 (.inlet 0) rise :: later ∧
      later.findSome? Moment.computed? = some next ∧
      (∃ n, glide.graph.nodes[1]? = some n ∧ n.object = .ramp .new) ∧
      ∀ kind, (glide.messageScope 1 kind).blockStart = next.frameScope.blockStart := by
  have hSession := (Session.start (e := glide)).perform (.emit 0 0 rise) |>.perform (.render 1)
  have hPullable : glide.Pullable := pullable_load .start load_glide
  obtain ⟨hTarget, hIn, hIdle, hEndpoints⟩ := glide_wired
  obtain ⟨heard, hHeard, hSpeaks⟩ := trace_emit (e := glide) rfl hTarget hIn rise
  have hTouches : Chain Touch glide (glide.perform (.emit 0 0 rise)).2 := touches_deliver glide _
  rw [hHeard] at hSession
  generalize (glide.perform (.emit 0 0 rise)).2 = told at hSession hTouches
  have hChanges : Chain Change glide told :=
    changes_of_works (chain_of_touches (fun _ _ hWork => hWork) hTouches)
  have hFrame : told.trace (.render 1) = told.frameTrace := List.append_nil _
  simp only [hFrame, List.nil_append, List.cons_append] at hSession
  have hPassive : told.RunsPassive := by
    have hAgenda : told.agenda = glide.agenda :=
      hTouches.keeps (p := fun d => d.agenda = glide.agenda)
        (fun _ _ hTouch hd => (Work.touch hTouch).agenda.trans hd) rfl
    refine runsPassive_of_waiting fun action hAction => ?_
    rw [hAgenda, Agenda.actions, List.isEmpty_iff.mp hIdle] at hAction
    exact absurd hAction List.not_mem_nil
  have hBegins : ∀ b, .begins b ∈ .handles glide 1 (.inlet 0) rise :: (heard ++ told.frameTrace) →
      b.RunsPassive := by
    intro b hb
    rw [List.mem_cons, List.mem_append] at hb
    rcases hb with hb | hb | hb
    · cases hb
    · obtain ⟨d, node, arrival, m, hHandles, -⟩ := hSpeaks _ hb
      cases hHandles
    · rw [begins_frameTrace hPassive hb]
      exact hPassive
  obtain ⟨next, hNext⟩ := computes_frameTrace (hPullable.changes hChanges) hPassive (by
    rw [(steady_changes hChanges).graph.endpoints, hEndpoints]
    decide)
  have hLater : (heard ++ told.frameTrace).findSome? Moment.computed? = some next := by
    rw [List.findSome?_append, hSpeaks.findSome?, hNext]
    rfl
  have hSplit : Moment.handles glide 1 (.inlet 0) rise :: (heard ++ told.frameTrace) =
      [] ++ .handles glide 1 (.inlet 0) rise :: (heard ++ told.frameTrace) := rfl
  exact ⟨_, _, _, next, .start, load_glide, hSession, hBegins, hSplit, hLater, ⟨_, rfl, rfl⟩,
    (message_meets_next_block .start load_glide hSession (by decide) hBegins hSplit hLater).1⟩

end Engine

end Patchbay
