import Patchbay.Proofs.Delivery
import Patchbay.Proofs.Playback

/-
What happens while an engine is used.

An engine shows little of what goes on inside it.  A story tells the rest, in order:
which message hooks were called, which actions were put on the agenda, and which frames
began.  It is told beside the definitions that run, by asking them at each turn what they
are about to do, and for that the frames that a command renders are listed by the engines
that they start from.

`Tale` is what a story means.  Between two things that it tells an engine may compute
boxes, note something or move its leftover samples, but no message is handled, no time
passes and nothing is put on the agenda.  So whatever is to be said about a whole run,
there are four cases: one of these `Calm` changes, a call, an action that is scheduled,
and a frame that begins.
-/

namespace Patchbay

inductive Happening (κ : Type) where
  /-- A message hook was called. -/
  | called (call : Call)
  /-- An action was put on the agenda. -/
  | scheduled (due : Float) (action : Action)
  /-- A frame began, in this engine. -/
  | began (before : Engine κ)

namespace Engine

variable {κ : Type} [CustomKind κ]

/-! ### Telling -/

/-- The engines that the frames of a drive start from. -/
def driveFrames (render : Engine κ → Engine κ) : Nat → Engine κ → List (Engine κ)
  | 0, _ => []
  | budget + 1, e =>
    if e.askSink.1 then
      (if e.askSink.2.overflow.isEmpty then [e.askSink.2] else []) ++
        driveFrames render budget (driveRound render e.askSink.2).2
    else []

/-- The engines that the frames of a `write` start from. -/
def writeFrames (render : Engine κ → Engine κ) (e : Engine κ) : List (Engine κ) :=
  if e.state ≠ .running then []
  else if e.hasSink then driveFrames render e.settings.maxWritesPerDrive e
  else []

/-- The engines that the next `n` frames start from. -/
def nextFrames (render : Engine κ → Engine κ) : Nat → Engine κ → List (Engine κ)
  | 0, _ => []
  | n + 1, e => e :: nextFrames render n (render e)

/-- The engines that the frames of a command start from. -/
def commandFrames (render : Engine κ → Engine κ) (c : Command) (e : Engine κ) :
    List (Engine κ) :=
  match c with
  | .render n => nextFrames render n e
  | .skip n => nextFrames render n e
  | .play =>
    if e.state = .running then []
    else writeFrames render ({ e with state := .running }.log [.info "Starting audio."])
  | .write => writeFrames render e
  | _ => []

/-- What a command brings about, given what a frame does and what it brings about. -/
def commandStory (render : Engine κ → Engine κ) (tell : Engine κ → List (Happening κ))
    (c : Command) (e : Engine κ) : List (Happening κ) :=
  match c with
  | .send name m => (e.cascade (.receiver name m 0)).calls.map .called
  | .emit node outlet m => (e.cascade (.outlet (nodeIndex node) outlet m 0)).calls.map .called
  | .schedule due action => [.scheduled due action]
  | c => (commandFrames render c e).flatMap tell

/-- What comes about when one thing is done after the other. -/
def foldStory {α : Type} (f : Engine κ → α → Engine κ)
    (tell : Engine κ → α → List (Happening κ)) : List α → Engine κ → List (Happening κ)
  | [], _ => []
  | a :: l, e => tell e a ++ foldStory f tell l (f e a)

/-- What a frame brings about: it begins, and the actions that are due run. -/
def frameStoryWith (run : Action → Engine κ → Engine κ)
    (tell : Action → Engine κ → List (Happening κ)) (e : Engine κ) : List (Happening κ) :=
  .began e ::
    foldStory (fun e action => run action e) (fun e action => tell action e)
      e.beginFrame.1 e.beginFrame.2

/-- What an action brings about, nested at most `depth` deep. -/
def storyWithin : Nat → Action → Engine κ → List (Happening κ)
  | 0, _, _ => []
  | depth + 1, action, e =>
    foldStory (performLogged (renderWith (runWithin depth)))
      (fun e c => commandStory (renderWith (runWithin depth))
        (frameStoryWith (runWithin depth) (storyWithin depth)) c e) action e

/-- What rendering a frame brings about. -/
def frameStory (e : Engine κ) : List (Happening κ) :=
  frameStoryWith (runWithin e.waitingActions) (storyWithin e.waitingActions) e

/-- What a command brings about. -/
def story (e : Engine κ) (c : Command) : List (Happening κ) :=
  commandStory render frameStory c e

/-! ### What a story means -/

/-- The changes that no story tells of. -/
inductive Calm : Engine κ → Engine κ → Prop
  | note (e : Engine κ) (journal : Array (Event κ)) : Calm e { e with journal }
  | drive (e : Engine κ) (state : State) (overflow : Array Float32) (sink : Option Sink) :
      Calm e { e with state, overflow, sink }
  | process (e : Engine κ) (node : Nat) : Calm e (e.processNode node)
  | silence (e : Engine κ) : Calm e { e with output := e.output.map fun _ => 0 }
  | endFrame (e : Engine κ) : Calm e { e with rendering := false }

/-- One change, with what a story tells of it. -/
inductive Beat : Engine κ → List (Happening κ) → Engine κ → Prop
  | calm {e e' : Engine κ} (h : Calm e e') : Beat e [] e'
  | call (e : Engine κ) (node : Nat) (arrival : Arrival) (m : Message)
      (hNode : node < e.graph.size) :
      Beat e [.called ⟨node, arrival, m⟩] (e.handle node arrival m).2
  | schedule (e : Engine κ) (due : Float) (action : Action) :
      Beat e [.scheduled due action] (e.schedule due action)
  | beginFrame (e : Engine κ) : Beat e [.began e] e.beginFrame.2

/-- How a story leads from one engine to another. -/
inductive Tale (e : Engine κ) : List (Happening κ) → Engine κ → Prop
  | nil : Tale e [] e
  | snoc {story told : List (Happening κ)} {e' e'' : Engine κ} (h : Tale e story e')
      (hBeat : Beat e' told e'') : Tale e (story ++ told) e''

namespace Tale

variable {e e' e'' : Engine κ} {story story' : List (Happening κ)}

theorem beat (h : Beat e story e') : Tale e story e' :=
  .snoc .nil h

theorem trans (h : Tale e story e') (h' : Tale e' story' e'') : Tale e (story ++ story') e'' := by
  induction h' with
  | nil => rwa [List.append_nil]
  | snoc _ hBeat ih =>
      rw [← List.append_assoc]
      exact ih.snoc hBeat

/-- Calm changes first. -/
theorem after_calm (h : Tale e [] e') (h' : Tale e' story e'') : Tale e story e'' :=
  h.trans h'

/-- Calm changes last. -/
theorem calm (h : Tale e story e') (h' : Tale e' [] e'') : Tale e story e'' := by
  have hBoth := h.trans h'
  rwa [List.append_nil] at hBoth

/-- What every change keeps, a tale keeps. -/
theorem keeps {p : Engine κ → Prop}
    (hBeat : ∀ e told e', Beat e told e' → p e → p e') (h : Tale e story e') (he : p e) : p e' := by
  induction h with
  | nil => exact he
  | snoc _ hLast ih => exact hBeat _ _ _ hLast ih

/-- A frame that is told of began in the engine that the story had led to. -/
theorem of_began {place : Nat} {before : Engine κ} (h : Tale e story e')
    (hBegan : story[place]? = some (.began before)) : Tale e (story.take place) before := by
  induction h with
  | nil => simp at hBegan
  | @snoc story told e' e'' hTale hBeat ih =>
      rcases Nat.lt_or_ge place story.length with hLt | hGe
      · rw [List.getElem?_append_left hLt] at hBegan
        rw [List.take_append_of_le_length (Nat.le_of_lt hLt)]
        exact ih hBegan
      · rw [List.getElem?_append_right hGe] at hBegan
        cases hBeat with
        | calm => simp at hBegan
        | call => simp [List.getElem?_singleton] at hBegan
        | schedule => simp [List.getElem?_singleton] at hBegan
        | beginFrame =>
            obtain ⟨hPlace, rfl⟩ : place - story.length = 0 ∧ e' = before := by
              simpa [List.getElem?_singleton] using hBegan
            rw [List.take_left' (Nat.le_antisymm (Nat.le_of_sub_eq_zero hPlace) hGe).symm]
            exact hTale

end Tale

/-! ### The small changes behind a story -/

theorem Calm.work {e e' : Engine κ} (h : Calm e e') : Work e e' := by
  cases h with
  | note journal => exact .touch (.note e journal)
  | drive state overflow sink => exact .touch (.drive e state overflow sink)
  | process node => exact .process e node
  | silence => exact .silence e
  | endFrame => exact .endFrame e

theorem Beat.changes {e e' : Engine κ} {told : List (Happening κ)} (h : Beat e told e') :
    Chain Change e e' := by
  cases h with
  | calm h => exact .single (.work h.work)
  | call node arrival m hNode =>
      exact changes_of_works (chain_of_touches (fun _ _ hWork => hWork)
        (touches_handle e node arrival m))
  | schedule due action => exact .single (.schedule e due action)
  | beginFrame => exact .single (.beginFrame e)

theorem Tale.changes {e e' : Engine κ} {story : List (Happening κ)} (h : Tale e story e') :
    Chain Change e e' := by
  induction h with
  | nil => exact .refl
  | snoc _ hBeat ih => exact ih.trans hBeat.changes

/-! ### Parts of a story -/

theorem tale_foldl {α : Type} {f : Engine κ → α → Engine κ}
    {tell : Engine κ → α → List (Happening κ)} (l : List α)
    (h : ∀ e, ∀ a ∈ l, Tale e (tell e a) (f e a)) :
    ∀ e, Tale e (foldStory f tell l e) (l.foldl f e) := by
  induction l with
  | nil => intro e; exact .nil
  | cons a l ih =>
      intro e
      exact (h e a (by simp)).trans (ih (fun e b hb => h e b (by simp [hb])) (f e a))

omit [CustomKind κ] in
/-- Where what is told does not depend on the engine. -/
theorem foldStory_const {α : Type} (f : Engine κ → α → Engine κ) (tell : α → List (Happening κ))
    (l : List α) : ∀ e, foldStory f (fun _ => tell) l e = l.flatMap tell := by
  induction l with
  | nil => intro e; rfl
  | cons a l ih => intro e; rw [foldStory, ih, List.flatMap_cons]

/-- Where nothing is told, nothing is told of the whole. -/
theorem tale_foldl_calm {α : Type} {f : Engine κ → α → Engine κ} (l : List α)
    (h : ∀ e, ∀ a ∈ l, Tale e [] (f e a)) : ∀ e, Tale e [] (l.foldl f e) := by
  intro e
  have hTale : Tale e (foldStory f (fun _ _ => []) l e) (l.foldl f e) := tale_foldl l h e
  rwa [foldStory_const f (fun _ => []), List.flatMap_eq_nil_iff.mpr fun _ _ => rfl] at hTale

/-! ### Calm changes -/

theorem tale_log (e : Engine κ) (entries : List Entry) : Tale e [] (e.log entries) :=
  .beat (.calm (.note e _))

/-- What moves only what a drive moves, and the journal. -/
theorem tale_drive (e : Engine κ) (state : State) (overflow : Array Float32)
    (sink : Option Sink) (journal : Array (Event κ)) :
    Tale e [] { e with state, overflow, sink, journal } :=
  (Tale.beat (.calm (.drive e state overflow sink))).trans (.beat (.calm (.note _ journal)))

theorem tale_askSink (e : Engine κ) : Tale e [] e.askSink.2 := by
  unfold askSink
  split
  · exact .nil
  · exact tale_drive e _ _ _ _

/-- An offer after which something is left over. -/
theorem tale_leave (e : Engine κ) (samples overflow : Array Float32) :
    Tale e [] { (e.offer samples).2 with overflow } := by
  unfold offer
  split
  · exact tale_drive e _ _ _ _
  · exact tale_drive e _ _ _ _

theorem tale_stop (e : Engine κ) : Tale e [] e.stop := by
  unfold stop
  split
  · exact tale_drive e _ _ _ _
  · exact tale_log e _

theorem tale_tickWithin (fuel : Nat) : ∀ (e : Engine κ) (node : Nat),
    Tale e [] (tickWithin fuel e node) := by
  induction fuel with
  | zero => intro e node; exact .nil
  | succ fuel ih =>
      intro e node
      rw [tickWithin]
      refine (tale_foldl_calm _ (fun e source _ => ?_) e).snoc (.calm (.process _ node))
      split
      · exact ih e source
      · exact .nil

theorem tale_finishFrame (e : Engine κ) : Tale e [] e.finishFrame := by
  refine (Tale.beat (.calm (.silence e))).calm ?_
  exact (tale_foldl_calm _ (fun e node _ => tale_tickWithin _ e node) _).snoc (.calm (.endFrame _))

/-! ### Messages -/

theorem tale_handle (e : Engine κ) (node : Nat) (arrival : Arrival) (m : Message) :
    Tale e ((e.callsAt node arrival m).map .called) (e.handle node arrival m).2 := by
  unfold callsAt
  split
  · rename_i hNode
    exact .beat (.call e node arrival m hNode)
  · rename_i hNode
    have hNone : e.graph.nodes[node]? = none := Array.getElem?_eq_none (Nat.le_of_not_lt hNode)
    unfold handle
    rw [hNone]
    exact .nil

theorem tale_deliverStep (e : Engine κ) (p : Pending) :
    Tale e ((Pass.callsOf e p).map .called) (e.deliverStep p).2 := by
  cases p with
  | outlet node outlet m depth =>
      simp only [deliverStep]
      split
      · exact .nil
      · exact tale_log e _
  | receiver name m depth => exact tale_log e _
  | inlet node arrival m depth =>
      simp only [deliverStep, Pass.callsOf]
      split
      · exact tale_handle e node arrival m
      · exact tale_log e _

/-- A row of steps, if each of them is told. -/
theorem tale_cascades (steps : List Pending)
    (h : ∀ p ∈ steps, ∀ e : Engine κ, Tale e ((e.cascade p).calls.map .called) (e.cascade p).engine)
    (e : Engine κ) : ∀ o : Outcome κ, Tale e (o.calls.map .called) o.engine →
      Tale e ((cascades o steps).calls.map .called) (cascades o steps).engine := by
  induction steps with
  | nil => intro o ho; exact ho
  | cons p steps ih =>
      intro o ho
      refine ih (fun q hq => h q (by simp [hq])) (o.andThen fun e => e.cascade p) ?_
      rw [Outcome.andThen, List.map_append]
      exact ho.trans (h p (by simp) o.engine)

theorem tale_cascade (n : Nat) : ∀ (p : Pending), p.rank = n → ∀ e : Engine κ,
    Tale e ((e.cascade p).calls.map .called) (e.cascade p).engine := by
  induction n using Nat.strongRecOn with
  | ind n ih =>
      intro p hRank e
      rw [cascade_eq]
      refine tale_cascades _ (fun q hq => ?_) e _ (tale_deliverStep e p)
      exact ih q.rank (hRank ▸ rank_deliverStep e p q hq) q rfl

/-- Delivering a message is told by the calls on the way. -/
theorem tale_deliver (e : Engine κ) (p : Pending) :
    Tale e ((e.cascade p).calls.map .called) (e.deliver [p]) := by
  rw [(settles_deliver e p).2]
  exact tale_cascade p.rank p rfl e

/-! ### Commands -/

section Commands

variable {render : Engine κ → Engine κ} {tell : Engine κ → List (Happening κ)}

theorem tale_nextFrames (hRender : ∀ e, Tale e (tell e) (render e)) (n : Nat) :
    ∀ e : Engine κ, Tale e ((nextFrames render n e).flatMap tell) (renderMany render n e).2 := by
  induction n with
  | zero => intro e; exact .nil
  | succ n ih => intro e; exact (hRender e).trans (ih (render e))

theorem tale_driveRound (hRender : ∀ e, Tale e (tell e) (render e)) (e : Engine κ) :
    Tale e ((if e.overflow.isEmpty then [e] else []).flatMap tell) (driveRound render e).2 := by
  unfold driveRound
  split
  · rw [List.flatMap_singleton]
    exact (hRender e).calm (tale_leave _ _ _)
  · exact tale_leave e _ _

theorem tale_driveWithin (hRender : ∀ e, Tale e (tell e) (render e)) (cap budget : Nat) :
    ∀ (frames : Nat) (e : Engine κ), Tale e ((driveFrames render budget e).flatMap tell)
      (driveWithin render cap budget frames e).2 := by
  induction budget with
  | zero =>
      intro frames e
      rw [driveWithin_zero]
      refine (tale_askSink e).after_calm ?_
      split
      · exact tale_drive e.askSink.2 _ _ _ _
      · exact .nil
  | succ budget ih =>
      intro frames e
      rw [driveWithin_succ, driveFrames]
      refine (tale_askSink e).after_calm ?_
      split
      · rw [List.flatMap_append]
        exact (tale_driveRound hRender _).trans (ih _ _)
      · exact .nil

theorem tale_writeWith (hRender : ∀ e, Tale e (tell e) (render e)) (e : Engine κ) :
    Tale e ((writeFrames render e).flatMap tell) (writeWith render e).2 := by
  unfold writeWith writeFrames
  split
  · exact tale_log e _
  · split
    · exact tale_driveWithin hRender _ _ _ e
    · exact tale_log e _

theorem tale_performWith (hRender : ∀ e, Tale e (tell e) (render e)) (c : Command)
    (e : Engine κ) : Tale e (commandStory render tell c e) (performWith render c e).2 := by
  cases c with
  | send name m => exact tale_deliver e _
  | emit node outlet m => exact tale_deliver e _
  | schedule due action => exact .beat (.schedule e due action)
  | render n => exact tale_nextFrames hRender n e
  | skip n =>
      rw [performWith, ← renderMany_snd]
      exact tale_nextFrames hRender n e
  | tick node => exact tale_tickWithin _ e _
  | play =>
      simp only [commandStory, commandFrames, performWith, playWith]
      split
      · exact tale_log e _
      · exact (tale_drive e _ _ _ _).after_calm (tale_writeWith hRender _)
  | write => exact tale_writeWith hRender e
  | mark topic label => exact tale_log e _
  | stop => exact tale_stop e
  | _ => exact .nil

theorem tale_performLogged (hRender : ∀ e, Tale e (tell e) (render e)) (c : Command)
    (e : Engine κ) : Tale e (commandStory render tell c e) (performLogged render e c) := by
  obtain ⟨journal, hEq⟩ := performLogged_eq render e c
  rw [hEq]
  exact (tale_performWith hRender c e).calm (.beat (.calm (.note _ journal)))

end Commands

theorem tale_renderWith {run : Action → Engine κ → Engine κ}
    {tell : Action → Engine κ → List (Happening κ)}
    (h : ∀ action e, Tale e (tell action e) (run action e)) (e : Engine κ) :
    Tale e (frameStoryWith run tell e) (renderWith run e) := by
  have hBegun : Tale e [.began e] e.beginFrame.2 := .beat (.beginFrame e)
  exact hBegun.trans ((tale_foldl _ (fun e action _ => h action e) _).calm (tale_finishFrame _))

theorem tale_runWithin (depth : Nat) : ∀ (action : Action) (e : Engine κ),
    Tale e (storyWithin depth action e) (runWithin depth action e) := by
  induction depth with
  | zero => intro action e; exact .nil
  | succ depth ih =>
      intro action e
      exact tale_foldl _ (fun e c _ => tale_performLogged (tale_renderWith ih) c e) e

theorem tale_render (e : Engine κ) : Tale e e.frameStory e.render :=
  tale_renderWith (tale_runWithin _) e

/-- **Every command is told in full.** -/
theorem tale_perform (e : Engine κ) (c : Command) : Tale e (e.story c) (e.perform c).2 :=
  tale_performWith tale_render c e

/-! ### Runs -/

/-- What can come of an engine, and the story of it: commands are performed, and the host may
attach another sink, answer for it, or take out the journal. -/
inductive Run (e : Engine κ) : List (Happening κ) → Engine κ → Prop
  | start : Run e [] e
  | perform {story : List (Happening κ)} {e' : Engine κ} (h : Run e story e') (c : Command) :
      Run e (story ++ e'.story c) (e'.perform c).2
  | host {story : List (Happening κ)} {e' : Engine κ} (h : Run e story e') (sink : Option Sink)
      (journal : Array (Event κ)) : Run e story { e' with sink, journal }

theorem Run.tale {e e' : Engine κ} {story : List (Happening κ)} (h : Run e story e') :
    Tale e story e' := by
  induction h with
  | start => exact .nil
  | perform _ c ih => exact ih.trans (tale_perform _ c)
  | host _ sink journal ih => exact ih.calm (tale_drive _ _ _ _ _)

/-! ### Frames one after the other -/

section Frames

variable {e e' : Engine κ} {story told : List (Happening κ)}

/-- No frame begins in a story. -/
def Still (story : List (Happening κ)) : Prop :=
  ∀ b, .began b ∉ story

/-- Every frame of a story is told in full from where it begins. -/
def ToldInFull (story : List (Happening κ)) : Prop :=
  ∀ place b, story[place]? = some (.began b) → b.frameStory <+: story.drop place

theorem ToldInFull.append (h : ToldInFull story) (h' : ToldInFull told) :
    ToldInFull (story ++ told) := by
  intro place b hBegan
  rcases Nat.lt_or_ge place story.length with hLt | hGe
  · rw [List.getElem?_append_left hLt] at hBegan
    rw [List.drop_append_of_le_length (Nat.le_of_lt hLt)]
    exact (h place b hBegan).trans (List.prefix_append _ _)
  · rw [List.getElem?_append_right hGe] at hBegan
    obtain ⟨n, rfl⟩ := Nat.exists_eq_add_of_le hGe
    rw [Nat.add_sub_cancel_left] at hBegan
    rw [List.drop_length_add_append]
    exact h' n b hBegan

theorem toldInFull_of_still (h : Still story) : ToldInFull story :=
  fun _ b hBegan => absurd (List.mem_of_getElem? hBegan) (h b)

omit [CustomKind κ] in
theorem mem_foldStory {α : Type} {f : Engine κ → α → Engine κ}
    {tell : Engine κ → α → List (Happening κ)} {happening : Happening κ} (l : List α) :
    ∀ e, happening ∈ foldStory f tell l e → ∃ e', ∃ a ∈ l, happening ∈ tell e' a := by
  induction l with
  | nil => intro e h; simp [foldStory] at h
  | cons a l ih =>
      intro e h
      rcases List.mem_append.mp h with h | h
      · exact ⟨e, a, List.mem_cons_self, h⟩
      · obtain ⟨e', a', ha', h⟩ := ih (f e a) h
        exact ⟨e', a', List.mem_cons_of_mem _ ha', h⟩

/-- A passive command begins no frame. -/
theorem still_commandStory {render : Engine κ → Engine κ} {tell : Engine κ → List (Happening κ)}
    {c : Command} (hPassive : c.isPassive = true) (e : Engine κ) :
    Still (commandStory render tell c e) := by
  intro b
  cases c <;> simp_all [commandStory, commandFrames, Command.isPassive]

theorem still_storyWithin (depth : Nat) {action : Action}
    (hPassive : ∀ c ∈ action, c.isPassive = true) (e : Engine κ) :
    Still (storyWithin depth action e) := by
  intro b hBegan
  cases depth with
  | zero => simp [storyWithin] at hBegan
  | succ depth =>
      obtain ⟨e', c, hc, hBegan⟩ := mem_foldStory _ _ hBegan
      exact still_commandStory (hPassive c hc) e' b hBegan

/-- Whether the actions that a frame runs are all passive. -/
def RunsPassive (b : Engine κ) : Prop :=
  ∀ action ∈ b.beginFrame.1, ∀ c ∈ action, c.isPassive = true

/-- Within a frame of passive actions no other begins. -/
theorem toldInFull_frameStory {b : Engine κ} (h : b.RunsPassive) : ToldInFull b.frameStory := by
  intro place b' hBegan
  cases place with
  | zero =>
      obtain rfl : b = b' := by simpa [frameStory, frameStoryWith] using hBegan
      exact List.prefix_rfl
  | succ n =>
      obtain ⟨e, action, hAction, hInner⟩ := mem_foldStory _ _ (List.mem_of_getElem? hBegan)
      exact absurd hInner (still_storyWithin _ (h action hAction) e b')

theorem toldInFull_frames (frames : List (Engine κ)) (h : ∀ b ∈ frames, b.RunsPassive) :
    ToldInFull (frames.flatMap frameStory) := by
  induction frames with
  | nil => exact toldInFull_of_still fun b hBegan => by simp at hBegan
  | cons b frames ih =>
      obtain ⟨hFirst, hRest⟩ := List.forall_mem_cons.mp h
      rw [List.flatMap_cons]
      exact (toldInFull_frameStory hFirst).append (ih hRest)

theorem toldInFull_story (c : Command) (h : ∀ b, .began b ∈ e.story c → b.RunsPassive) :
    ToldInFull (e.story c) := by
  have hFrames : ∀ b ∈ commandFrames render c e, .began b ∈
      (commandFrames render c e).flatMap frameStory := fun b hb =>
    List.mem_flatMap.mpr ⟨b, hb, List.mem_cons_self⟩
  unfold story commandStory at h ⊢
  split at h
  · exact toldInFull_of_still fun b hBegan => by simp at hBegan
  · exact toldInFull_of_still fun b hBegan => by simp at hBegan
  · exact toldInFull_of_still fun b hBegan => by simp at hBegan
  · exact toldInFull_frames _ fun b hb => h b (hFrames b hb)

theorem Run.toldInFull (hRun : Run e story e') (h : ∀ b, .began b ∈ story → b.RunsPassive) :
    ToldInFull story := by
  induction hRun with
  | start => exact toldInFull_of_still fun b hBegan => by simp at hBegan
  | perform _ c ih =>
      refine ToldInFull.append (ih fun b hBegan => h b (List.mem_append_left _ hBegan)) ?_
      exact toldInFull_story c fun b hBegan => h b (List.mem_append_right _ hBegan)
  | host _ sink journal ih => exact ih h

end Frames

end Engine

end Patchbay
