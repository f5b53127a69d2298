import Patchbay.Engine.Perform
import Patchbay.Proofs.Evolution

/-
Every operation is a chain of small changes.

An engine is changed in few ways.  A message lets the observers of one inlet and the
hook of one box do their work; something is noted; and a drive moves its own state,
its leftover samples and its sink.  These are `Touch`.  Computing adds a box being
computed, the output being silenced and a frame being ended: `Work`, during which no
time passes.  What is left is that a frame begins and that an action is put on the
agenda: `Change`.

Whatever holds of an engine and survives each of these survives every operation, also
the commands that actions perform, at any depth of nesting, and also in the middle of
a frame.  So an invariant is proved by one case for each small change and never by
going through the operations again.  What rendering a frame is stays a parameter for
most of the file, and so does the relation that the chains are made of, as long as it
allows all work.
-/

namespace Patchbay

namespace Engine

variable {κ : Type} [CustomKind κ]

/-- The small changes that messages and drives consist of. -/
inductive Touch : Engine κ → Engine κ → Prop
  /-- The observers of an inlet see a message. -/
  | observe (e : Engine κ) (node inlet : Nat) (m : Message) :
      Touch e (e.onGraph fun g => g.observe node inlet m)
  /-- The hook of a box handles a message; only its object changes. -/
  | handle (e : Engine κ) (node : Nat) (arrival : Arrival) (m : Message) :
      Touch e (e.onGraph fun g => g.modifyNode node fun n =>
        { n with object := (n.object.onMessage (e.messageScope node n.kind) arrival m).1 })
  | note (e : Engine κ) (journal : Array (Event κ)) : Touch e { e with journal }
  | drive (e : Engine κ) (state : State) (overflow : Array Float32) (sink : Option Sink) :
      Touch e { e with state, overflow, sink }

/-- The small changes within a frame. -/
inductive Work : Engine κ → Engine κ → Prop
  | touch {e e' : Engine κ} (h : Touch e e') : Work e e'
  | process (e : Engine κ) (node : Nat) : Work e (e.processNode node)
  | silence (e : Engine κ) : Work e { e with output := e.output.map fun _ => 0 }
  | endFrame (e : Engine κ) : Work e { e with rendering := false }

/-- The small changes that everything done with a loaded engine consists of. -/
inductive Change : Engine κ → Engine κ → Prop
  | work {e e' : Engine κ} (h : Work e e') : Change e e'
  | beginFrame (e : Engine κ) : Change e e.beginFrame.2
  | schedule (e : Engine κ) (due : Float) (commands : Action) :
      Change e (e.schedule due commands)

/-- A chain of changes. -/
abbrev Chain {σ : Type} (r : σ → σ → Prop) : σ → σ → Prop :=
  Relation.ReflTransGen r

/-- A fold makes a chain if each of its steps does. -/
theorem foldl_chain {σ α : Type} {r : σ → σ → Prop} {f : σ → α → σ} (l : List α)
    (h : ∀ s, ∀ a ∈ l, Chain r s (f s a)) : ∀ s, Chain r s (l.foldl f s) := by
  induction l with
  | nil => intro s; exact .refl
  | cons a l ih =>
      intro s
      exact (h s a (by simp)).trans (ih (fun t b hb => h t b (by simp [hb])) (f s a))

theorem repeat_chain {σ : Type} {r : σ → σ → Prop} {f : σ → σ} (h : ∀ s, Chain r s (f s))
    (n : Nat) (s : σ) : Chain r s (Nat.repeat f n s) := by
  induction n with
  | zero => exact .refl
  | succ n ih => exact ih.trans (h _)

theorem Chain.mono {σ : Type} {r r' : σ → σ → Prop} (h : ∀ s s', r s s' → r' s s') {s s' : σ}
    (hChain : Chain r s s') : Chain r' s s' :=
  Relation.ReflTransGen.mono h s s' hChain

/-- What every change keeps, a chain keeps. -/
theorem Chain.keeps {σ : Type} {r : σ → σ → Prop} {p : σ → Prop}
    (hStep : ∀ s s', r s s' → p s → p s') {s s' : σ} (h : Chain r s s') (hs : p s) : p s' := by
  induction h with
  | refl => exact hs
  | tail _ hLast ih => exact hStep _ _ hLast ih

/-! ### Messages -/

theorem touches_log (e : Engine κ) (entries : List Entry) : Chain Touch e (e.log entries) :=
  .single (.note e _)

/-- Writing down what a box makes of a message is a change of that box alone. -/
theorem touches_answer (e : Engine κ) {node : Nat} {n : Node κ}
    (hNode : e.graph.nodes[node]? = some n) (arrival : Arrival) (m : Message)
    (entries : List Entry) :
    Chain Touch e ((e.onGraph fun g => g.modifyNode node fun k =>
      { k with object := (n.object.onMessage (e.messageScope node n.kind) arrival m).1 }).log
        entries) := by
  refine Relation.ReflTransGen.trans ?_ (touches_log _ _)
  refine (Relation.ReflTransGen.single (.handle e node arrival m)).trans ?_
  have hSame : e.graph.modifyNode node (fun k => { k with object :=
        (k.object.onMessage (e.messageScope node k.kind) arrival m).1 }) =
      e.graph.modifyNode node (fun k => { k with object :=
        (n.object.onMessage (e.messageScope node n.kind) arrival m).1 }) :=
    Graph.modifyNode_congr hNode rfl
  simp only [onGraph, hSame]
  exact .refl

theorem touches_handle (e : Engine κ) (node : Nat) (arrival : Arrival) (m : Message) :
    Chain Touch e (e.handle node arrival m).2 := by
  unfold handle
  cases hNode : e.graph.nodes[node]? with
  | none => exact .refl
  | some n =>
      cases arrival with
      | external => exact touches_answer e hNode .external m _
      | inlet inlet =>
          refine (Relation.ReflTransGen.single (.observe e node inlet m)).trans ?_
          exact touches_answer (e.onGraph fun g => g.observe node inlet m)
            (Graph.getElem?_observe hNode inlet m) (.inlet inlet) m _

theorem touches_deliverStep (e : Engine κ) (p : Pending) :
    Chain Touch e (e.deliverStep p).2 := by
  cases p with
  | outlet node outlet m depth =>
      simp only [deliverStep]
      split
      · exact .refl
      · exact touches_log e _
  | receiver name m depth => exact touches_log e _
  | inlet node arrival m depth =>
      simp only [deliverStep]
      split
      · exact touches_handle e node arrival m
      · exact touches_log e _

theorem touches_deliver (e : Engine κ) (stack : List Pending) :
    Chain Touch e (e.deliver stack) := by
  induction e, stack using deliver.induct with
  | case1 e => rw [deliver]
  | case2 e p rest done ih =>
      rw [deliver]
      exact (touches_deliverStep e p).trans ih

/-! ### Computing -/

theorem works_tickWithin (fuel : Nat) : ∀ (e : Engine κ) (node : Nat),
    Chain Work e (tickWithin fuel e node) := by
  induction fuel with
  | zero => intro e node; exact .refl
  | succ fuel ih =>
      intro e node
      rw [tickWithin]
      refine (foldl_chain _ (fun e source _ => ?_) e).tail (.process _ node)
      split
      · exact ih e source
      · exact .refl

theorem works_tick (e : Engine κ) (node : Nat) : Chain Work e (e.tick node) :=
  works_tickWithin _ e node

theorem works_finishFrame (e : Engine κ) : Chain Work e e.finishFrame := by
  refine (Relation.ReflTransGen.single (.silence e)).trans ?_
  exact (foldl_chain _ (fun e node _ => works_tick e node) _).tail (.endFrame _)

/-! ### Drives -/

/-- What moves only what a drive moves, and the journal. -/
theorem touches_drive (e : Engine κ) (state : State) (overflow : Array Float32)
    (sink : Option Sink) (journal : Array (Event κ)) :
    Chain Touch e { e with state, overflow, sink, journal } :=
  (Relation.ReflTransGen.single (.drive e state overflow sink)).tail (.note _ journal)

theorem touches_askSink (e : Engine κ) : Chain Touch e e.askSink.2 := by
  unfold askSink
  split
  · exact .refl
  · exact touches_drive e _ _ _ _

theorem touches_offer (e : Engine κ) (samples : Array Float32) :
    Chain Touch e (e.offer samples).2 := by
  unfold offer
  split
  · exact .refl
  · exact touches_drive e _ _ _ _

/-- An offer after which something is left over. -/
theorem touches_leave (e : Engine κ) (samples overflow : Array Float32) :
    Chain Touch e { (e.offer samples).2 with overflow } :=
  (touches_offer e samples).trans (touches_drive _ _ _ _ _)

theorem touches_stop (e : Engine κ) : Chain Touch e e.stop := by
  unfold stop
  split
  · exact touches_drive e _ _ _ _
  · exact touches_log e _

section Chains

variable {r : Engine κ → Engine κ → Prop} {render : Engine κ → Engine κ}

/-- A chain of touches, as a chain of anything that allows work. -/
theorem chain_of_touches (hWork : ∀ e e', Work e e' → r e e') {e e' : Engine κ}
    (h : Chain Touch e e') : Chain r e e' :=
  Chain.mono (fun _ _ hTouch => hWork _ _ (.touch hTouch)) h

theorem driveRound_chain (hWork : ∀ e e', Work e e' → r e e')
    (hRender : ∀ e, Chain r e (render e)) (e : Engine κ) :
    Chain r e (driveRound render e).2 := by
  unfold driveRound
  split
  · exact (hRender e).trans (chain_of_touches hWork (touches_leave _ _ _))
  · exact chain_of_touches hWork (touches_leave e _ _)

theorem driveWithin_chain (hWork : ∀ e e', Work e e' → r e e')
    (hRender : ∀ e, Chain r e (render e)) (cap budget : Nat) :
    ∀ (frames : Nat) (e : Engine κ), Chain r e (driveWithin render cap budget frames e).2 := by
  induction budget with
  | zero =>
      intro frames e
      rw [driveWithin_zero]
      refine (chain_of_touches hWork (touches_askSink e)).trans ?_
      split
      · exact chain_of_touches hWork (touches_drive e.askSink.2 _ _ _ _)
      · exact .refl
  | succ budget ih =>
      intro frames e
      rw [driveWithin_succ]
      refine (chain_of_touches hWork (touches_askSink e)).trans ?_
      split
      · exact (driveRound_chain hWork hRender _).trans (ih _ _)
      · exact .refl

theorem writeWith_chain (hWork : ∀ e e', Work e e' → r e e')
    (hRender : ∀ e, Chain r e (render e)) (e : Engine κ) : Chain r e (writeWith render e).2 := by
  unfold writeWith
  split
  · exact chain_of_touches hWork (touches_log e _)
  · split
    · exact driveWithin_chain hWork hRender _ _ _ e
    · exact chain_of_touches hWork (touches_log e _)

theorem playWith_chain (hWork : ∀ e e', Work e e' → r e e')
    (hRender : ∀ e, Chain r e (render e)) (e : Engine κ) : Chain r e (playWith render e).2 := by
  unfold playWith
  split
  · exact chain_of_touches hWork (touches_log e _)
  · exact (chain_of_touches hWork (touches_drive e _ _ _ _)).trans
      (writeWith_chain hWork hRender _)

omit [CustomKind κ] in
theorem renderMany_chain (hRender : ∀ e, Chain r e (render e)) (n : Nat) :
    ∀ e : Engine κ, Chain r e (renderMany render n e).2 := by
  induction n with
  | zero => intro e; exact .refl
  | succ n ih => intro e; exact (hRender e).trans (ih (render e))

end Chains

end Engine

/-! ### Commands -/

/-- Whether a command leaves frames alone: it neither computes a box nor renders nor drives. -/
def Command.isPassive : Command → Bool
  | .render _ => false
  | .skip _ => false
  | .tick _ => false
  | .play => false
  | .write => false
  | _ => true

namespace Engine

variable {κ : Type} [CustomKind κ] {r : Engine κ → Engine κ → Prop}
  {render : Engine κ → Engine κ}

/-- A passive command puts something on the agenda or only touches, whatever rendering is. -/
theorem performWith_passive (render : Engine κ → Engine κ) {c : Command}
    (hPassive : c.isPassive = true) (e : Engine κ) :
    (∃ due commands, c = .schedule due commands) ∨ Chain Touch e (performWith render c e).2 := by
  cases c with
  | render n => simp [Command.isPassive] at hPassive
  | skip n => simp [Command.isPassive] at hPassive
  | tick node => simp [Command.isPassive] at hPassive
  | play => simp [Command.isPassive] at hPassive
  | write => simp [Command.isPassive] at hPassive
  | schedule due commands => exact .inl ⟨due, commands, rfl⟩
  | send name m => exact .inr (touches_deliver e _)
  | emit node outlet m => exact .inr (touches_deliver e _)
  | mark topic label => exact .inr (touches_log e _)
  | stop => exact .inr (touches_stop e)
  | _ => exact .inr .refl

theorem performWith_chain (hWork : ∀ e e', Work e e' → r e e')
    (hRender : ∀ e, Chain r e (render e)) (c : Command) (e : Engine κ)
    (hSchedule : ∀ due commands, c = .schedule due commands → r e (e.schedule due commands)) :
    Chain r e (performWith render c e).2 := by
  cases c with
  | render n => exact renderMany_chain hRender n e
  | skip n => exact repeat_chain hRender n e
  | tick node => exact Chain.mono hWork (works_tick e _)
  | play => exact playWith_chain hWork hRender e
  | write => exact writeWith_chain hWork hRender e
  | schedule due commands => exact .single (hSchedule due commands rfl)
  | send name m => exact chain_of_touches hWork (touches_deliver e _)
  | emit node outlet m => exact chain_of_touches hWork (touches_deliver e _)
  | mark topic label => exact chain_of_touches hWork (touches_log e _)
  | stop => exact chain_of_touches hWork (touches_stop e)
  | _ => exact .refl

/-- What an action's command leaves differs from what the command leaves by a note at most. -/
theorem performLogged_eq (render : Engine κ → Engine κ) (e : Engine κ) (c : Command) :
    ∃ journal, performLogged render e c = { (performWith render c e).2 with journal } := by
  unfold performLogged
  simp only
  split
  · exact ⟨_, rfl⟩
  · exact ⟨_, rfl⟩

theorem performLogged_chain (hWork : ∀ e e', Work e e' → r e e')
    (hRender : ∀ e, Chain r e (render e)) (c : Command) (e : Engine κ)
    (hSchedule : ∀ due commands, c = .schedule due commands → r e (e.schedule due commands)) :
    Chain r e (performLogged render e c) := by
  obtain ⟨journal, hEq⟩ := performLogged_eq render e c
  rw [hEq]
  exact (performWith_chain hWork hRender c e hSchedule).tail (hWork _ _ (.touch (.note _ journal)))

/-! ### Frames -/

theorem changes_of_works {e e' : Engine κ} (h : Chain Work e e') : Chain Change e e' :=
  Chain.mono (fun _ _ hWork => .work hWork) h

theorem changes_renderWith {run : Action → Engine κ → Engine κ}
    (h : ∀ action e, Chain Change e (run action e)) (e : Engine κ) :
    Chain Change e (renderWith run e) := by
  refine (Relation.ReflTransGen.single (.beginFrame e)).trans ?_
  refine Relation.ReflTransGen.trans ?_ (changes_of_works (works_finishFrame _))
  exact foldl_chain _ (fun e action _ => h action e) _

theorem changes_runWithin (depth : Nat) : ∀ (action : Action) (e : Engine κ),
    Chain Change e (runWithin depth action e) := by
  induction depth with
  | zero => intro action e; exact .refl
  | succ depth ih =>
      intro action e
      exact foldl_chain _ (fun e c _ => performLogged_chain (fun _ _ hWork => .work hWork)
        (changes_renderWith ih) c e fun due commands _ => .schedule e due commands) e

theorem changes_render (e : Engine κ) : Chain Change e e.render :=
  changes_renderWith (changes_runWithin _) e

/-- **Every command is a chain of small changes.** -/
theorem changes_perform (e : Engine κ) (c : Command) : Chain Change e (e.perform c).2 :=
  performWith_chain (fun _ _ hWork => .work hWork) changes_render c e
    fun due commands _ => .schedule e due commands

end Engine

end Patchbay
