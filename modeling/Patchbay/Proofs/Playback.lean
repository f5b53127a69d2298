import Patchbay.Proofs.Nesting

/-
Rendering does not hear the sink.

What a drive moves is the state of the engine, the samples that are left over and the
sink, and everything may write into the journal.  These four are the playback of an
engine.  Messages, schedules and frames neither look at the playback nor move more of it
than the journal: they are `DeafAt` every engine.  The exceptions are the commands that
drive or stop.  So a frame is deaf as long as no callback in it performs one of these,
at any depth of nesting, which is what `Performs` is about.
-/

namespace Patchbay

namespace Engine

variable {κ : Type}

/-- What belongs to a drive, and the journal. -/
structure Playback (κ : Type) where
  state : State
  overflow : Array Float32
  sink : Option Sink
  journal : Array (Event κ)

def playback (e : Engine κ) : Playback κ :=
  ⟨e.state, e.overflow, e.sink, e.journal⟩

/-- The same engine with another playback. -/
def withPlayback (e : Engine κ) (p : Playback κ) : Engine κ :=
  { e with state := p.state, overflow := p.overflow, sink := p.sink, journal := p.journal }

@[simp] theorem withPlayback_playback (e : Engine κ) : e.withPlayback e.playback = e := rfl

@[simp] theorem withPlayback_withPlayback (e : Engine κ) (p q : Playback κ) :
    (e.withPlayback p).withPlayback q = e.withPlayback q := rfl

/-- Whatever the playback is, the operation does the same here and leaves it but for the journal. -/
def DeafAt (f : Engine κ → Engine κ) (e : Engine κ) : Prop :=
  ∀ p : Playback κ, ∃ journal, f (e.withPlayback p) = (f e).withPlayback { p with journal }

theorem deafAt_id (e : Engine κ) : DeafAt (fun e => e) e := fun p => ⟨p.journal, rfl⟩

theorem DeafAt.comp {f g : Engine κ → Engine κ} {e : Engine κ} (hg : DeafAt g (f e))
    (hf : DeafAt f e) : DeafAt (fun e => g (f e)) e := by
  intro p
  obtain ⟨journal, hEq⟩ := hf p
  obtain ⟨last, hLast⟩ := hg { p with journal }
  refine ⟨last, ?_⟩
  show g (f (e.withPlayback p)) = (g (f e)).withPlayback { p with journal := last }
  rw [hEq, hLast]

/-- A fold is deaf if each of its steps is. -/
theorem deafAt_foldl {α : Type} {f : Engine κ → α → Engine κ} (l : List α) :
    ∀ e : Engine κ, (∀ before a after, l = before ++ a :: after →
      DeafAt (fun e => f e a) (before.foldl f e)) → DeafAt (fun e => l.foldl f e) e := by
  induction l with
  | nil => intro e _; exact deafAt_id e
  | cons a l ih =>
      intro e h
      refine DeafAt.comp (g := fun e => l.foldl f e) (f := fun e => f e a) (ih (f e a) ?_)
        (h [] a l rfl)
      intro before b after hSplit
      exact h (a :: before) b after (by rw [hSplit]; rfl)

/-- A deaf operation leaves the playback but for the journal. -/
theorem DeafAt.leaves {f : Engine κ → Engine κ} {e : Engine κ} (h : DeafAt f e) :
    (f e).state = e.state ∧ (f e).overflow = e.overflow ∧ (f e).sink = e.sink := by
  obtain ⟨journal, hEq⟩ := h e.playback
  rw [withPlayback_playback] at hEq
  rw [hEq]
  exact ⟨rfl, rfl, rfl⟩

/-! ### Messages and frames -/

theorem deafAt_schedule (due : Float) (commands : Action) (e : Engine κ) :
    DeafAt (fun e => e.schedule due commands) e :=
  fun p => ⟨p.journal, rfl⟩

variable [CustomKind κ]

/-- A step of a delivery makes the same steps whatever the playback is. -/
theorem deliverStep_withPlayback (e : Engine κ) (s : Pending) (p : Playback κ) :
    ∃ journal, (e.withPlayback p).deliverStep s =
      ((e.deliverStep s).1, (e.deliverStep s).2.withPlayback { p with journal }) := by
  cases s with
  | outlet node outlet m depth =>
      have hGraph : (e.withPlayback p).graph = e.graph := rfl
      simp only [deliverStep, hGraph]
      split
      · exact ⟨p.journal, rfl⟩
      · exact ⟨_, rfl⟩
  | receiver name m depth => exact ⟨_, rfl⟩
  | inlet node arrival m depth =>
      simp only [deliverStep]
      split
      · unfold handle
        have hGraph : (e.withPlayback p).graph = e.graph := rfl
        rw [hGraph]
        cases e.graph.nodes[node]? with
        | none => exact ⟨p.journal, rfl⟩
        | some n => cases arrival <;> exact ⟨_, rfl⟩
      · exact ⟨_, rfl⟩

theorem deafAt_deliver (stack : List Pending) (e : Engine κ) :
    DeafAt (fun e => e.deliver stack) e := by
  intro p
  show ∃ journal, (e.withPlayback p).deliver stack =
    (e.deliver stack).withPlayback { p with journal }
  induction e, stack using deliver.induct generalizing p with
  | case1 e =>
      rw [deliver, deliver]
      exact ⟨p.journal, rfl⟩
  | case2 e s rest done ih =>
      obtain ⟨journal, hStep⟩ := deliverStep_withPlayback e s p
      obtain ⟨last, hRest⟩ := ih { p with journal }
      refine ⟨last, ?_⟩
      rw [deliver, deliver, hStep]
      exact hRest

theorem deafAt_processNode (node : Nat) (e : Engine κ) :
    DeafAt (fun e => e.processNode node) e := by
  intro p
  have hGraph : (e.withPlayback p).graph = e.graph := rfl
  show ∃ journal, (e.withPlayback p).processNode node =
    (e.processNode node).withPlayback { p with journal }
  unfold processNode
  rw [hGraph]
  cases e.graph.nodes[node]? with
  | none => exact ⟨p.journal, rfl⟩
  | some n => exact ⟨_, rfl⟩

theorem deafAt_tickWithin (bound : Nat) : ∀ (node : Nat) (e : Engine κ),
    DeafAt (fun e => tickWithin bound e node) e := by
  induction bound with
  | zero => intro node e; exact deafAt_id e
  | succ bound ih =>
      intro node e
      have hSources : DeafAt (fun e₁ => (e.graph.signalSources node).foldl (fun e source =>
          if e.isStale source then tickWithin bound e source else e) e₁) e := by
        refine deafAt_foldl _ e fun before source after _ => ?_
        intro p
        have hStale : ∀ e : Engine κ, (e.withPlayback p).isStale source = e.isStale source :=
          fun _ => rfl
        simp only [hStale]
        split
        · exact ih source _ p
        · exact ⟨p.journal, rfl⟩
      exact DeafAt.comp (g := fun e => e.processNode node) (deafAt_processNode node _) hSources

theorem deafAt_tick (node : Nat) (e : Engine κ) : DeafAt (fun e => e.tick node) e :=
  deafAt_tickWithin e.graph.size node e

theorem deafAt_finishFrame (e : Engine κ) : DeafAt finishFrame e := by
  have hFold := deafAt_foldl (f := tick) e.graph.endpoints
    { e with output := e.output.map fun _ => 0 } fun _ node _ _ => deafAt_tick node _
  intro p
  obtain ⟨journal, hEq⟩ := hFold p
  exact ⟨journal, congrArg (fun e : Engine κ => { e with rendering := false }) hEq⟩

end Engine

/-! ### Commands of callbacks -/

/-- How many frames a command renders by itself. -/
def Command.frames : Command → Nat
  | .render n => n
  | .skip n => n
  | _ => 0

/-- Whether a command drives the engine or stops it. -/
def Command.drives : Command → Bool
  | .play => true
  | .write => true
  | .stop => true
  | _ => false

/-- Whether a command sends a message. -/
def Command.isMessage : Command → Bool
  | .send .. => true
  | .emit .. => true
  | _ => false

theorem Command.isPassive_of_isMessage {c : Command} (h : c.isMessage = true) :
    c.isPassive = true := by
  cases c <;> first | rfl | simp [isMessage] at h

theorem Command.frames_of_isMessage {c : Command} (h : c.isMessage = true) : c.frames = 0 := by
  cases c <;> first | rfl | simp [isMessage] at h

namespace Engine

variable {κ : Type} [CustomKind κ]

/-- Whatever waits sends messages. -/
def OnlyMessages (e : Engine κ) : Prop :=
  ∀ action ∈ e.agenda.actions, ∀ c ∈ action, c.isMessage = true

omit [CustomKind κ] in
theorem OnlyMessages.of_agenda {e e' : Engine κ} (h : e.OnlyMessages) (hSame : e'.agenda = e.agenda) :
    e'.OnlyMessages := by
  rw [OnlyMessages, hSame]
  exact h

omit [CustomKind κ] in
/-- What is due in a frame waits before it, and so does what is left. -/
theorem OnlyMessages.beginFrame {e : Engine κ} (h : e.OnlyMessages) :
    (∀ action ∈ e.beginFrame.1, ∀ c ∈ action, c.isMessage = true) ∧
      e.beginFrame.2.OnlyMessages := by
  have hLeft := Agenda.takeDue_actions e.agenda (e.settings.frameTime (e.frame + 1))
  exact ⟨fun action hAction => h action (hLeft ▸ List.mem_append_left _ hAction),
    fun action hAction => h action (hLeft ▸ List.mem_append_right _ hAction)⟩

/-- Rendering a frame performs a command: one of an action that is due, or one in a frame that a
command before it renders. -/
inductive Performs : Engine κ → Command → Prop
  | due {e : Engine κ} {before after : List Command} {c : Command}
      (h : e.beginFrame.1.flatten = before ++ c :: after) : Performs e c
  | nested {e : Engine κ} {before after : List Command} {c inner : Command} {k : Nat}
      (h : e.beginFrame.1.flatten = before ++ c :: after) (hFrames : k < c.frames)
      (hInner : Performs
        (Nat.repeat render k (before.foldl (performLogged render) e.beginFrame.2)) inner) :
      Performs e inner

theorem repeat_apply {α : Type} (f : α → α) (n : Nat) (a : α) :
    Nat.repeat f n (f a) = f (Nat.repeat f n a) := by
  induction n with
  | zero => rfl
  | succ n ih => rw [Nat.repeat, Nat.repeat, ih]

theorem repeat_add {α : Type} (f : α → α) (m n : Nat) (a : α) :
    Nat.repeat f (m + n) a = Nat.repeat f n (Nat.repeat f m a) := by
  induction n with
  | zero => rfl
  | succ n ih => rw [← Nat.add_assoc, Nat.repeat, Nat.repeat, ih]

omit [CustomKind κ] in
theorem renderMany_snd (render : Engine κ → Engine κ) (n : Nat) :
    ∀ e : Engine κ, (renderMany render n e).2 = Nat.repeat render n e := by
  induction n with
  | zero => intro e; rfl
  | succ n ih =>
      intro e
      rw [Nat.repeat, ← repeat_apply render n e]
      exact ih (render e)

/-- The frame in which a command of a due action could render holds fewer waiting actions. -/
theorem waitingActions_before {e : Engine κ} {before after : List Command} {c : Command}
    (h : e.beginFrame.1.flatten = before ++ c :: after) :
    (before.foldl (performLogged render) e.beginFrame.2).waitingActions < e.waitingActions := by
  have hFold := waitingActions_foldl_performLogged waitingActions_render before e.beginFrame.2
  have hBegin := waitingActions_beginFrame e
  have hSome : 0 < e.beginFrame.1.length := by
    rw [List.length_pos_iff]
    intro hNone
    simp [hNone] at h
  rw [actionTotal, h, actionsWithin_append] at hBegin
  omega

theorem waitingActions_repeat (n : Nat) (e : Engine κ) :
    (Nat.repeat render n e).waitingActions ≤ e.waitingActions := by
  induction n with
  | zero => exact Nat.le_refl _
  | succ n ih => exact Nat.le_trans (waitingActions_render _) ih

omit [CustomKind κ] in
theorem deafAt_repeat {f : Engine κ → Engine κ} (n : Nat) {e : Engine κ}
    (h : ∀ k < n, DeafAt f (Nat.repeat f k e)) : DeafAt (fun e => Nat.repeat f n e) e := by
  induction n with
  | zero => exact deafAt_id e
  | succ n ih =>
      exact DeafAt.comp (g := f) (h n (Nat.lt_succ_self n))
        (ih fun k hk => h k (Nat.lt_succ_of_lt hk))

/-- A command that neither drives nor stops is deaf, if the frames that it renders are. -/
theorem deafAt_performWith {c : Command} (hDrives : c.drives = false) {e : Engine κ}
    (hFrames : ∀ k < c.frames, DeafAt render (Nat.repeat render k e)) :
    DeafAt (fun e => (performWith render c e).2) e := by
  cases c with
  | render n =>
      have hSame : (fun e : Engine κ => (performWith render (.render n) e).2) =
          fun e => Nat.repeat render n e := funext (renderMany_snd render n)
      rw [hSame]
      exact deafAt_repeat n hFrames
  | skip n => exact deafAt_repeat n hFrames
  | play => simp [Command.drives] at hDrives
  | write => simp [Command.drives] at hDrives
  | stop => simp [Command.drives] at hDrives
  | send name m => exact deafAt_deliver _ e
  | emit node outlet m => exact deafAt_deliver _ e
  | tick node => exact deafAt_tick _ e
  | schedule due commands => exact deafAt_schedule due commands e
  | mark topic label => exact fun p => ⟨_, rfl⟩
  | _ => exact deafAt_id e

theorem deafAt_performLogged {c : Command} (hDrives : c.drives = false) {e : Engine κ}
    (hFrames : ∀ k < c.frames, DeafAt render (Nat.repeat render k e)) :
    DeafAt (fun e => performLogged render e c) e := by
  intro p
  obtain ⟨journal, hEq⟩ := deafAt_performWith hDrives hFrames p
  obtain ⟨first, hFirst⟩ := performLogged_eq render e c
  obtain ⟨last, hLast⟩ := performLogged_eq render (e.withPlayback p) c
  refine ⟨last, ?_⟩
  simp only at hEq
  show performLogged render (e.withPlayback p) c =
    (performLogged render e c).withPlayback { p with journal := last }
  rw [hLast, hFirst, hEq]
  rfl

theorem render_eq_commands (e : Engine κ) : e.render =
    (e.beginFrame.1.flatten.foldl (performLogged render) e.beginFrame.2).finishFrame := by
  rw [render_eq, List.foldl_flatten]
  rfl

/-- **A frame is deaf unless a callback drives or stops.** -/
theorem deafAt_render {e : Engine κ} (hQuiet : ∀ c, e.Performs c → c.drives = false) :
    DeafAt render e := by
  induction hWaiting : e.waitingActions using Nat.strongRecOn generalizing e with
  | ind n ih =>
      have hFold : DeafAt (fun e₁ => e.beginFrame.1.flatten.foldl (performLogged render) e₁)
          e.beginFrame.2 := by
        refine deafAt_foldl _ _ fun before c after hSplit => ?_
        refine deafAt_performLogged (hQuiet c (.due hSplit)) fun k hk => ?_
        have hLess := waitingActions_before hSplit
        have hRepeat := waitingActions_repeat k
          (before.foldl (performLogged render) e.beginFrame.2)
        exact ih _ (by omega) (fun inner hInner => hQuiet inner (.nested hSplit hk hInner)) rfl
      intro p
      obtain ⟨journal, hEq⟩ := DeafAt.comp (deafAt_finishFrame _) hFold p
      refine ⟨journal, ?_⟩
      rw [render_eq_commands, render_eq_commands e]
      exact hEq

end Engine

end Patchbay
