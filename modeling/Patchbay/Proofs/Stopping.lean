import Patchbay.Proofs.Story

/-
What becomes of a drive that is stopped from inside.

Only `write` asks whether the engine is running, and it asks before its first frame.  The
rounds that follow ask the sink and nothing else.  So a frame of a drive starts in whatever
state the frame before it has left, which is what `Handed` says of the frames of a drive:
the state is handed from one to the next.  If a callback stops the engine, the rest of the
drive is rendered and offered in an engine that is stopped, and the stop shows only when
something is to be driven after that.
-/

namespace Patchbay

namespace Engine

variable {κ : Type} {e : Engine κ} {frame : Engine κ → Engine κ}

/-! ### States between the rounds -/

theorem state_askSink (e : Engine κ) : e.askSink.2.state = e.state := by
  unfold askSink
  split
  · rfl
  · rfl

theorem state_offer (e : Engine κ) (samples : Array Float32) :
    (e.offer samples).2.state = e.state := by
  unfold offer
  split
  · rfl
  · rfl

/-- A round leaves the state to its frame. -/
theorem state_driveRound (frame : Engine κ → Engine κ) (e : Engine κ) :
    (driveRound frame e).2.state = if e.overflow.isEmpty then (frame e).state else e.state := by
  unfold driveRound
  split
  · exact state_offer _ _
  · exact state_offer _ _

/-- Frames follow each other such that the first one starts in one state, every other one in the
state that the one before has left, and the last one leaves another. -/
inductive Handed (frame : Engine κ → Engine κ) : State → List (Engine κ) → State → Prop
  | nil (state : State) : Handed frame state [] state
  | cons {b : Engine κ} {frames : List (Engine κ)} {last : State}
      (h : Handed frame (frame b).state frames last) : Handed frame b.state (b :: frames) last

/-- A frame starts in the state that the frames before it hand to it. -/
theorem Handed.before {first last : State} {before after : List (Engine κ)} {b : Engine κ}
    (h : Handed frame first (before ++ b :: after) last) : Handed frame first before b.state := by
  induction before generalizing first with
  | nil =>
      cases h with
      | cons h => exact .nil _
  | cons d before ih =>
      cases h with
      | cons h => exact .cons (ih h)

/-- **A drive hands the state from frame to frame**, and ends in the last one unless it is cut off. -/
theorem handed_driveWithin (frame : Engine κ → Engine κ) (cap budget : Nat) :
    ∀ (count : Nat) (e : Engine κ), ∃ last,
      Handed frame e.state (driveFrames frame budget e) last ∧
        ((driveWithin frame cap budget count e).2.state = last ∨
          (driveWithin frame cap budget count e).2.state = .stopped) := by
  induction budget with
  | zero =>
      intro count e
      refine ⟨e.state, .nil _, ?_⟩
      rw [driveWithin_zero]
      split
      · exact .inr rfl
      · exact .inl (state_askSink e)
  | succ budget ih =>
      intro count e
      rw [driveWithin_succ, driveFrames]
      split
      · obtain ⟨last, hRest, hEnd⟩ := ih (count + (driveRound frame e.askSink.2).1)
          (driveRound frame e.askSink.2).2
        refine ⟨last, ?_, hEnd⟩
        rw [state_driveRound] at hRest
        rw [← state_askSink e]
        split
        · rename_i hEmpty
          rw [if_pos hEmpty] at hRest
          exact .cons hRest
        · rename_i hFull
          rw [if_neg hFull] at hRest
          exact hRest
      · exact ⟨e.state, .nil _, .inl (state_askSink e)⟩

/-- The frames of `play` and `write` start in the running engine. -/
theorem handed_commandFrames [CustomKind κ] {c : Command} (hDrive : c = .play ∨ c = .write)
    (frame : Engine κ → Engine κ) (e : Engine κ) : ∃ last,
      Handed frame .running (commandFrames frame c e) last ∧
        (commandFrames frame c e ≠ [] → (performWith frame c e).2.state = last ∨
          (performWith frame c e).2.state = .stopped) := by
  have hWrite : ∀ e : Engine κ, ∃ last, Handed frame .running (writeFrames frame e) last ∧
      (writeFrames frame e ≠ [] → (writeWith frame e).2.state = last ∨
        (writeWith frame e).2.state = .stopped) := by
    intro e
    unfold writeFrames writeWith
    by_cases hRunning : e.state = .running
    · rw [if_neg (not_not_intro hRunning), if_neg (not_not_intro hRunning)]
      split
      · obtain ⟨last, hHanded, hEnd⟩ := handed_driveWithin frame e.settings.maxWritesPerDrive
          e.settings.maxWritesPerDrive 0 e
        exact ⟨last, hRunning ▸ hHanded, fun _ => hEnd⟩
      · exact ⟨.running, .nil _, fun h => absurd rfl h⟩
    · rw [if_pos hRunning]
      exact ⟨.running, .nil _, fun h => absurd rfl h⟩
  rcases hDrive with rfl | rfl
  · simp only [commandFrames, performWith, playWith]
    split
    · exact ⟨.running, .nil _, fun h => absurd rfl h⟩
    · exact hWrite _
  · exact hWrite e

/-! ### Frames in which the engine may be stopped -/

theorem state_stop (e : Engine κ) : e.stop.state ≠ .running := by
  unfold stop
  split
  · exact State.noConfusion
  · rename_i hState
    exact hState

variable [CustomKind κ]

/-- A passive command leaves the state as it is, unless it stops the engine. -/
theorem state_performWith_passive (frame : Engine κ → Engine κ) {c : Command}
    (hPassive : c.isPassive = true) (e : Engine κ) :
    (performWith frame c e).2.state = .running ↔ e.state = .running ∧ c ≠ .stop := by
  cases c with
  | stop => exact iff_of_false (state_stop e) fun h => h.2 rfl
  | send name m => simp [performWith, (deafAt_deliver [.receiver name m 0] e).leaves.1, send]
  | emit node outlet m =>
      simp [performWith, (deafAt_deliver [.outlet (nodeIndex node) outlet m 0] e).leaves.1, emit]
  | render n => simp [Command.isPassive] at hPassive
  | skip n => simp [Command.isPassive] at hPassive
  | tick node => simp [Command.isPassive] at hPassive
  | play => simp [Command.isPassive] at hPassive
  | write => simp [Command.isPassive] at hPassive
  | _ => simp [performWith, schedule, log]

/-- What passive commands leave of a running engine. -/
theorem state_foldl_passive (commands : List Command) : ∀ e : Engine κ,
    (∀ c ∈ commands, c.isPassive = true) →
      ((commands.foldl (performLogged render) e).state = .running ↔
        e.state = .running ∧ .stop ∉ commands) := by
  induction commands with
  | nil => intro e _; simp
  | cons c commands ih =>
      intro e hPassive
      obtain ⟨hFirst, hRest⟩ := List.forall_mem_cons.mp hPassive
      obtain ⟨journal, hEq⟩ := performLogged_eq render e c
      have hState : (performLogged render e c).state = .running ↔ e.state = .running ∧ c ≠ .stop := by
        rw [hEq]
        exact state_performWith_passive render hFirst e
      rw [List.foldl_cons, ih _ hRest, hState, List.mem_cons, not_or, and_assoc,
        ne_comm (a := c)]

/-- A frame whose actions are passive leaves a running engine running, unless one of them stops
it. -/
theorem state_render_passive {b : Engine κ} (h : b.RunsPassive) :
    b.render.state = .running ↔ b.state = .running ∧ .stop ∉ b.beginFrame.1.flatten := by
  rw [render_eq_commands, (deafAt_finishFrame _).leaves.1, state_foldl_passive]
  · rfl
  · intro c hc
    obtain ⟨action, hAction, hc⟩ := List.mem_flatten.mp hc
    exact h action hAction c hc

/-- The state that frames of passive actions hand on. -/
theorem Handed.running_iff {first last : State} {frames : List (Engine κ)}
    (h : Handed render first frames last) (hPassive : ∀ b ∈ frames, b.RunsPassive) :
    last = .running ↔ first = .running ∧ ∀ b ∈ frames, .stop ∉ b.beginFrame.1.flatten := by
  induction h with
  | nil state => simp
  | cons _ ih =>
      obtain ⟨hFirst, hRest⟩ := List.forall_mem_cons.mp hPassive
      rw [ih hRest, state_render_passive hFirst, List.forall_mem_cons, and_assoc]

/-! ### Engines that rest -/

/-- Until it is played the engine renders nothing for the sink and offers it nothing, whatever else
is done with it between frames. -/
def Rests (e : Engine κ) : Prop :=
  ∀ commands : List Command, (∀ c ∈ commands, c = .write ∨ c.isPassive = true) →
    Still (foldStory (fun e c => (e.perform c).2) story commands e) ∧
      (commands.foldl (fun e c => (e.perform c).2) e).sink = e.sink

theorem sink_performWith_passive (frame : Engine κ → Engine κ) {c : Command}
    (hPassive : c.isPassive = true) (e : Engine κ) : (performWith frame c e).2.sink = e.sink := by
  cases c with
  | stop =>
      simp only [performWith, stop]
      split
      · rfl
      · rfl
  | send name m => exact (deafAt_deliver [.receiver name m 0] e).leaves.2.2
  | emit node outlet m => exact (deafAt_deliver [.outlet (nodeIndex node) outlet m 0] e).leaves.2.2
  | render n => simp [Command.isPassive] at hPassive
  | skip n => simp [Command.isPassive] at hPassive
  | tick node => simp [Command.isPassive] at hPassive
  | play => simp [Command.isPassive] at hPassive
  | write => simp [Command.isPassive] at hPassive
  | _ => rfl

/-- An engine that does not run rests. -/
theorem rests_of_not_running (h : e.state ≠ .running) : e.Rests := by
  intro commands
  induction commands generalizing e with
  | nil => exact fun _ => ⟨fun b hb => absurd hb List.not_mem_nil, rfl⟩
  | cons c commands ih =>
      intro hCommands
      obtain ⟨hFirst, hRest⟩ := List.forall_mem_cons.mp hCommands
      have hQuiet : Still (e.story c) ∧ (e.perform c).2.sink = e.sink ∧
          (e.perform c).2.state ≠ .running := by
        rcases hFirst with rfl | hPassive
        · have hFrames : commandFrames render .write e = [] := if_pos h
          have hWrite : (e.perform .write).2 = e.log [.trace s!"write() while {e.state.name}"] := by
            simp only [perform, performWith, writeWith, if_pos h]
          rw [hWrite]
          have hNothing : e.story .write = [] := by
            show (commandFrames render .write e).flatMap frameStory = []
            rw [hFrames, List.flatMap_nil]
          refine ⟨fun b hb => ?_, rfl, h⟩
          rw [hNothing] at hb
          exact List.not_mem_nil hb
        · refine ⟨still_commandStory hPassive e, sink_performWith_passive render hPassive e, ?_⟩
          intro hRunning
          exact h ((state_performWith_passive render hPassive e).mp hRunning).1
      obtain ⟨hStill, hSink⟩ := ih hQuiet.2.2 hRest
      refine ⟨fun b hb => ?_, hSink.trans hQuiet.2.1⟩
      exact (List.mem_append.mp hb).elim (hQuiet.1 b) (hStill b)

/--
**A drive asks whether the engine runs before its first frame, and not again.**  Whatever a
frame does, the first frame of a `play` or `write` starts in the running engine and every
other one in the state that the one before has left.  So if the callbacks are passive, a
frame starts in the running engine exactly if none before it in its drive has stopped it.
Once a drive in which a callback has stopped the engine is over, and at once if it is
stopped between drives, no frame starts and nothing is offered until it is played.
-/
theorem drive_asks_state_once {c : Command} (hDrive : c = .play ∨ c = .write) (e : Engine κ) :
    (∀ frame : Engine κ → Engine κ, ∃ last,
        Handed frame .running (commandFrames frame c e) last) ∧
      ((∀ b ∈ commandFrames render c e, b.RunsPassive) →
        (∀ before b after, commandFrames render c e = before ++ b :: after →
          (b.state = .running ↔ ∀ b' ∈ before, .stop ∉ b'.beginFrame.1.flatten)) ∧
        ((∃ b ∈ commandFrames render c e, .stop ∈ b.beginFrame.1.flatten) →
          (e.perform c).2.Rests)) ∧
      e.stop.Rests := by
  refine ⟨fun frame => ?_, fun hPassive => ?_, rests_of_not_running (state_stop e)⟩
  · obtain ⟨last, hHanded, -⟩ := handed_commandFrames hDrive frame e
    exact ⟨last, hHanded⟩
  · obtain ⟨last, hHanded, hEnd⟩ := handed_commandFrames hDrive render e
    refine ⟨fun before b after hSplit => ?_, ?_⟩
    · rw [hSplit] at hHanded hPassive
      rw [hHanded.before.running_iff fun d hd => hPassive d (List.mem_append_left _ hd)]
      exact and_iff_right rfl
    · rintro ⟨b, hb, hStop⟩
      refine rests_of_not_running ?_
      rcases hEnd (List.ne_nil_of_mem hb) with hLast | hCut
      · rw [perform, hLast]
        intro hRunning
        exact ((hHanded.running_iff hPassive).mp hRunning).2 b hb hStop
      · rw [perform, hCut]
        exact State.noConfusion

/-! ### A stop in the first frame of a drive -/

/-- The sink takes three frames, and the first one stops the engine. -/
def halting : Engine Empty :=
  ((Engine.new ⟨1000, 1, 2, 5⟩ .builtin).withSink (.script [9, 9, 9])).schedule 0 [.stop]

theorem states_halting : (commandFrames render .play halting).map (fun b => b.state) =
    [.running, .stopped, .stopped] := by
  decide +kernel

theorem drive_asks_state_once_halting :
    (∀ b ∈ commandFrames render .play halting, b.RunsPassive) ∧
      (∃ b ∈ commandFrames render .play halting, .stop ∈ b.beginFrame.1.flatten) ∧
      (halting.perform .play).2.Rests := by
  have hPassive : ∀ b ∈ commandFrames render .play halting,
      ∀ action ∈ b.beginFrame.1, ∀ c ∈ action, c.isPassive = true := by
    decide +kernel
  obtain ⟨-, hFrames, -⟩ := drive_asks_state_once (.inl rfl) halting
  obtain ⟨hRunning, hStopped⟩ := hFrames hPassive
  have hStop : ∃ b ∈ commandFrames render .play halting, .stop ∈ b.beginFrame.1.flatten := by
    obtain ⟨first, rest, hSplit, -, hRest⟩ := List.map_eq_cons_iff.mp states_halting
    obtain ⟨second, rest, rfl, hSecond, -⟩ := List.map_eq_cons_iff.mp hRest
    by_contra hNone
    have hStill := (hRunning [first] second rest hSplit).mpr fun b hb hStop =>
      hNone ⟨b, hSplit ▸ List.mem_append_left _ hb, hStop⟩
    rw [hSecond] at hStill
    exact State.noConfusion hStill
  exact ⟨hPassive, hStop, hStopped hStop⟩

/-- Not every frame of a drive starts in the running engine. -/
theorem frames_halting_not_running :
    ¬ ∀ b ∈ commandFrames render .play halting, b.state = .running := by
  intro hRunning
  have hStates : State.stopped ∈ (commandFrames render .play halting).map fun b => b.state := by
    rw [states_halting]
    decide
  obtain ⟨b, hb, hState⟩ := List.mem_map.mp hStates
  rw [hRunning b hb] at hState
  exact State.noConfusion hState

end Engine

end Patchbay
