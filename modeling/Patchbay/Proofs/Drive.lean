import Patchbay.Proofs.Frame
import Patchbay.Proofs.Playback

/-
Backpressure never changes the audio.

A drive goes in rounds.  A round offers the sink a new frame if nothing is left over and
otherwise what is left over, and keeps what the sink does not take.  So in every round
what was left over, followed by what is rendered, is what the sink takes, followed by
what is left over then.  This is `Conserves`.  It composes, over the rounds of a drive,
over the calls of a run, and over drives that the guard against runaways cuts off and
that are taken up again.

The frames are those of an engine that never had a sink, because rendering is deaf to
the playback: at every point of a run the engine `Echoes` the one that has only rendered.
An action cannot tell the two apart, as it does not look at the engine.  Nothing is assumed
of the sink.  It may answer anything whenever it is asked, and say that it took nothing or
more than there was.
-/

namespace Patchbay

/-- The calls of a run.  Between two calls the sink may change by itself, as a ring does that is
emptied at its other end. -/
inductive DriveCall where
  | play
  | write
  | elsewhere (sink : Sink)

namespace Engine

variable {κ : Type} {d o e : Engine κ}

/-! ### The same but for the playback -/

/-- Two engines are the same but for the playback. -/
def Echoes (d o : Engine κ) : Prop :=
  d = o.withPlayback d.playback

theorem Echoes.refl (e : Engine κ) : e.Echoes e := rfl

theorem Echoes.symm (h : d.Echoes o) : o.Echoes d := by
  rw [Echoes, h, withPlayback_withPlayback, withPlayback_playback]

theorem Echoes.trans {e₁ e₂ e₃ : Engine κ} (h₁ : e₁.Echoes e₂) (h₂ : e₂.Echoes e₃) :
    e₁.Echoes e₃ := by
  have hEq : e₁ = e₂.withPlayback e₁.playback := h₁
  rw [show e₂ = e₃.withPlayback e₂.playback from h₂, withPlayback_withPlayback] at hEq
  exact hEq

theorem Echoes.output (h : d.Echoes o) : d.output = o.output := by
  have hEq : d = o.withPlayback d.playback := h
  rw [hEq]
  rfl

/-- What is deaf to the playback takes engines that echo each other to such. -/
theorem DeafAt.echoes {f : Engine κ → Engine κ} (hDeaf : DeafAt f d) (h : d.Echoes o) :
    (f d).Echoes (f o) := by
  obtain ⟨journal, hEq⟩ := hDeaf o.playback
  rw [← show o = d.withPlayback o.playback from h.symm] at hEq
  rw [Echoes, hEq, withPlayback_withPlayback, withPlayback_playback]

theorem echoes_askSink (e : Engine κ) : e.askSink.2.Echoes e := by
  unfold askSink
  split
  · exact .refl e
  · rfl

theorem overflow_askSink (e : Engine κ) : e.askSink.2.overflow = e.overflow := by
  unfold askSink
  split <;> rfl

/-- An offer moves the sink and the journal. -/
theorem offer_eq (e : Engine κ) (samples : Array Float32) :
    ∃ sink journal, (e.offer samples).2 = { e with sink, journal } := by
  unfold offer
  split
  · exact ⟨e.sink, e.journal, rfl⟩
  · exact ⟨_, _, rfl⟩

variable [CustomKind κ]

/-! ### Rounds -/

/-- The rounds of a drive: the engine at the start of each, when the sink has said that it wants
more. -/
def rounds : Nat → Engine κ → List (Engine κ)
  | 0, _ => []
  | budget + 1, e =>
    if e.askSink.1 then e.askSink.2 :: rounds budget (driveRound render e.askSink.2).2 else []

/-- The rounds that render a frame. -/
def frameStarts (rs : List (Engine κ)) : List (Engine κ) :=
  rs.filter fun e => e.overflow.isEmpty

/-- The samples that the sink takes in a round. -/
def accepted (e : Engine κ) : List Float32 :=
  if e.overflow.isEmpty then
    (e.render.output.extract 0 (e.render.offer e.render.output).1).toList
  else (e.overflow.extract 0 (e.offer e.overflow).1).toList

/-- The samples of the next `n` frames. -/
def nextSamples (n : Nat) (e : Engine κ) : List Float32 :=
  (renderMany render n e).1.flatMap Array.toList

theorem nextSamples_add (m n : Nat) : ∀ e : Engine κ,
    e.nextSamples (m + n) = e.nextSamples m ++ (Nat.repeat render m e).nextSamples n := by
  induction m with
  | zero => intro e; rw [Nat.zero_add]; rfl
  | succ m ih =>
      intro e
      have hHead : ∀ k, e.nextSamples (k + 1) = e.render.output.toList ++ e.render.nextSamples k :=
        fun _ => rfl
      rw [Nat.add_right_comm, hHead, hHead, ih e.render, repeat_apply, Nat.repeat,
        List.append_assoc]

/-- From one engine to another through some rounds no sample is lost, repeated or moved, compared
to an engine that renders as many frames. -/
def Conserves (rs : List (Engine κ)) (d d' : Engine κ) : Prop :=
  ∀ o, d.Echoes o → d'.Echoes (Nat.repeat render (frameStarts rs).length o) ∧
    d.overflow.toList ++ o.nextSamples (frameStarts rs).length =
      rs.flatMap accepted ++ d'.overflow.toList

/-- What changes the playback but for what is left over. -/
theorem conserves_nil {d' : Engine κ} (h : d'.Echoes d) (hOverflow : d'.overflow = d.overflow) :
    Conserves [] d d' := by
  intro o ho
  refine ⟨h.trans ho, ?_⟩
  rw [hOverflow]
  show d.overflow.toList ++ [] = [] ++ d.overflow.toList
  rw [List.append_nil, List.nil_append]

theorem Conserves.trans {rs rs' : List (Engine κ)} {d₁ d₂ d₃ : Engine κ}
    (h₁ : Conserves rs d₁ d₂) (h₂ : Conserves rs' d₂ d₃) : Conserves (rs ++ rs') d₁ d₃ := by
  intro o ho
  obtain ⟨hEcho₁, hStream₁⟩ := h₁ o ho
  obtain ⟨hEcho₂, hStream₂⟩ := h₂ _ hEcho₁
  have hCount : (frameStarts (rs ++ rs')).length =
      (frameStarts rs).length + (frameStarts rs').length := by
    rw [frameStarts, List.filter_append, List.length_append]
    rfl
  rw [hCount, repeat_add, nextSamples_add]
  refine ⟨hEcho₂, ?_⟩
  calc d₁.overflow.toList ++ (o.nextSamples (frameStarts rs).length ++ _)
      = rs.flatMap accepted ++ d₂.overflow.toList ++ _ := by rw [← List.append_assoc, hStream₁]
    _ = rs.flatMap accepted ++ (rs'.flatMap accepted ++ d₃.overflow.toList) := by
        rw [List.append_assoc, hStream₂]
    _ = (rs ++ rs').flatMap accepted ++ d₃.overflow.toList := by
        rw [List.flatMap_append, List.append_assoc]

/-- What is taken from the front and what is left. -/
theorem extract_split (xs : Array Float32) (k : Nat) :
    (xs.extract 0 k).toList ++ (xs.extract k xs.size).toList = xs.toList := by
  have hRest : (xs.toList.drop k).take (xs.size - k) = xs.toList.drop k :=
    List.take_of_length_le (by simp)
  simp only [Array.toList_extract, List.extract, List.drop_zero, Nat.sub_zero, hRest,
    List.take_append_drop]

/-- A round that renders a frame leaves of it what the sink does not take. -/
theorem driveRound_of_empty (h : e.overflow.isEmpty = true) :
    ∃ sink journal, (driveRound render e).2 =
      { e.render with
        sink, journal
        overflow := e.render.overflow ++ e.render.output.extract
          (e.render.offer e.render.output).1 e.render.output.size } := by
  obtain ⟨sink, journal, hOffer⟩ := offer_eq e.render e.render.output
  have hRound : (driveRound render e).2 =
      { (e.render.offer e.render.output).2 with
        overflow := (e.render.offer e.render.output).2.overflow ++
          (e.render.offer e.render.output).2.output.extract (e.render.offer e.render.output).1
            (e.render.offer e.render.output).2.output.size } := by
    rw [driveRound, if_pos h]
  exact ⟨sink, journal, by rw [hRound, hOffer]⟩

/-- A round that offers what is left over leaves of it what the sink does not take. -/
theorem driveRound_of_not_empty (h : e.overflow.isEmpty = false) :
    ∃ sink journal, (driveRound render e).2 =
      { e with
        sink, journal
        overflow := e.overflow.extract (e.offer e.overflow).1 e.overflow.size } := by
  obtain ⟨sink, journal, hOffer⟩ := offer_eq e e.overflow
  have hRound : (driveRound render e).2 =
      { (e.offer e.overflow).2 with
        overflow := (e.offer e.overflow).2.overflow.extract (e.offer e.overflow).1
          (e.offer e.overflow).2.overflow.size } := by
    rw [driveRound, if_neg (by simp [h])]
  exact ⟨sink, journal, by rw [hRound, hOffer]⟩

/-- **A round conserves the stream**, if no callback in its frame drives or stops. -/
theorem conserves_round
    (hQuiet : d.overflow.isEmpty = true → ∀ c, d.Performs c → c.drives = false) :
    Conserves [d] d (driveRound render d).2 := by
  intro o ho
  cases hEmpty : d.overflow.isEmpty with
  | true =>
      have hDeaf := deafAt_render (hQuiet hEmpty)
      have hEcho : d.render.Echoes o.render := hDeaf.echoes ho
      have hStarts : frameStarts [d] = [d] := List.filter_cons_of_pos hEmpty
      have hNone : d.render.overflow = #[] := hDeaf.leaves.2.1.trans (Array.isEmpty_iff.mp hEmpty)
      have hSamples : o.nextSamples 1 = d.render.output.toList := by
        show o.render.output.toList ++ [] = _
        rw [hEcho.output, List.append_nil]
      obtain ⟨sink, journal, hRound⟩ := driveRound_of_empty hEmpty
      rw [hStarts, hRound]
      refine ⟨Echoes.trans rfl hEcho, ?_⟩
      show d.overflow.toList ++ o.nextSamples 1 = [d].flatMap accepted ++
        (d.render.overflow ++ d.render.output.extract _ _).toList
      rw [hNone, Array.empty_append, List.flatMap_singleton, accepted, if_pos hEmpty, hSamples,
        extract_split, Array.isEmpty_iff.mp hEmpty]
      rfl
  | false =>
      have hStarts : frameStarts [d] = [] := List.filter_cons_of_neg (by simp [hEmpty])
      obtain ⟨sink, journal, hRound⟩ := driveRound_of_not_empty hEmpty
      rw [hStarts, hRound]
      refine ⟨Echoes.trans rfl ho, ?_⟩
      show d.overflow.toList ++ [] = [d].flatMap accepted ++ (d.overflow.extract _ _).toList
      rw [List.flatMap_singleton, accepted, if_neg (by simp [hEmpty]), extract_split,
        List.append_nil]

/-! ### Drives and runs -/

/-- No callback in the frames that these rounds render drives or stops the engine. -/
def Quiet (rs : List (Engine κ)) : Prop :=
  ∀ e ∈ frameStarts rs, ∀ c, e.Performs c → c.drives = false

theorem Quiet.head {rs : List (Engine κ)} (h : Quiet (e :: rs)) :
    e.overflow.isEmpty = true → ∀ c, e.Performs c → c.drives = false := fun hEmpty =>
  h e (List.mem_filter.mpr ⟨List.mem_cons_self, hEmpty⟩)

theorem Quiet.of_subset {rs rs' : List (Engine κ)} (h : Quiet rs) (hSub : ∀ e ∈ rs', e ∈ rs) :
    Quiet rs' := by
  intro e he
  obtain ⟨hMem, hEmpty⟩ := List.mem_filter.mp he
  exact h e (List.mem_filter.mpr ⟨hSub e hMem, hEmpty⟩)

theorem conserves_driveWithin (cap budget : Nat) : ∀ (frames : Nat) (e : Engine κ),
    Quiet (rounds budget e) →
      Conserves (rounds budget e) e (driveWithin render cap budget frames e).2 := by
  induction budget with
  | zero =>
      intro frames e _
      rw [driveWithin_zero, rounds]
      have hAsked := conserves_nil (echoes_askSink e) (overflow_askSink e)
      split
      · exact hAsked.trans (conserves_nil rfl rfl)
      · exact hAsked
  | succ budget ih =>
      intro frames e hQuiet
      rw [rounds] at hQuiet ⊢
      rw [driveWithin_succ]
      have hAsked := conserves_nil (echoes_askSink e) (overflow_askSink e)
      split
      · rename_i hWants
        rw [if_pos hWants] at hQuiet
        have hRound := conserves_round hQuiet.head
        have hRest := ih (frames + (driveRound render e.askSink.2).1) _
          (hQuiet.of_subset fun d hd => List.mem_cons_of_mem _ hd)
        exact hAsked.trans (hRound.trans hRest)
      · exact hAsked

/-- The answer of a drive that is not cut off is how many of its rounds rendered a frame. -/
theorem driveWithin_count (cap budget : Nat) : ∀ (frames count : Nat) (e : Engine κ),
    (driveWithin render cap budget frames e).1 = .ok count →
      count = frames + (frameStarts (rounds budget e)).length := by
  induction budget with
  | zero =>
      intro frames count e h
      rw [driveWithin_zero] at h
      split at h
      · simp at h
      · exact (Except.ok.inj h).symm
  | succ budget ih =>
      intro frames count e h
      rw [driveWithin_succ] at h
      rw [rounds]
      split at h
      · rename_i hWants
        rw [if_pos hWants, ih _ _ _ h]
        have hOne : (driveRound render e.askSink.2).1 =
            if e.askSink.2.overflow.isEmpty then 1 else 0 := by
          unfold driveRound
          split <;> rfl
        rw [hOne]
        simp only [frameStarts, List.filter_cons]
        split
        · rw [List.length_cons]
          omega
        · omega
      · rename_i hNot
        rw [if_neg hNot]
        exact (Except.ok.inj h).symm

/-- The rounds of a `write`. -/
def writeRounds (e : Engine κ) : List (Engine κ) :=
  if e.state = .running ∧ e.hasSink = true then rounds e.settings.maxWritesPerDrive e else []

/-- The rounds of a call. -/
def callRounds (e : Engine κ) : DriveCall → List (Engine κ)
  | .play =>
    if e.state = .running then []
    else writeRounds ({ e with state := .running }.log [.info "Starting audio."])
  | .write => writeRounds e
  | .elsewhere _ => []

/-- The engine after a call. -/
def call (e : Engine κ) : DriveCall → Engine κ
  | .play => e.play.2
  | .write => e.write.2
  | .elsewhere sink => { e with sink := e.sink.map fun _ => sink }

/-- The engine after a run. -/
def run (e : Engine κ) (calls : List DriveCall) : Engine κ :=
  calls.foldl call e

/-- The rounds of a run. -/
def runRounds : Engine κ → List DriveCall → List (Engine κ)
  | _, [] => []
  | e, c :: calls => e.callRounds c ++ (e.call c).runRounds calls

theorem conserves_writeWith (hQuiet : Quiet e.writeRounds) :
    Conserves e.writeRounds e (writeWith render e).2 := by
  unfold writeRounds at hQuiet ⊢
  unfold writeWith
  by_cases hRunning : e.state = .running
  · rw [if_neg (not_not_intro hRunning)]
    by_cases hSink : e.hasSink = true
    · rw [if_pos ⟨hRunning, hSink⟩] at hQuiet ⊢
      rw [if_pos hSink]
      exact conserves_driveWithin _ _ _ _ hQuiet
    · rw [if_neg (fun h => hSink h.2), if_neg hSink]
      exact conserves_nil rfl rfl
  · rw [if_pos hRunning, if_neg (fun h => hRunning h.1)]
    exact conserves_nil rfl rfl

theorem conserves_call (c : DriveCall) (hQuiet : Quiet (e.callRounds c)) :
    Conserves (e.callRounds c) e (e.call c) := by
  cases c with
  | write => exact conserves_writeWith hQuiet
  | elsewhere sink => exact conserves_nil rfl rfl
  | play =>
      unfold callRounds at hQuiet ⊢
      unfold call play playWith
      by_cases hRunning : e.state = .running
      · rw [if_pos hRunning, if_pos hRunning]
        exact conserves_nil rfl rfl
      · rw [if_neg hRunning] at hQuiet ⊢
        rw [if_neg hRunning]
        have hStarted : Conserves [] e
            ({ e with state := .running }.log [.info "Starting audio."]) :=
          conserves_nil rfl rfl
        exact hStarted.trans (conserves_writeWith hQuiet)

theorem conserves_run (calls : List DriveCall) : ∀ e : Engine κ, Quiet (e.runRounds calls) →
    Conserves (e.runRounds calls) e (e.run calls) := by
  induction calls with
  | nil => intro e _; exact conserves_nil rfl rfl
  | cons c calls ih =>
      intro e hQuiet
      rw [runRounds] at hQuiet ⊢
      have hFirst := conserves_call c (hQuiet.of_subset fun d hd => List.mem_append_left _ hd)
      exact hFirst.trans
        (ih (e.call c) (hQuiet.of_subset fun d hd => List.mem_append_right _ hd))

/--
**Backpressure never changes the audio.**  What the sink takes in a run that starts with
nothing left over, followed by what is left over at its end, are the frames that the
same engine renders without a sink; and but for the playback it ends as that engine does.
-/
theorem run_conserves_stream (calls : List DriveCall) (hEmpty : e.overflow = #[])
    (hQuiet : Quiet (e.runRounds calls)) :
    (e.runRounds calls).flatMap accepted ++ (e.run calls).overflow.toList =
        (renderMany render (frameStarts (e.runRounds calls)).length e).1.flatMap Array.toList ∧
      (e.run calls).Echoes (renderMany render (frameStarts (e.runRounds calls)).length e).2 := by
  obtain ⟨hEcho, hStream⟩ := conserves_run calls e hQuiet e (.refl e)
  rw [renderMany_snd]
  refine ⟨?_, hEcho⟩
  rw [← hStream, hEmpty]
  rfl

/-! ### What the rounds of a run go through -/

section Chains

variable {r : Engine κ → Engine κ → Prop}

theorem chain_rounds (hWork : ∀ e e', Work e e' → r e e') (hRender : ∀ e, Chain r e (render e))
    (budget : Nat) : ∀ {d e : Engine κ}, d ∈ rounds budget e → Chain r e d := by
  induction budget with
  | zero => intro d e h; exact absurd h List.not_mem_nil
  | succ budget ih =>
      intro d e h
      have hAsk : Chain r e e.askSink.2 := chain_of_touches hWork (touches_askSink e)
      rw [rounds] at h
      split at h
      · rcases List.mem_cons.mp h with rfl | hRest
        · exact hAsk
        · exact hAsk.trans ((driveRound_chain hWork hRender e.askSink.2).trans (ih hRest))
      · exact absurd h List.not_mem_nil

theorem chain_callRounds (hWork : ∀ e e', Work e e' → r e e')
    (hRender : ∀ e, Chain r e (render e)) (c : DriveCall) (h : d ∈ e.callRounds c) :
    Chain r e d := by
  have hWrite : ∀ e : Engine κ, d ∈ e.writeRounds → Chain r e d := by
    intro e h
    unfold writeRounds at h
    split at h
    · exact chain_rounds hWork hRender _ h
    · exact absurd h List.not_mem_nil
  cases c with
  | write => exact hWrite e h
  | elsewhere sink => exact absurd h List.not_mem_nil
  | play =>
      simp only [callRounds] at h
      split at h
      · exact absurd h List.not_mem_nil
      · exact (chain_of_touches hWork (touches_drive e _ _ _ _)).trans (hWrite _ h)

theorem chain_call (hWork : ∀ e e', Work e e' → r e e') (hRender : ∀ e, Chain r e (render e))
    (c : DriveCall) (e : Engine κ) : Chain r e (e.call c) := by
  cases c with
  | play => exact playWith_chain hWork hRender e
  | write => exact writeWith_chain hWork hRender e
  | elsewhere sink => exact chain_of_touches hWork (touches_drive e _ _ _ _)

theorem chain_runRounds (hWork : ∀ e e', Work e e' → r e e')
    (hRender : ∀ e, Chain r e (render e)) (calls : List DriveCall) :
    ∀ {e : Engine κ}, d ∈ e.runRounds calls → Chain r e d := by
  induction calls with
  | nil => intro e h; exact absurd h List.not_mem_nil
  | cons c calls ih =>
      intro e h
      rcases List.mem_append.mp h with hFirst | hRest
      · exact chain_callRounds hWork hRender c hFirst
      · exact (chain_call hWork hRender c e).trans (ih hRest)

end Chains

/-! ### Engines on which only messages wait -/

theorem OnlyMessages.works {e e' : Engine κ} (h : e.OnlyMessages) (hWorks : Chain Work e e') :
    e'.OnlyMessages :=
  hWorks.keeps (fun _ _ hWork hd => hd.of_agenda hWork.agenda) h

theorem OnlyMessages.performLogged (h : e.OnlyMessages) {c : Command}
    (hMessage : c.isMessage = true) (frame : Engine κ → Engine κ) :
    (performLogged frame e c).OnlyMessages := by
  obtain ⟨journal, hEq⟩ := performLogged_eq frame e c
  rw [hEq]
  rcases performWith_passive frame (Command.isPassive_of_isMessage hMessage) e with
    ⟨due, commands, rfl⟩ | hTouches
  · simp [Command.isMessage] at hMessage
  · exact (h.works (Chain.mono (fun _ _ hTouch => .touch hTouch) hTouches)).of_agenda rfl

/-- Messages put nothing on the agenda, and neither does the rest of a frame. -/
theorem OnlyMessages.render (h : e.OnlyMessages) : e.render.OnlyMessages := by
  obtain ⟨hDue, hRest⟩ := h.beginFrame
  rw [render_eq_commands]
  refine OnlyMessages.works ?_ (works_finishFrame _)
  refine List.foldlRecOn (motive := OnlyMessages) _ _ hRest fun d hd c hc => ?_
  obtain ⟨action, hAction, hc⟩ := List.mem_flatten.mp hc
  exact hd.performLogged (hDue action hAction c hc) _

/-- A frame performs only messages, where only these wait. -/
theorem Performs.isMessage {c : Command} (hPerforms : e.Performs c) (h : e.OnlyMessages) :
    c.isMessage = true := by
  have hDue : ∀ {before after : List Command} {c : Command},
      e.beginFrame.1.flatten = before ++ c :: after → c.isMessage = true := by
    intro before after c hSplit
    have hc : c ∈ e.beginFrame.1.flatten := by simp [hSplit]
    obtain ⟨action, hAction, hc⟩ := List.mem_flatten.mp hc
    exact h.beginFrame.1 action hAction c hc
  cases hPerforms with
  | due hSplit => exact hDue hSplit
  | @nested _ _ _ outer _ _ hSplit hFrames _ =>
      -- A message renders no frames, so nothing is nested in it.
      have hNone := Command.frames_of_isMessage (hDue hSplit)
      omega

theorem onlyMessages_runRounds (h : e.OnlyMessages) (calls : List DriveCall)
    (hd : d ∈ e.runRounds calls) : d.OnlyMessages :=
  (chain_runRounds (r := fun e e' => e.OnlyMessages → e'.OnlyMessages)
    (fun _ _ hWork h => h.of_agenda hWork.agenda) (fun _ => .single OnlyMessages.render) calls
    hd).keeps (fun _ _ hStep => hStep) h

/-- Where only messages wait, no callback drives or stops. -/
theorem OnlyMessages.quiet (h : e.OnlyMessages) (calls : List DriveCall) :
    Quiet (e.runRounds calls) := by
  intro d hd c hPerforms
  have hMessage := hPerforms.isMessage (onlyMessages_runRounds h calls (List.mem_of_mem_filter hd))
  cases c <;> first | rfl | simp [Command.isMessage] at hMessage

/-- A sink that always wants more, takes nothing every other time, and otherwise says that it took
more than there was. -/
def haltingSink : Sink :=
  .other (fun _ => true) fun i => if i % 2 = 0 then 0 else 1000

omit [CustomKind κ] in
theorem askSink_halting (h : e.sink = some haltingSink) : e.askSink.1 = true := by
  simp [askSink, h, haltingSink, Sink.ask]

/-- The bang that is due in the first frame sets the pitch.  The sink never has enough, so that both
drives of this run are cut off. -/
theorem run_conserves_stream_chime :
    (chime.withSink haltingSink).beginFrame.1.length = 1 ∧
      (chime.withSink haltingSink).overflow = #[] ∧
      Quiet ((chime.withSink haltingSink).runRounds [.play, .play]) ∧
      frameStarts ((chime.withSink haltingSink).runRounds [.play, .play]) ≠ [] ∧
      ((chime.withSink haltingSink).runRounds [.play, .play]).flatMap accepted ++
          ((chime.withSink haltingSink).run [.play, .play]).overflow.toList =
        (renderMany render (frameStarts ((chime.withSink haltingSink).runRounds
          [.play, .play])).length (chime.withSink haltingSink)).1.flatMap Array.toList := by
  have hChime : chime.beginFrame.1.length = 1 ∧
      (∀ action ∈ chime.agenda.actions, ∀ c ∈ action, c.isMessage = true) ∧
      chime.overflow.isEmpty = true ∧ chime.state = .idle ∧
      chime.settings.maxWritesPerDrive = 100 := by
    decide +kernel
  -- From here on only these facts matter, and not what the engine looks like.
  generalize chime = e at hChime ⊢
  obtain ⟨hLength, hMessages, hNone, hIdle, hBudget⟩ := hChime
  have hEmpty : (e.withSink haltingSink).overflow = #[] := Array.isEmpty_iff.mp hNone
  have hOnly : (e.withSink haltingSink).OnlyMessages := hMessages
  have hQuiet := hOnly.quiet [.play, .play]
  have hStarts : frameStarts ((e.withSink haltingSink).runRounds [.play, .play]) ≠ [] := by
    have hNotRunning : (e.withSink haltingSink).state ≠ .running := by
      rw [show (e.withSink haltingSink).state = .idle from hIdle]
      decide
    rw [runRounds, callRounds, if_neg hNotRunning, writeRounds, if_pos ⟨rfl, rfl⟩,
      show (({ e.withSink haltingSink with state := .running } : Engine Empty).log
        [.info "Starting audio."]).settings.maxWritesPerDrive = 99 + 1 from hBudget, rounds,
      if_pos (askSink_halting rfl)]
    refine List.ne_nil_of_mem (List.mem_filter.mpr
      ⟨List.mem_append_left _ (List.mem_cons_self ..), ?_⟩)
    rw [overflow_askSink]
    exact hNone
  exact ⟨hLength, hEmpty, hQuiet, hStarts, (run_conserves_stream [.play, .play] hEmpty hQuiet).1⟩

end Engine

end Patchbay
