import Patchbay.Proofs.Drive

/-
How many rounds it takes to fill a ring.

A drive into a ring whose capacity is the one that the settings recommend goes on until the
ring is full or its budget is used up.  Within a drive nobody empties the ring, and a round
leaves something over only if it has filled the ring.  So all rounds of a drive bring a whole
frame, but for the first one, which offers what an earlier drive has left over and may bring
no more than a single sample.  A capacity of at most half of what the budget allows pays for
that round, unless the budget is a single one: it is then spent on what is left over.

`Turn` splits everything done with an engine into what concerns the sink and the samples that
are left over and what is done aside of them, and `Filling` is kept by every turn, whatever
the callbacks do.
-/

namespace Patchbay

/-! ### The capacity -/

namespace Settings

theorem sinkCapacity_le (s : Settings) :
    s.sinkCapacity ≤ max (s.maxWritesPerDrive / 2) 1 * s.frameLength := by
  have hFrame : s.frameLength ≤ max (s.maxWritesPerDrive / 2) 1 * s.frameLength :=
    Nat.le_mul_of_pos_left _ (Nat.le_max_right _ _)
  exact Nat.max_le.mpr ⟨Nat.min_le_right _ _, hFrame⟩

/-- One round less than there may be fills a ring. -/
theorem sinkCapacity_le_of_two_le (s : Settings) (h : 2 ≤ s.maxWritesPerDrive) :
    s.sinkCapacity ≤ (s.maxWritesPerDrive - 1) * s.frameLength :=
  Nat.le_trans s.sinkCapacity_le (Nat.mul_le_mul_right _ (by omega))

end Settings

namespace Engine

variable {κ : Type} {e e' : Engine κ}

/-- How many samples the sink has room for, if it is a ring. -/
def room (e : Engine κ) : Nat :=
  (e.sink.map Sink.space).getD 0

/-! ### Rings that are asked and offered samples -/

section Rings

variable {capacity : Nat} {queue : Array Float32}

theorem askSink_ring (h : e.sink = some (.ring capacity queue)) :
    e.askSink = (decide (queue.size < capacity), e) := by
  have hSame : e.withSink (.ring capacity queue) = e := by
    rw [withSink, ← h]
  simp only [askSink, h, Sink.ask, Sink.isReady, hSame]

theorem offer_ring (h : e.sink = some (.ring capacity queue)) (samples : Array Float32) :
    e.offer samples = (min samples.size (capacity - queue.size),
      { e with sink := some (.ring capacity
          (queue ++ samples.extract 0 (min samples.size (capacity - queue.size)))) }) := by
  simp [offer, h, Sink.offer, offerEntries, log]

theorem room_ring (h : e.sink = some (.ring capacity queue)) :
    e.room = capacity - queue.size := by
  simp [room, h, Sink.space]

end Rings

/-! ### Rounds as offers -/

/-- Offer the frame that has been rendered, and keep what is not taken. -/
def offerFrame (e : Engine κ) : Engine κ :=
  { (e.offer e.output).2 with
    overflow := e.overflow ++ e.output.extract (e.offer e.output).1 e.output.size }

/-- Offer what is left over, and keep what is not taken. -/
def offerLeft (e : Engine κ) : Engine κ :=
  { (e.offer e.overflow).2 with
    overflow := e.overflow.extract (e.offer e.overflow).1 e.overflow.size }

theorem driveRound_offers (frame : Engine κ → Engine κ) (e : Engine κ) :
    (driveRound frame e).2 =
      if e.overflow.isEmpty then (frame e).offerFrame else e.offerLeft := by
  unfold driveRound
  split
  · obtain ⟨sink, journal, hOffer⟩ := offer_eq (frame e) (frame e).output
    simp only [offerFrame, hOffer]
  · obtain ⟨sink, journal, hOffer⟩ := offer_eq e e.overflow
    simp only [offerLeft, hOffer]

/-! ### Turns -/

variable [CustomKind κ]

/-- What is done with a sink and with the samples that are left over, one thing at a time, and what
is done aside of them. -/
inductive Turn : Engine κ → Engine κ → Prop
  | aside {e e' : Engine κ} (h : Chain Change e e') (hOverflow : e'.overflow = e.overflow)
      (hSink : e'.sink = e.sink) : Turn e e'
  | ask (e : Engine κ) : Turn e e.askSink.2
  | offerFrame (e : Engine κ) : Turn e e.offerFrame
  | offerLeft (e : Engine κ) : Turn e e.offerLeft
  | forget (e : Engine κ) : Turn e { e with overflow := #[] }

/-- What does not drive and moves neither the sink nor what is left over. -/
theorem turns_of_deaf {f : Engine κ → Engine κ} (h : Chain Change e (f e)) (hDeaf : DeafAt f e) :
    Chain Turn e (f e) :=
  .single (.aside h hDeaf.leaves.2.1 hDeaf.leaves.2.2)

theorem turns_log (e : Engine κ) (entries : List Entry) : Chain Turn e (e.log entries) :=
  .single (.aside (chain_of_touches (fun _ _ h => .work h) (touches_log e entries)) rfl rfl)

/-- A drive may move its state at any time. -/
theorem turns_state (e : Engine κ) (state : State) (entries : List Entry) :
    Chain Turn e ({ e with state }.log entries) :=
  .single (.aside (chain_of_touches (fun _ _ h => .work h)
    (touches_drive e state e.overflow e.sink _)) rfl rfl)

section Commands

variable {render : Engine κ → Engine κ}

theorem turns_driveWithin (hRender : ∀ e, Chain Turn e (render e)) (cap budget : Nat) :
    ∀ (frames : Nat) (e : Engine κ), Chain Turn e (driveWithin render cap budget frames e).2 := by
  induction budget with
  | zero =>
      intro frames e
      rw [driveWithin_zero]
      refine Relation.ReflTransGen.head (.ask e) ?_
      split
      · exact turns_state _ _ _
      · exact .refl
  | succ budget ih =>
      intro frames e
      rw [driveWithin_succ]
      refine Relation.ReflTransGen.head (.ask e) ?_
      split
      · refine Relation.ReflTransGen.trans ?_ (ih _ _)
        rw [driveRound_offers]
        split
        · exact (hRender _).tail (.offerFrame _)
        · exact .single (.offerLeft _)
      · exact .refl

theorem turns_writeWith (hRender : ∀ e, Chain Turn e (render e)) (e : Engine κ) :
    Chain Turn e (writeWith render e).2 := by
  unfold writeWith
  split
  · exact turns_log e _
  · split
    · exact turns_driveWithin hRender _ _ _ e
    · exact turns_log e _

theorem turns_playWith (hRender : ∀ e, Chain Turn e (render e)) (e : Engine κ) :
    Chain Turn e (playWith render e).2 := by
  unfold playWith
  split
  · exact turns_log e _
  · exact (turns_state e _ _).trans (turns_writeWith hRender _)

theorem turns_stop (e : Engine κ) : Chain Turn e e.stop := by
  unfold stop
  split
  · exact Relation.ReflTransGen.head (.forget e) (turns_state _ _ _)
  · exact turns_log e _

theorem turns_performWith (hRender : ∀ e, Chain Turn e (render e)) (c : Command)
    (e : Engine κ) : Chain Turn e (performWith render c e).2 := by
  cases c with
  | send name m =>
      exact turns_of_deaf (chain_of_touches (fun _ _ h => .work h) (touches_deliver e _))
        (deafAt_deliver _ e)
  | emit node outlet m =>
      exact turns_of_deaf (chain_of_touches (fun _ _ h => .work h) (touches_deliver e _))
        (deafAt_deliver _ e)
  | render n =>
      rw [performWith, renderMany_snd]
      exact repeat_chain hRender n e
  | skip n => exact repeat_chain hRender n e
  | tick node =>
      exact turns_of_deaf (changes_of_works (works_tick e (nodeIndex node)))
        (deafAt_tick (nodeIndex node) e)
  | schedule due commands =>
      exact turns_of_deaf (.single (.schedule e due commands)) (deafAt_schedule due commands e)
  | mark topic label => exact turns_log e _
  | play => exact turns_playWith hRender e
  | write => exact turns_writeWith hRender e
  | stop => exact turns_stop e
  | _ => exact .refl

theorem turns_performLogged (hRender : ∀ e, Chain Turn e (render e)) (c : Command)
    (e : Engine κ) : Chain Turn e (performLogged render e c) := by
  obtain ⟨journal, hEq⟩ := performLogged_eq render e c
  rw [hEq]
  exact (turns_performWith hRender c e).tail
    (.aside (.single (.work (.touch (.note _ journal)))) rfl rfl)

end Commands

theorem turns_finishFrame (e : Engine κ) : Chain Turn e e.finishFrame :=
  turns_of_deaf (changes_of_works (works_finishFrame e)) (deafAt_finishFrame e)

theorem turns_renderWith {run : Action → Engine κ → Engine κ}
    (h : ∀ action e, Chain Turn e (run action e)) (e : Engine κ) :
    Chain Turn e (renderWith run e) := by
  refine Relation.ReflTransGen.head (.aside (.single (.beginFrame e)) rfl rfl) ?_
  refine Relation.ReflTransGen.trans ?_ (turns_finishFrame _)
  exact foldl_chain _ (fun e action _ => h action e) _

theorem turns_runWithin (depth : Nat) : ∀ (action : Action) (e : Engine κ),
    Chain Turn e (runWithin depth action e) := by
  induction depth with
  | zero => intro action e; exact .refl
  | succ depth ih =>
      intro action e
      exact foldl_chain _ (fun e c _ => turns_performLogged (turns_renderWith ih) c e) e

theorem turns_render (e : Engine κ) : Chain Turn e e.render :=
  turns_renderWith (turns_runWithin _) e

/-- **Every command is a row of turns**, whatever its callbacks do. -/
theorem turns_perform (e : Engine κ) (c : Command) : Chain Turn e (e.perform c).2 :=
  turns_performWith turns_render c e

/-! ### Loading -/

/-- What belongs to playing is the same, but for the journal. -/
structure Apart (e e' : Engine κ) : Prop where
  settings : e'.settings = e.settings
  output : e'.output = e.output
  overflow : e'.overflow = e.overflow
  sink : e'.sink = e.sink

omit [CustomKind κ] in
theorem Apart.refl (e : Engine κ) : e.Apart e := ⟨rfl, rfl, rfl, rfl⟩

omit [CustomKind κ] in
theorem Apart.trans {e₁ e₂ e₃ : Engine κ} (h₁ : e₁.Apart e₂) (h₂ : e₂.Apart e₃) : e₁.Apart e₃ :=
  ⟨h₂.settings.trans h₁.settings, h₂.output.trans h₁.output, h₂.overflow.trans h₁.overflow,
    h₂.sink.trans h₁.sink⟩

theorem apart_build (e : Engine κ) (read : List (Except Error Statement)) :
    e.Apart (e.build read) := by
  obtain ⟨graph, tables, journal, hEngine⟩ := engine_build e read
  rw [hEngine]
  exact ⟨rfl, rfl, rfl, rfl⟩

theorem apart_finish (e : Engine κ) : e.Apart e.finish.2 := by
  rcases hSetup : e.graph.setupInPlace with ⟨result, graph⟩
  have hResolved : e.Apart { e with graph } := ⟨rfl, rfl, rfl, rfl⟩
  simp only [finish, hSetup]
  cases result with
  | error fault => exact hResolved
  | ok =>
      have hInit : Apart { e with graph } { e with graph }.initNodes := by
        obtain ⟨_, _, _, _, hEngine⟩ := engine_initNodes { e with graph }
        rw [hEngine]
        exact ⟨rfl, rfl, rfl, rfl⟩
      exact (hResolved.trans hInit).trans ⟨rfl, rfl, rfl, rfl⟩

/-- Loading a patch, whether it succeeds or not, does not concern playing. -/
theorem apart_load (e : Engine κ) (source : String) : e.Apart (e.load source).2 := by
  rw [load]
  cases hLoaded : e.loaded with
  | true =>
      rw [loadRead, if_pos hLoaded]
      exact .refl e
  | false =>
      rcases loadRead_cases hLoaded (Patch.read source) with
        ⟨-, hFinish⟩ | ⟨-, done, _, _, -, -, -, hStopped⟩
      · rw [hFinish]
        exact (apart_build e _).trans (apart_finish _)
      · rw [hStopped]
        exact apart_build e done

/-! ### Filling a ring -/

/-- The engine drives a ring of the recommended capacity, which holds at least so many samples.  If
it is driven to the brim, something is left over only when the ring is full. -/
structure Filling (s : Settings) (least : Nat) (brim : Prop) (e : Engine κ) : Prop where
  settings : e.settings = s
  frame : e.output.size = s.frameLength
  ring : ∃ queue, e.sink = some (.ring s.sinkCapacity queue) ∧ least ≤ queue.size ∧
    queue.size ≤ s.sinkCapacity ∧ (brim → e.overflow = #[] ∨ queue.size = s.sinkCapacity)

theorem size_output_mix (channels : Nat) (mixes : List Mix) : ∀ output : Array Float32,
    (mixes.foldl (mix channels) output).size = output.size := by
  induction mixes with
  | nil => intro output; rfl
  | cons x mixes ih =>
      intro output
      rw [List.foldl_cons, ih, mix]
      split
      · exact Array.size_modify
      · rfl

/-- Every change keeps the settings and the length of a frame. -/
theorem Change.lengths (h : Change e e') :
    e'.settings = e.settings ∧ e'.output.size = e.output.size := by
  cases h with
  | schedule due commands => exact ⟨rfl, rfl⟩
  | beginFrame => exact ⟨rfl, rfl⟩
  | work h =>
      cases h with
      | touch h =>
          cases h with
          | _ => exact ⟨rfl, rfl⟩
      | process node =>
          unfold processNode
          split
          · exact ⟨rfl, rfl⟩
          · exact ⟨rfl, size_output_mix _ _ _⟩
      | silence => exact ⟨rfl, Array.size_map⟩
      | endFrame => exact ⟨rfl, rfl⟩

namespace Filling

variable {s : Settings} {least : Nat} {brim : Prop}

omit [CustomKind κ] in
theorem mono (h : Filling s least brim e) {least' : Nat} (hLeast : least' ≤ least) {brim' : Prop}
    (hBrim : brim' → brim) : Filling s least' brim' e := by
  obtain ⟨queue, hSink, hLe, hFits, hFull⟩ := h.ring
  exact ⟨h.settings, h.frame, queue, hSink, Nat.le_trans hLeast hLe, hFits, fun hb => hFull (hBrim hb)⟩

theorem aside (h : Filling s least brim e) (hChanges : Chain Change e e')
    (hOverflow : e'.overflow = e.overflow) (hSink : e'.sink = e.sink) :
    Filling s least brim e' := by
  have hLengths : e'.settings = e.settings ∧ e'.output.size = e.output.size :=
    Chain.keeps (p := fun e₁ => e₁.settings = e.settings ∧ e₁.output.size = e.output.size)
      (fun _ _ hChange he => ⟨hChange.lengths.1.trans he.1, hChange.lengths.2.trans he.2⟩)
      hChanges ⟨rfl, rfl⟩
  refine ⟨hLengths.1.trans h.settings, hLengths.2.trans h.frame, ?_⟩
  rw [hOverflow, hSink]
  exact h.ring

omit [CustomKind κ] in
/-- A frame that is offered fills the ring or goes into it whole. -/
theorem offerFrame (h : Filling s least brim e) :
    Filling s (min s.sinkCapacity (least + s.frameLength)) brim e.offerFrame := by
  obtain ⟨queue, hSink, hLe, hFits, hFull⟩ := h.ring
  have hFrame := h.frame
  rw [Engine.offerFrame, offer_ring hSink]
  refine ⟨h.settings, h.frame, _, rfl, ?_, ?_, fun hBrim => ?_⟩
  · rw [Array.size_append, Array.size_extract]
    omega
  · rw [Array.size_append, Array.size_extract]
    omega
  · by_cases hRoom : e.output.size ≤ s.sinkCapacity - queue.size
    · rcases hFull hBrim with hEmpty | hQueue
      · left
        show e.overflow ++ e.output.extract (min e.output.size _) e.output.size = #[]
        rw [hEmpty, Nat.min_eq_left hRoom, Array.extract_empty_of_stop_le_start (Nat.le_refl _)]
        rfl
      · right
        rw [Array.size_append, Array.size_extract]
        omega
    · right
      rw [Array.size_append, Array.size_extract]
      omega

omit [CustomKind κ] in
/-- What is left over fills the ring or goes into it whole. -/
theorem offerLeft (h : Filling s least brim e) :
    Filling s (min s.sinkCapacity (least + e.overflow.size)) True e.offerLeft := by
  obtain ⟨queue, hSink, hLe, hFits, -⟩ := h.ring
  rw [Engine.offerLeft, offer_ring hSink]
  refine ⟨h.settings, h.frame, _, rfl, ?_, ?_, fun _ => ?_⟩
  · rw [Array.size_append, Array.size_extract]
    omega
  · rw [Array.size_append, Array.size_extract]
    omega
  · by_cases hRoom : e.overflow.size ≤ s.sinkCapacity - queue.size
    · left
      show e.overflow.extract (min e.overflow.size _) e.overflow.size = #[]
      rw [Nat.min_eq_left hRoom, Array.extract_empty_of_stop_le_start (Nat.le_refl _)]
    · right
      rw [Array.size_append, Array.size_extract]
      omega

/-- **Every turn keeps a ring filling.** -/
theorem turn (h : Filling s least brim e) (hTurn : Turn e e') : Filling s least brim e' := by
  have hLeast : least ≤ s.sinkCapacity := by
    obtain ⟨queue, -, hLe, hFits, -⟩ := h.ring
    exact Nat.le_trans hLe hFits
  cases hTurn with
  | aside hChanges hOverflow hSink => exact h.aside hChanges hOverflow hSink
  | ask =>
      obtain ⟨queue, hSink, -⟩ := h.ring
      rw [askSink_ring hSink]
      exact h
  | offerFrame => exact h.offerFrame.mono (by omega) id
  | offerLeft => exact h.offerLeft.mono (by omega) fun _ => trivial
  | forget =>
      obtain ⟨queue, hSink, hLe, hFits, -⟩ := h.ring
      exact ⟨h.settings, h.frame, queue, hSink, hLe, hFits, fun _ => .inl rfl⟩

theorem turns (h : Filling s least brim e) (hTurns : Chain Turn e e') :
    Filling s least brim e' :=
  hTurns.keeps (fun _ _ hTurn he => he.turn hTurn) h

/-- A drive to the brim that can afford a frame for every frame that there is room for is not cut
off. -/
theorem drive_ok (cap budget : Nat) : ∀ (frames : Nat) {least : Nat} {e : Engine κ},
    Filling s least True e → s.sinkCapacity - least ≤ budget * s.frameLength →
      ∃ n, (driveWithin render cap budget frames e).1 = .ok n := by
  induction budget with
  | zero =>
      intro frames least e h hRoom
      obtain ⟨queue, hSink, hLe, hFits, -⟩ := h.ring
      have hFull : ¬queue.size < s.sinkCapacity := by omega
      rw [driveWithin_zero, askSink_ring hSink, if_neg (by simpa using hFull)]
      exact ⟨frames, rfl⟩
  | succ budget ih =>
      intro frames least e h hRoom
      obtain ⟨queue, hSink, -, -, hFull⟩ := h.ring
      rw [driveWithin_succ, askSink_ring hSink]
      by_cases hWants : queue.size < s.sinkCapacity
      · have hEmpty : e.overflow = #[] := (hFull trivial).resolve_right (Nat.ne_of_lt hWants)
        rw [if_pos (by simpa using hWants), driveRound_offers, if_pos (by simp [hEmpty])]
        refine ih _ (h.turns (turns_render e)).offerFrame ?_
        rw [Nat.succ_mul] at hRoom
        omega
      · rw [if_neg (by simpa using hWants)]
        exact ⟨frames, rfl⟩

/-- A drive that may make one round is cut off if that round brings less than there is room for. -/
theorem single_drive_ok_iff (h : Filling s 0 False e) (hLeft : e.overflow ≠ #[]) (cap : Nat) :
    (∃ n, (driveWithin render cap 1 0 e).1 = .ok n) ↔ ¬e.overflow.size < e.room := by
  obtain ⟨queue, hSink, -, hFits, -⟩ := h.ring
  rw [driveWithin_succ, askSink_ring hSink, room_ring hSink]
  by_cases hWants : queue.size < s.sinkCapacity
  · rw [if_pos (by simpa using hWants), driveRound_offers, if_neg (by simpa using hLeft),
      driveWithin_zero, Engine.offerLeft, offer_ring hSink, askSink_ring rfl]
    have hFill : (queue ++ e.overflow.extract 0
        (min e.overflow.size (s.sinkCapacity - queue.size))).size < s.sinkCapacity ↔
          e.overflow.size < s.sinkCapacity - queue.size := by
      rw [Array.size_append, Array.size_extract]
      omega
    by_cases hShort : e.overflow.size < s.sinkCapacity - queue.size
    · rw [if_pos (by simpa using hFill.mpr hShort)]
      simp [hShort]
    · rw [if_neg (by simpa using fun hLess => hShort (hFill.mp hLess))]
      simp [hShort]
  · rw [if_neg (by simpa using hWants)]
    exact iff_of_true ⟨0, rfl⟩ (by omega)

/-- **A drive fills the ring within its budget**, unless the budget is one round and goes into too
few samples that were left over. -/
theorem drive_ok_iff (h : Filling s 0 False e) (hBudget : 1 ≤ s.maxWritesPerDrive) :
    (∃ n, (driveWithin render s.maxWritesPerDrive s.maxWritesPerDrive 0 e).1 = .ok n) ↔
      ¬(s.maxWritesPerDrive = 1 ∧ 0 < e.overflow.size ∧ e.overflow.size < e.room) := by
  by_cases hLeft : e.overflow = #[]
  · have hBrim : Filling s 0 True e := by
      obtain ⟨queue, hSink, hLe, hFits, -⟩ := h.ring
      exact ⟨h.settings, h.frame, queue, hSink, hLe, hFits, fun _ => .inl hLeft⟩
    have hEnough : s.sinkCapacity ≤ s.maxWritesPerDrive * s.frameLength :=
      Nat.le_trans s.sinkCapacity_le (Nat.mul_le_mul_right _ (by omega))
    exact iff_of_true (hBrim.drive_ok _ _ 0 (by omega)) (by simp [hLeft])
  · have hSome : 0 < e.overflow.size := Array.size_pos_iff.mpr hLeft
    rcases Nat.eq_or_lt_of_le hBudget with hOne | hMore
    · rw [← hOne, h.single_drive_ok_iff hLeft]
      simp [hSome]
    · refine iff_of_true ?_ fun hSingle => Nat.ne_of_gt hMore hSingle.1
      obtain ⟨budget, hEq⟩ := Nat.exists_eq_add_of_lt hMore
      obtain ⟨queue, hSink, -⟩ := h.ring
      have hEnough := s.sinkCapacity_le_of_two_le hMore
      rw [show s.maxWritesPerDrive - 1 = budget + 1 by omega] at hEnough
      generalize s.maxWritesPerDrive = cap at hEq ⊢
      rw [show cap = budget + 1 + 1 by omega, driveWithin_succ, askSink_ring hSink]
      split
      · rw [driveRound_offers, if_neg (by simpa using hLeft)]
        exact h.offerLeft.drive_ok _ _ _ (by omega)
      · exact ⟨0, rfl⟩

theorem write_ok_iff (h : Filling s 0 False e) (hBudget : 1 ≤ s.maxWritesPerDrive)
    (hRunning : e.state = .running) : (∃ n, (writeWith render e).1 = .ok n) ↔
      ¬(s.maxWritesPerDrive = 1 ∧ 0 < e.overflow.size ∧ e.overflow.size < e.room) := by
  have hSink : e.hasSink = true := by
    obtain ⟨queue, hSink, -⟩ := h.ring
    rw [hasSink, hSink]
    rfl
  rw [writeWith, if_neg (not_not_intro hRunning), if_pos hSink, h.settings]
  exact h.drive_ok_iff hBudget

end Filling

/-! ### Engines that are played and served -/

/-- What can come of an engine whose ring is emptied at the other end between the commands. -/
inductive Served (e : Engine κ) : Engine κ → Prop
  | start : Served e e
  | load {e' : Engine κ} (h : Served e e') (source : String) : Served e (e'.load source).2
  | perform {e' : Engine κ} (h : Served e e') (c : Command) : Served e (e'.perform c).2
  | drain {e' : Engine κ} (h : Served e e') (n : Nat) : Served e (e'.drain n).2

theorem filling_of_served {s : Settings} {registry : Registry κ}
    (h : Served ((Engine.new s registry).withSink (.ring s.sinkCapacity #[])) e) :
    Filling s 0 False e := by
  induction h with
  | start =>
      refine ⟨rfl, Array.size_replicate, #[], rfl, Nat.zero_le _, Nat.zero_le _, False.elim⟩
  | @load e' _ source ih =>
      have hApart := apart_load e' source
      refine ⟨hApart.settings.trans ih.settings, hApart.output ▸ ih.frame, ?_⟩
      rw [hApart.sink, hApart.overflow]
      exact ih.ring
  | perform _ c ih => exact ih.turns (turns_perform _ c)
  | drain _ n ih =>
      obtain ⟨queue, hSink, -, hFits, -⟩ := ih.ring
      rw [drain, hSink]
      refine ⟨ih.settings, ih.frame, _, rfl, Nat.zero_le _, ?_, False.elim⟩
      rw [Array.size_extract]
      omega

/--
**A ring of the recommended capacity is filled within one drive**, whatever the settings, the
patch, the callbacks and what has been taken out of the ring are, if a drive may make two
rounds.  If it may make one, a drive is cut off exactly if less is left over than the ring
has room for, but something.
-/
theorem drives_fill_ring {s : Settings} {registry : Registry κ} (hBudget : 1 ≤ s.maxWritesPerDrive)
    (hServed : Served ((Engine.new s registry).withSink (.ring s.sinkCapacity #[])) e) :
    ((∃ n, e.write.1 = .ok n) ↔
        ¬(e.state = .running ∧ s.maxWritesPerDrive = 1 ∧ 0 < e.overflow.size ∧
          e.overflow.size < e.room)) ∧
      ((∃ n, e.play.1 = .ok n) ↔
        ¬(e.state ≠ .running ∧ s.maxWritesPerDrive = 1 ∧ 0 < e.overflow.size ∧
          e.overflow.size < e.room)) := by
  have hFilling := filling_of_served hServed
  by_cases hRunning : e.state = .running
  · refine ⟨?_, iff_of_true ⟨0, ?_⟩ fun h => h.1 hRunning⟩
    · rw [write, hFilling.write_ok_iff hBudget hRunning]
      simp only [hRunning, true_and]
    · rw [play, playWith, if_pos hRunning]
  · refine ⟨iff_of_true ⟨0, ?_⟩ fun h => hRunning h.1, ?_⟩
    · rw [write, writeWith, if_pos hRunning]
    · have hStarted : Filling s 0 False
          ({ e with state := .running }.log [.info "Starting audio."]) :=
        hFilling.turns (turns_state e _ _)
      rw [play, playWith, if_neg hRunning, hStarted.write_ok_iff hBudget rfl]
      simp only [ne_eq, hRunning, not_false_eq_true, true_and]
      rfl

/-! ### Budgets of two rounds and of one -/

/-- Frames have four samples, and a drive may make so many rounds. -/
def narrow (rounds : Nat) : Settings :=
  (Settings.new 44100 2).withMaxWritesPerDrive rounds

/-- A drive leaves three samples over, and then the ring is emptied. -/
def starved (rounds : Nat) : Engine Empty :=
  (((((Engine.new (narrow rounds) .builtin).withSink (.ring (narrow rounds).sinkCapacity #[])
    |>.perform .play).2.drain 1).2.perform .write).2.drain 4).2

theorem served_starved (rounds : Nat) :
    Served ((Engine.new (narrow rounds) .builtin).withSink
      (.ring (narrow rounds).sinkCapacity #[])) (starved rounds) :=
  .drain (.perform (.drain (.perform .start .play) 1) .write) 4

theorem drives_fill_ring_twoRounds :
    1 ≤ (narrow 2).maxWritesPerDrive ∧
      Served ((Engine.new (narrow 2) .builtin).withSink (.ring (narrow 2).sinkCapacity #[]))
        (starved 2) ∧
      (starved 2).overflow.size = 3 ∧ (starved 2).room = 4 ∧
      ∃ n, (starved 2).write.1 = .ok n := by
  have hLengths : (starved 2).overflow.size = 3 ∧ (starved 2).room = 4 := by
    decide +kernel
  obtain ⟨hWrite, -⟩ := drives_fill_ring (by decide) (served_starved 2)
  refine ⟨by decide, served_starved 2, hLengths.1, hLengths.2, hWrite.mpr ?_⟩
  rintro ⟨-, hOne, -⟩
  exact absurd hOne (by decide)

/-- Not every ring is filled within one drive. -/
theorem starved_write_fails :
    Served ((Engine.new (narrow 1) .builtin).withSink (.ring (narrow 1).sinkCapacity #[]))
        (starved 1) ∧
      ¬ ∃ n, (starved 1).write.1 = .ok n := by
  have hFails : (starved 1).write.1.isOk = false := by
    decide +kernel
  refine ⟨served_starved 1, ?_⟩
  rintro ⟨n, hOk⟩
  rw [hOk] at hFails
  exact Bool.noConfusion hFails

end Engine

end Patchbay
