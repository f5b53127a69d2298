import Mathlib.Algebra.Order.Floor.Div
import Patchbay.Proofs.Ring

/-
How many rounds a drive into a ring makes, to the round.

A drive is over when the ring is full.  What one round offers is what is left over, if
anything is, and a new frame otherwise, and what does not fit into the ring is left over
then.  So a drive makes as many rounds as there are frames in the room that the leftover
samples do not fill, and one more if there are such samples.  `framesToFill` and
`roundsToFill` are these counts, and all that is to be known about them is what one
round takes off.  The rest is one induction along the drive, `Feeds.drive_induction`, where
the ring is full, or the budget is used up before that, or a round is made: the drive is cut
off exactly if the count exceeds the budget.

What goes into the ring needs no count: a drive conserves the stream of samples, and a
full ring has taken as many of them as it had room for.
-/

namespace Patchbay

/-! ### Counting rounds -/

/-- How many frames of a length fill so much room, behind so many samples that are left over. -/
def framesToFill (room left length : Nat) : Nat :=
  (room - left) ⌈/⌉ length

/-- How many rounds fill so much room. -/
def roundsToFill (room left length : Nat) : Nat :=
  if room = 0 then 0 else framesToFill room left length + if left = 0 then 0 else 1

/-- How many samples a round offers. -/
def offered (left length : Nat) : Nat :=
  if left = 0 then length else left

section Counts

variable {room left length : Nat}

theorem framesToFill_of_le (h : room ≤ left) :
    framesToFill room left length = 0 := by
  rw [framesToFill, Nat.sub_eq_zero_of_le h, zero_ceilDiv]

/-- One frame takes its length off the room. -/
theorem ceilDiv_eq_succ (hLength : 1 ≤ length) (hRoom : 0 < room) :
    room ⌈/⌉ length = (room - length) ⌈/⌉ length + 1 := by
  rw [Nat.ceilDiv_eq_add_pred_div, Nat.ceilDiv_eq_add_pred_div]
  by_cases hMore : length ≤ room
  · rw [show room + length - 1 = room - length + length - 1 + length by omega,
      Nat.add_div_right _ hLength]
  · rw [Nat.sub_eq_zero_of_le (Nat.le_of_not_le hMore),
      show room + length - 1 = room - 1 + length by omega, Nat.add_div_right _ hLength,
      Nat.div_eq_of_lt (by omega), Nat.div_eq_of_lt (by omega)]

/-- A round that offers a frame takes that frame off the count. -/
theorem framesToFill_round (left : Nat) (hLength : 1 ≤ length) (hRoom : 0 < room) :
    framesToFill room left length =
      framesToFill (room - offered left length) (offered left length - room) length +
        if left = 0 then 1 else 0 := by
  have hRest : room - offered left length - (offered left length - room) =
      room - offered left length := by omega
  rw [framesToFill, framesToFill, hRest, offered]
  by_cases hLeft : left = 0
  · rw [if_pos hLeft, if_pos hLeft, hLeft, Nat.sub_zero, ceilDiv_eq_succ hLength hRoom]
  · rw [if_neg hLeft, if_neg hLeft, Nat.add_zero]

/-- A round takes one off the count. -/
theorem roundsToFill_round (left : Nat) (hLength : 1 ≤ length) (hRoom : 0 < room) :
    roundsToFill room left length =
      roundsToFill (room - offered left length) (offered left length - room) length + 1 := by
  have hFrames := framesToFill_round left hLength hRoom
  rw [roundsToFill, if_neg (Nat.pos_iff_ne_zero.mp hRoom), hFrames, roundsToFill]
  by_cases hFull : room - offered left length = 0
  · rw [if_pos hFull, framesToFill_of_le (by omega)]
    by_cases hLeft : left = 0
    · rw [if_pos hLeft, if_pos hLeft]
    · rw [if_neg hLeft, if_neg hLeft]
  · have hNone : offered left length - room = 0 := by omega
    rw [if_neg hFull, hNone, if_pos rfl]
    by_cases hLeft : left = 0
    · rw [if_pos hLeft, if_pos hLeft, Nat.add_zero, Nat.add_zero]
    · rw [if_neg hLeft, if_neg hLeft, Nat.add_zero]

end Counts

namespace Engine

variable {κ : Type} [CustomKind κ] {e : Engine κ} {capacity length : Nat} {queue : Array Float32}

/-! ### Frames -/

/-- A command that neither drives nor renders leaves the frame counter alone. -/
theorem frame_performLogged {c : Command} (hDrives : c.drives = false) (hFrames : c.frames = 0)
    (e : Engine κ) : (performLogged render e c).frame = e.frame := by
  have hWork : ∀ {e' : Engine κ}, Chain Work e e' → e'.frame = e.frame := fun h =>
    h.keeps (p := fun e' => e'.frame = e.frame) (fun _ _ hStep he => hStep.frame.trans he) rfl
  have hTouch : ∀ {e' : Engine κ}, Chain Touch e e' → e'.frame = e.frame := fun h =>
    hWork (chain_of_touches (fun _ _ hStep => hStep) h)
  obtain ⟨journal, hEq⟩ := performLogged_eq render e c
  rw [hEq]
  show (performWith render c e).2.frame = e.frame
  cases c with
  | render n =>
      obtain rfl : n = 0 := hFrames
      rfl
  | skip n =>
      obtain rfl : n = 0 := hFrames
      rfl
  | send name m => exact hTouch (touches_deliver e _)
  | emit node outlet m => exact hTouch (touches_deliver e _)
  | tick node => exact hWork (works_tick e _)
  | play => exact absurd hDrives (by decide)
  | write => exact absurd hDrives (by decide)
  | stop => exact absurd hDrives (by decide)
  | _ => rfl

/-- A frame counts once, if no callback in it drives or renders. -/
theorem frame_render (hQuiet : ∀ c, e.Performs c → c.drives = false)
    (hStill : ∀ c, e.Performs c → c.frames = 0) : e.render.frame = e.frame + 1 := by
  have hFold : ∀ (l before : List Command), e.beginFrame.1.flatten = before ++ l →
      (l.foldl (performLogged render)
        (before.foldl (performLogged render) e.beginFrame.2)).frame =
          (before.foldl (performLogged render) e.beginFrame.2).frame := by
    intro l
    induction l with
    | nil => intro before _; rfl
    | cons c l ih =>
        intro before hSplit
        have hNext := ih (before ++ [c]) (by rw [hSplit, List.append_assoc]; rfl)
        rw [List.foldl_append, List.foldl_cons, List.foldl_nil] at hNext
        rw [List.foldl_cons, hNext]
        exact frame_performLogged (hQuiet c (.due hSplit)) (hStill c (.due hSplit)) _
  have hFinish : ∀ d : Engine κ, d.finishFrame.frame = d.frame := fun d =>
    (works_finishFrame d).keeps (p := fun d' => d'.frame = d.frame)
      (fun _ _ hStep hd => hStep.frame.trans hd) rfl
  rw [render_eq_commands, hFinish]
  exact hFold _ [] rfl

/-- A round moves the frame counter by one if it renders a frame in which no callback renders
another, and otherwise not at all. -/
theorem frame_round (hQuiet : e.overflow.isEmpty = true → ∀ c, e.Performs c → c.drives = false)
    (hStill : e.overflow.isEmpty = true → ∀ c, e.Performs c → c.frames = 0) :
    (driveRound render e).2.frame = e.frame + if e.overflow.isEmpty = true then 1 else 0 := by
  by_cases hEmpty : e.overflow.isEmpty = true
  · obtain ⟨sink, journal, hRound⟩ := driveRound_of_empty hEmpty
    rw [hRound, if_pos hEmpty]
    exact frame_render (hQuiet hEmpty) (hStill hEmpty)
  · obtain ⟨sink, journal, hRound⟩ := driveRound_of_not_empty (Bool.eq_false_iff.mpr hEmpty)
    rw [hRound, if_neg hEmpty]
    rfl

theorem size_output_render (e : Engine κ) : e.render.output.size = e.output.size :=
  (changes_render e).keeps (p := fun d => d.output.size = e.output.size)
    (fun _ _ hChange hd => hChange.lengths.2.trans hd) rfl

theorem length_nextSamples (n : Nat) : ∀ e : Engine κ,
    (e.nextSamples n).length = n * e.output.size := by
  induction n with
  | zero => intro e; rw [Nat.zero_mul]; rfl
  | succ n ih =>
      intro e
      show (e.render.output.toList ++ e.render.nextSamples n).length = _
      rw [List.length_append, ih, Array.length_toList, size_output_render, Nat.succ_mul,
        Nat.add_comm]

/-! ### Rounds -/

/-- The engine feeds a ring, which holds these samples, with frames of a length. -/
structure Feeds (capacity : Nat) (queue : Array Float32) (length : Nat) (e : Engine κ) : Prop where
  sink : e.sink = some (.ring capacity queue)
  frame : e.output.size = length

namespace Feeds

omit [CustomKind κ] in
/-- A ring wants more as long as it has room. -/
theorem ask (h : Feeds capacity queue length e) : e.askSink = (decide (0 < e.room), e) := by
  rw [askSink_ring h.sink, room_ring h.sink]
  congr 1
  exact decide_eq_decide.mpr Nat.sub_pos_iff_lt.symm

/-- What one round does to the ring and to what is left over. -/
theorem round (h : Feeds capacity queue length e)
    (hQuiet : e.overflow.isEmpty = true → ∀ c, e.Performs c → c.drives = false) :
    Feeds capacity (queue ++ e.accepted.toArray) length (driveRound render e).2 ∧
      e.accepted.length = min (offered e.overflow.size length) e.room ∧
      (driveRound render e).2.overflow.size = offered e.overflow.size length - e.room ∧
      (driveRound render e).2.state = e.state := by
  rw [driveRound_offers, accepted, room_ring h.sink]
  by_cases hEmpty : e.overflow.isEmpty = true
  · have hNone : e.overflow.size = 0 := Array.isEmpty_iff_size_eq_zero.mp hEmpty
    obtain ⟨hState, hOverflow, hSink⟩ := (deafAt_render (hQuiet hEmpty)).leaves
    have hFrame : e.render.output.size = length := (size_output_render e).trans h.frame
    rw [if_pos hEmpty, if_pos hEmpty, offerFrame, offer_ring (hSink.trans h.sink), offered,
      if_pos hNone]
    refine ⟨⟨rfl, hFrame⟩, ?_, ?_, hState⟩
    · rw [Array.length_toList, Array.size_extract, hFrame]
      omega
    · show (e.render.overflow ++ e.render.output.extract _ _).size = _
      rw [Array.size_append, Array.size_extract, hOverflow, hNone, hFrame]
      omega
  · have hSome : e.overflow.size ≠ 0 := fun hNone =>
      hEmpty (Array.isEmpty_iff_size_eq_zero.mpr hNone)
    rw [if_neg hEmpty, if_neg hEmpty, offerLeft, offer_ring h.sink, offered, if_neg hSome]
    refine ⟨⟨rfl, h.frame⟩, ?_, ?_, rfl⟩
    · rw [Array.length_toList, Array.size_extract]
      omega
    · show (e.overflow.extract _ _).size = _
      rw [Array.size_extract]
      omega

/-- What a round offers is taken off the room. -/
theorem room_round (h : Feeds capacity queue length e)
    (hQuiet : e.overflow.isEmpty = true → ∀ c, e.Performs c → c.drives = false) :
    (driveRound render e).2.room = e.room - offered e.overflow.size length := by
  obtain ⟨hFeeds, hAccepted, -, -⟩ := h.round hQuiet
  have hRoom := room_ring h.sink
  have hSize : (queue ++ e.accepted.toArray).size = queue.size + e.accepted.length := by simp
  rw [room_ring hFeeds.sink, hSize, hAccepted]
  omega

/-- The count of frames that a round adds. -/
theorem count_round (e : Engine κ) :
    (driveRound render e).1 = if e.overflow.size = 0 then 1 else 0 := by
  unfold driveRound
  by_cases hNone : e.overflow.size = 0
  · rw [if_pos (Array.isEmpty_iff_size_eq_zero.mpr hNone), if_pos hNone]
  · rw [if_neg fun hEmpty => hNone (Array.isEmpty_iff_size_eq_zero.mp hEmpty), if_neg hNone]

/-! ### Drives -/

/-- Nothing is offered to a ring that is full. -/
theorem drive_full (h : Feeds capacity queue length e) (hFull : e.room = 0)
    (cap budget frames : Nat) :
    rounds budget e = [] ∧ driveWithin render cap budget frames e = (.ok frames, e) := by
  have hWants : ¬ (decide (0 < e.room) = true) := by
    rw [hFull]
    decide
  cases budget with
  | zero => exact ⟨rfl, by rw [driveWithin_zero, h.ask, if_neg hWants]⟩
  | succ budget =>
      refine ⟨?_, ?_⟩
      · rw [rounds, h.ask, if_neg hWants]
      · rw [driveWithin_succ, h.ask, if_neg hWants]

/-- A drive into a ring that has room makes a round and goes on with one round less. -/
theorem drive_room (h : Feeds capacity queue length e) (hRoom : 0 < e.room)
    (cap budget frames : Nat) :
    rounds (budget + 1) e = e :: rounds budget (driveRound render e).2 ∧
      driveWithin render cap (budget + 1) frames e =
        driveWithin render cap budget (frames + if e.overflow.size = 0 then 1 else 0)
          (driveRound render e).2 := by
  have hWants : decide (0 < e.room) = true := decide_eq_true hRoom
  refine ⟨?_, ?_⟩
  · rw [rounds, h.ask, if_pos hWants]
  · rw [driveWithin_succ, h.ask, if_pos hWants, count_round]

/-- **Induction along a drive into a ring.**  The ring is full, or the budget is used up before
that, or a round is made. -/
theorem drive_induction {motive : Nat → Nat → Array Float32 → Engine κ → Prop}
    (full : ∀ budget frames queue e, Feeds capacity queue length e → e.room = 0 →
      motive budget frames queue e)
    (out : ∀ frames queue e, Feeds capacity queue length e → 0 < e.room →
      motive 0 frames queue e)
    (round : ∀ budget frames queue e, Feeds capacity queue length e → 0 < e.room →
      (e.overflow.isEmpty = true → ∀ c, e.Performs c → c.drives = false) →
      motive budget (frames + if e.overflow.size = 0 then 1 else 0) (queue ++ e.accepted.toArray)
        (driveRound render e).2 →
      motive (budget + 1) frames queue e) (budget : Nat) :
    ∀ (frames : Nat) {queue : Array Float32} {e : Engine κ}, Feeds capacity queue length e →
      Quiet (rounds budget e) → motive budget frames queue e := by
  induction budget with
  | zero =>
      intro frames queue e h _
      by_cases hRoom : 0 < e.room
      · exact out frames queue e h hRoom
      · exact full 0 frames queue e h (Nat.eq_zero_of_not_pos hRoom)
  | succ budget ih =>
      intro frames queue e h hQuiet
      by_cases hRoom : 0 < e.room
      · rw [(h.drive_room hRoom 0 budget frames).1] at hQuiet
        refine round budget frames queue e h hRoom hQuiet.head (ih _ (h.round hQuiet.head).1 ?_)
        exact hQuiet.of_subset fun d hd => List.mem_cons_of_mem _ hd
      · exact full (budget + 1) frames queue e h (Nat.eq_zero_of_not_pos hRoom)

/-- What goes into the ring is what the rounds have accepted, and no more than there is room for. -/
theorem drive (cap budget : Nat) : ∀ (frames : Nat) {queue : Array Float32} {e : Engine κ},
    Feeds capacity queue length e → Quiet (rounds budget e) →
      Feeds capacity (queue ++ ((rounds budget e).flatMap accepted).toArray) length
          (driveWithin render cap budget frames e).2 ∧
        ((rounds budget e).flatMap accepted).length ≤ e.room := by
  refine drive_induction (motive := fun budget frames queue e =>
    Feeds capacity (queue ++ ((rounds budget e).flatMap accepted).toArray) length
        (driveWithin render cap budget frames e).2 ∧
      ((rounds budget e).flatMap accepted).length ≤ e.room) ?full ?out ?round budget
  case full =>
    intro budget frames queue e h hFull
    obtain ⟨hRounds, hDrive⟩ := h.drive_full hFull cap budget frames
    have hNothing : queue ++ (([] : List (Engine κ)).flatMap accepted).toArray = queue :=
      Array.append_empty
    rw [hRounds, hDrive, hNothing]
    exact ⟨h, Nat.zero_le _⟩
  case out =>
    intro frames queue e h hRoom
    have hNothing : queue ++ ((rounds 0 e).flatMap accepted).toArray = queue :=
      Array.append_empty
    rw [driveWithin_zero, h.ask, if_pos (decide_eq_true hRoom), hNothing]
    exact ⟨⟨h.sink, h.frame⟩, Nat.zero_le _⟩
  case round =>
    intro budget frames queue e h hRoom hQuiet hRest
    obtain ⟨hEnd, hFits⟩ := hRest
    obtain ⟨hRounds, hDrive⟩ := h.drive_room hRoom cap budget frames
    have hAccepted := (h.round hQuiet).2.1
    rw [h.room_round hQuiet] at hFits
    rw [hRounds, hDrive, List.flatMap_cons, List.length_append, ← List.append_toArray,
      ← Array.append_assoc]
    exact ⟨hEnd, by omega⟩

/-- **A drive whose budget allows for all rounds fills the ring.** -/
theorem drive_fills (hLength : 1 ≤ length) (cap budget : Nat) : ∀ (frames : Nat)
    {queue : Array Float32} {e : Engine κ}, Feeds capacity queue length e →
      Quiet (rounds budget e) → roundsToFill e.room e.overflow.size length ≤ budget →
        (driveWithin render cap budget frames e).1 =
            .ok (frames + framesToFill e.room e.overflow.size length) ∧
          (driveWithin render cap budget frames e).2.state = e.state ∧
          (driveWithin render cap budget frames e).2.room = 0 ∧
          (rounds budget e).length = roundsToFill e.room e.overflow.size length := by
  refine drive_induction (motive := fun budget frames _ e =>
    roundsToFill e.room e.overflow.size length ≤ budget →
      (driveWithin render cap budget frames e).1 =
          .ok (frames + framesToFill e.room e.overflow.size length) ∧
        (driveWithin render cap budget frames e).2.state = e.state ∧
        (driveWithin render cap budget frames e).2.room = 0 ∧
        (rounds budget e).length = roundsToFill e.room e.overflow.size length)
    ?full ?out ?round budget
  case full =>
    intro budget frames queue e h hFull _
    obtain ⟨hRounds, hDrive⟩ := h.drive_full hFull cap budget frames
    rw [hRounds, hDrive, hFull, framesToFill_of_le (Nat.zero_le _)]
    exact ⟨rfl, rfl, rfl, rfl⟩
  case out =>
    intro frames queue e h hRoom hLe
    have hMore := roundsToFill_round e.overflow.size hLength hRoom
    omega
  case round =>
    intro budget frames queue e h hRoom hQuiet hRest hLe
    obtain ⟨hRounds, hDrive⟩ := h.drive_room hRoom cap budget frames
    obtain ⟨-, -, hLeft, hState⟩ := h.round hQuiet
    have hMore := roundsToFill_round e.overflow.size hLength hRoom
    rw [← h.room_round hQuiet, ← hLeft] at hMore
    obtain ⟨hOk, hKept, hFull, hCount⟩ := hRest (by omega)
    rw [hRounds, hDrive]
    refine ⟨?_, hKept.trans hState, hFull, by rw [List.length_cons, hCount, hMore]⟩
    rw [hOk, framesToFill_round e.overflow.size hLength hRoom, h.room_round hQuiet, hLeft,
      Nat.add_comm (framesToFill _ _ _), Nat.add_assoc]

/-- **A drive whose budget is too small for that uses it up and is cut off.** -/
theorem drive_cut (hLength : 1 ≤ length) (cap budget : Nat) : ∀ (frames : Nat)
    {queue : Array Float32} {e : Engine κ}, Feeds capacity queue length e →
      Quiet (rounds budget e) → budget < roundsToFill e.room e.overflow.size length →
        (driveWithin render cap budget frames e).1 = .error (.runawayGraph cap) ∧
          (driveWithin render cap budget frames e).2.state = .stopped ∧
          (rounds budget e).length = budget := by
  refine drive_induction (motive := fun budget frames _ e =>
    budget < roundsToFill e.room e.overflow.size length →
      (driveWithin render cap budget frames e).1 = .error (.runawayGraph cap) ∧
        (driveWithin render cap budget frames e).2.state = .stopped ∧
        (rounds budget e).length = budget) ?full ?out ?round budget
  case full =>
    intro budget frames queue e h hFull hLess
    rw [roundsToFill, if_pos hFull] at hLess
    exact absurd hLess (Nat.not_lt_zero budget)
  case out =>
    intro frames queue e h hRoom _
    rw [driveWithin_zero, h.ask, if_pos (decide_eq_true hRoom)]
    exact ⟨rfl, rfl, rfl⟩
  case round =>
    intro budget frames queue e h hRoom hQuiet hRest hLess
    obtain ⟨hRounds, hDrive⟩ := h.drive_room hRoom cap budget frames
    have hMore := roundsToFill_round e.overflow.size hLength hRoom
    rw [← h.room_round hQuiet, ← (h.round hQuiet).2.2.1] at hMore
    obtain ⟨hCut, hStopped, hCount⟩ := hRest (by omega)
    rw [hRounds, hDrive]
    exact ⟨hCut, hStopped, by rw [List.length_cons, hCount]⟩

/-- The frame counter goes up by the frames that a drive renders, if no callback renders any. -/
theorem frame_drive (cap budget : Nat) : ∀ (frames : Nat) {queue : Array Float32} {e : Engine κ},
    Feeds capacity queue length e → Quiet (rounds budget e) →
      (∀ d ∈ frameStarts (rounds budget e), ∀ c, d.Performs c → c.frames = 0) →
        (driveWithin render cap budget frames e).2.frame =
          e.frame + (frameStarts (rounds budget e)).length := by
  refine drive_induction (motive := fun budget frames _ e =>
    (∀ d ∈ frameStarts (rounds budget e), ∀ c, d.Performs c → c.frames = 0) →
      (driveWithin render cap budget frames e).2.frame =
        e.frame + (frameStarts (rounds budget e)).length) ?full ?out ?round budget
  case full =>
    intro budget frames queue e h hFull _
    obtain ⟨hRounds, hDrive⟩ := h.drive_full hFull cap budget frames
    rw [hRounds, hDrive]
    rfl
  case out =>
    intro frames queue e h hRoom _
    rw [driveWithin_zero, h.ask, if_pos (decide_eq_true hRoom)]
    rfl
  case round =>
    intro budget frames queue e h hRoom hQuiet hRest hStill
    obtain ⟨hRounds, hDrive⟩ := h.drive_room hRoom cap budget frames
    rw [hRounds] at hStill ⊢
    have hLater := hRest fun d hd => by
      obtain ⟨hMem, hEmpty⟩ := List.mem_filter.mp hd
      exact hStill d (List.mem_filter.mpr ⟨List.mem_cons_of_mem _ hMem, hEmpty⟩)
    rw [hDrive, hLater, frame_round hQuiet fun hEmpty =>
      hStill e (List.mem_filter.mpr ⟨List.mem_cons_self, hEmpty⟩)]
    rw [frameStarts, frameStarts, List.filter_cons]
    split
    · rw [List.length_cons]
      omega
    · rfl

end Feeds

/-! ### Writing -/

/-- The samples that a drive has to hand on: those that are left over and `n` new frames. -/
def stream (e : Engine κ) (n : Nat) : List Float32 :=
  e.overflow.toList ++ e.nextSamples n

/-- A drive that fills the ring hands on as much of the stream as there was room for, and the rest
is left over. -/
theorem Feeds.drive_splits (h : Feeds capacity queue length e) {cap budget frames : Nat}
    (hQuiet : Quiet (rounds budget e))
    (hOk : (driveWithin render cap budget 0 e).1 = .ok frames)
    (hFull : (driveWithin render cap budget 0 e).2.room = 0) :
    ∃ taken : List Float32, taken.length = capacity - queue.size ∧
      e.stream frames = taken ++ (driveWithin render cap budget 0 e).2.overflow.toList ∧
      (driveWithin render cap budget 0 e).2.sink = some (.ring capacity (queue ++ taken.toArray)) ∧
      frames = (frameStarts (rounds budget e)).length := by
  have hFrames : frames = (frameStarts (rounds budget e)).length := by
    have hStarts := driveWithin_count _ _ _ _ _ hOk
    rwa [Nat.zero_add] at hStarts
  obtain ⟨hSunk, hFits⟩ := h.drive cap budget 0 hQuiet
  obtain ⟨-, hStream⟩ := conserves_driveWithin cap budget 0 e hQuiet e (.refl e)
  rw [← hFrames] at hStream
  refine ⟨(rounds budget e).flatMap accepted, ?_, hStream, hSunk.sink, hFrames⟩
  have hSize : ∀ l : List Float32, (queue ++ l.toArray).size = queue.size + l.length := by simp
  have hAll := room_ring hSunk.sink
  have hRoom := room_ring h.sink
  rw [hFull, hSize] at hAll
  omega

theorem length_stream (hFrame : e.output.size = length) (n : Nat) :
    (e.stream n).length = e.overflow.size + n * length := by
  rw [stream, List.length_append, length_nextSamples, hFrame, Array.length_toList]

/--
**A drive into a ring makes exactly the rounds that fill it, or its whole budget.**  No callback
drives or stops the engine; a callback that renders frames of its own is in the way of nothing but
the frame counter.  The frames have the length that the settings say, as they have in every engine
from the beginning on (`size_output_of_served`).
-/
theorem write_rounds (hRunning : e.state = .running) (hSink : e.sink = some (.ring capacity queue))
    (hFrame : e.output.size = e.settings.frameLength) (hLength : 1 ≤ e.settings.frameLength)
    (hQuiet : Quiet e.writeRounds) :
    let frames := framesToFill (capacity - queue.size) e.overflow.size e.settings.frameLength
    let count := roundsToFill (capacity - queue.size) e.overflow.size e.settings.frameLength
    (count ≤ e.settings.maxWritesPerDrive →
      e.write.1 = .ok frames ∧ e.write.2.state = .running ∧ e.writeRounds.length = count ∧
        e.write.2.room = 0 ∧
        e.write.2.sink = some (.ring capacity
          (queue ++ ((e.stream frames).take (capacity - queue.size)).toArray)) ∧
        e.write.2.overflow.toList = (e.stream frames).drop (capacity - queue.size) ∧
        e.write.2.overflow.size =
          e.overflow.size + frames * e.settings.frameLength - (capacity - queue.size) ∧
        ((∀ d ∈ frameStarts e.writeRounds, ∀ c, d.Performs c → c.frames = 0) →
          e.write.2.frame = e.frame + frames)) ∧
    (e.settings.maxWritesPerDrive < count →
      e.write.1 = .error (.runawayGraph e.settings.maxWritesPerDrive) ∧
        e.write.2.state = .stopped ∧
        e.writeRounds.length = e.settings.maxWritesPerDrive) := by
  intro frames count
  have hHas : e.hasSink = true := by
    rw [hasSink, hSink]
    rfl
  have hRounds : e.writeRounds = rounds e.settings.maxWritesPerDrive e :=
    if_pos ⟨hRunning, hHas⟩
  have hWrite : e.write =
      driveWithin render e.settings.maxWritesPerDrive e.settings.maxWritesPerDrive 0 e := by
    rw [write, writeWith, if_neg (not_not_intro hRunning), if_pos hHas]
  have hFeeds : Feeds capacity queue e.settings.frameLength e := ⟨hSink, hFrame⟩
  have hRoom := room_ring hSink
  rw [hRounds] at hQuiet ⊢
  rw [hWrite]
  refine ⟨fun hLe => ?_, fun hLess => ?_⟩
  · obtain ⟨hOk, hState, hFull, hCount⟩ := hFeeds.drive_fills hLength e.settings.maxWritesPerDrive
      _ 0 hQuiet (hRoom ▸ hLe)
    rw [hRoom] at hOk hCount
    rw [Nat.zero_add] at hOk
    change _ = Except.ok frames at hOk
    obtain ⟨taken, hTaken, hSplit, hRing, hStarts⟩ := hFeeds.drive_splits hQuiet hOk hFull
    have hLeft := length_stream hFrame frames
    rw [hSplit, List.length_append, hTaken, Array.length_toList] at hLeft
    refine ⟨hOk, hState.trans hRunning, hCount, hFull, ?_, ?_, ?_, fun hStill => ?_⟩
    · rw [hSplit, List.take_left' hTaken]
      exact hRing
    · rw [hSplit, List.drop_left' hTaken]
    · omega
    · rw [hStarts]
      exact hFeeds.frame_drive _ _ 0 hQuiet hStill
  · obtain ⟨hCut, hStopped, hCount⟩ := hFeeds.drive_cut hLength e.settings.maxWritesPerDrive
      _ 0 hQuiet (hRoom ▸ hLess)
    exact ⟨hCut, hStopped, hCount⟩

/-- Frames have the length that the settings say, from the beginning on. -/
theorem size_output_of_served {start : Engine κ} (h : Served start e)
    (hStart : start.output.size = start.settings.frameLength) :
    e.output.size = e.settings.frameLength := by
  induction h with
  | start => exact hStart
  | @load e' _ source ih =>
      have hApart := apart_load e' source
      rw [hApart.output, hApart.settings]
      exact ih
  | @perform e' _ c ih =>
      exact (changes_perform e' c).keeps (p := fun d => d.output.size = d.settings.frameLength)
        (fun _ _ hChange hd => by rw [hChange.lengths.1, hChange.lengths.2]; exact hd) ih
  | @drain e' _ n ih =>
      unfold drain
      split
      · exact ih
      · exact ih

/-! ### As many rounds as are needed, and one less -/

/-- Three samples are left over, and the ring has room for four. -/
theorem feeds_starved (rounds : Nat) (hRoom : (starved rounds).room = 4) :
    ∃ queue, (starved rounds).sink = some (.ring (narrow rounds).sinkCapacity queue) ∧
      (narrow rounds).sinkCapacity - queue.size = 4 ∧
      (starved rounds).output.size = (starved rounds).settings.frameLength ∧
      (starved rounds).settings = narrow rounds := by
  have hFilling := filling_of_served (served_starved rounds)
  obtain ⟨queue, hSink, -⟩ := hFilling.ring
  refine ⟨queue, hSink, ?_, ?_, hFilling.settings⟩
  · rw [← room_ring hSink, hRoom]
  · exact size_output_of_served (served_starved rounds) Array.size_replicate

theorem write_rounds_starved :
    ((starved 2).state = .running ∧
      (∃ queue, (starved 2).sink = some (.ring (narrow 2).sinkCapacity queue)) ∧
      Quiet (starved 2).writeRounds) ∧
    (starved 2).write.1 = .ok 1 ∧ (starved 2).writeRounds.length = 2 ∧
      (starved 2).write.2.overflow.size = 3 ∧ (starved 2).write.2.frame = (starved 2).frame + 1 ∧
    (starved 1).write.1 = .error (.runawayGraph 1) ∧ (starved 1).writeRounds.length = 1 := by
  have hTwo : (starved 2).state = .running ∧ (starved 2).agenda.actions = [] ∧
      (starved 2).overflow.size = 3 ∧ (starved 2).room = 4 := by
    decide +kernel
  have hOne : (starved 1).state = .running ∧ (starved 1).agenda.actions = [] ∧
      (starved 1).overflow.size = 3 ∧ (starved 1).room = 4 := by
    decide +kernel
  have hOnly : ∀ n, (starved n).agenda.actions = [] → (starved n).OnlyMessages := by
    intro n hNone action hAction
    exact absurd (hNone ▸ hAction) List.not_mem_nil
  have hQuiet : ∀ n, (starved n).agenda.actions = [] → Quiet (starved n).writeRounds := by
    intro n hNone
    exact ((hOnly n hNone).quiet [.write]).of_subset fun d hd => List.mem_append_left _ hd
  obtain ⟨queue₂, hSink₂, hRoom₂, hFrame₂, hSettings₂⟩ := feeds_starved 2 hTwo.2.2.2
  obtain ⟨queue₁, hSink₁, hRoom₁, hFrame₁, hSettings₁⟩ := feeds_starved 1 hOne.2.2.2
  obtain ⟨hFills, -⟩ := write_rounds hTwo.1 hSink₂ hFrame₂ (by rw [hSettings₂]; decide)
    (hQuiet 2 hTwo.2.1)
  obtain ⟨-, hCut⟩ := write_rounds hOne.1 hSink₁ hFrame₁ (by rw [hSettings₁]; decide)
    (hQuiet 1 hOne.2.1)
  rw [hRoom₂, hTwo.2.2.1, hSettings₂] at hFills
  rw [hRoom₁, hOne.2.2.1, hSettings₁] at hCut
  obtain ⟨hOk, -, hCount, -, -, -, hLeft, hCounter⟩ := hFills (by decide)
  obtain ⟨hError, -, hBudget⟩ := hCut (by decide)
  refine ⟨⟨hTwo.1, ⟨queue₂, hSink₂⟩, hQuiet 2 hTwo.2.1⟩, hOk, hCount, hLeft, ?_, hError, hBudget⟩
  refine hCounter fun d hd c hPerforms => ?_
  have hStart : d ∈ (starved 2).runRounds [.write] :=
    List.mem_append_left _ (List.mem_of_mem_filter hd)
  exact Command.frames_of_isMessage
    (hPerforms.isMessage (onlyMessages_runRounds (hOnly 2 hTwo.2.1) [.write] hStart))

end Engine

end Patchbay
