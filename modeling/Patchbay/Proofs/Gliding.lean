import Patchbay.Kind.Ramp
import Patchbay.Proofs.Whole

/-
Where a ramp ends.

A ramp is worked off sample by sample and handed from one frame to the next, while how far it
has come is counted anew for each sample, from the number of the frame.  The two agree because
frames follow each other without a gap: a run of frames passes through the samples from the
start of the first frame on, one after the other, wherever a buffer ends.  So what has to be
known is the state after any number of samples, and `passing` is that state.

The induction is on the samples passed.  It is carried by two cases: as long as the ramp is not
over, only the value has changed, and what is over once stays over, since the next sample is
farther from the start.  Buffers come in only afterwards, when the state after a frame is read
off as one that is passed.
-/

namespace Patchbay

/-! ### Lengths as exact numbers -/

/-- A finite positive length, as the number of samples that it is. -/
def Double.Lasts (length : Float) (samples : ℚ) : Prop :=
  ∃ significand scale, Double.value length = .finite false significand scale ∧
    0 < significand ∧ samples = significand * 2 ^ scale

theorem BinaryValue.atMost_mono {v : BinaryValue} {m n : Int} (h : m ≤ n)
    (hOver : v.atMost m = true) : v.atMost n = true := by
  cases v with
  | nan => exact hOver
  | infinite negative => exact hOver
  | finite negative significand scale =>
      simp only [BinaryValue.atMost, decide_eq_true_eq] at hOver ⊢
      exact hOver.trans (Int.mul_le_mul_of_nonneg_right h (Int.natCast_nonneg _))

/-- Whether a length is over is decided exactly. -/
theorem Double.Lasts.atMost_iff {length : Float} {samples : ℚ} (h : Lasts length samples)
    (n : Int) : Double.atMost length n = true ↔ samples ≤ n := by
  obtain ⟨significand, scale, hValue, -, rfl⟩ := h
  have hDown : (0 : ℚ) < twoTo (-scale).toNat := cast_twoTo_pos _
  rw [Double.atMost, hValue, BinaryValue.atMost, decide_eq_true_eq, if_neg Bool.false_ne_true,
    ← twoTo_div_twoTo, mul_div_assoc', div_le_iff₀ hDown]
  exact_mod_cast Iff.rfl

/-- As long as samples are counted exactly, so does a comparison of floating point numbers. -/
theorem Double.Lasts.le_sub_iff {length : Float} {samples : ℚ} (h : Lasts length samples)
    {sample start : Nat} (hSample : sample < twoTo 53) (hStart : start < twoTo 53) :
    length ≤ Float.ofNat sample - Float.ofNat start ↔ samples ≤ (sample : ℚ) - start := by
  obtain ⟨significand, scale, hValue, -, rfl⟩ := h
  rw [Whole.ofNat_sub_ofNat hSample hStart, Whole.le_ofInt_iff hValue (by omega)]
  push_cast
  exact Iff.rfl

namespace Ramp

variable {s s' : Ramp} {first next : Nat}

/-! ### Sample by sample -/

/-- The state after passing through so many samples, the first of which has this index. -/
def passing (s : Ramp) (first count : Nat) : Ramp :=
  (List.range' first count).foldl advance s

@[simp] theorem passing_zero : s.passing first 0 = s := rfl

theorem passing_succ (count : Nat) :
    s.passing first (count + 1) = (s.passing first count).advance (first + count) := by
  rw [passing, List.range'_1_concat, List.foldl_append]
  rfl

theorem passing_add (m n : Nat) :
    s.passing first (m + n) = (s.passing first m).passing (first + m) n := by
  rw [passing, ← List.range'_append_1, List.foldl_append]
  rfl

/-- A value that is held changes with no sample. -/
theorem passing_hold (h : s.segment = .hold) (count : Nat) : s.passing first count = s := by
  induction count with
  | zero => rfl
  | succ count ih => rw [passing_succ, ih, advance, h]

/-- A ramp at a sample: at its target if it is over there, and on the way if not. -/
def glided (s : Ramp) (start : Nat) (source target : Float32) (length : Float) (sample : Nat) :
    Ramp :=
  if Double.atMost length ((sample : Int) - start) then
    { s with value := target, segment := .hold }
  else { s with value := interpolate ((sample : Int) - start) source target length }

section Segment

variable {start : Nat} {source target : Float32} {length : Float}

theorem advance_ramp (h : s.segment = .ramp start source target length) (sample : Nat) :
    s.advance sample = s.glided start source target length sample := by
  obtain ⟨value, segment, nextTime⟩ := s
  obtain rfl : segment = .ramp start source target length := h
  rfl

/-- Being on the way does not change the way. -/
theorem advance_glided {sample : Nat}
    (h : s.segment = .ramp start source target length) :
    (s.glided start source target length sample).advance (sample + 1) =
      s.glided start source target length (sample + 1) := by
  rw [glided]
  split
  · next hOver =>
      have hNext : Double.atMost length (((sample + 1 : Nat) : Int) - start) = true :=
        BinaryValue.atMost_mono (by omega) hOver
      rw [glided, if_pos hNext]
      rfl
  · have hOn : ({ s with value := interpolate ((sample : Int) - start) source target length } :
        Ramp).segment = .ramp start source target length := h
    rw [advance_ramp hOn]
    rfl

/-- **The state after a sample is told by that sample alone.** -/
theorem passing_ramp (h : s.segment = .ramp start source target length) (count : Nat) :
    s.passing first (count + 1) = s.glided start source target length (first + count) := by
  induction count with
  | zero => rw [passing_succ, passing_zero, advance_ramp h]
  | succ count ih => rw [passing_succ, ih, ← Nat.add_assoc, advance_glided h]

theorem glided_of_lasts {samples : ℚ} (hLasts : Double.Lasts length samples) (sample : Nat) :
    s.glided start source target length sample =
      if samples ≤ (sample : ℚ) - start then { s with value := target, segment := .hold }
      else { s with value := interpolate ((sample : Int) - start) source target length } := by
  have hOver := hLasts.atMost_iff ((sample : Int) - start)
  push_cast at hOver
  exact if_congr hOver rfl rfl

end Segment

/-! ### Frame by frame -/

/-- A buffer is filled with the values that are passed. -/
theorem renderBlock_advance (s : Ramp) (first : Nat) (n : Nat) :
    let block := renderBlock n (fun i s => ((advance s (first + i)).value, advance s (first + i))) s
    block.2 = s.passing first n ∧
      ∀ i, block.1[i]? = if i < n then some (s.passing first (i + 1)).value else none := by
  induction n with
  | zero => exact ⟨rfl, fun i => rfl⟩
  | succ n ih =>
      obtain ⟨hState, hSamples⟩ := ih
      have hSize := size_renderBlock n
        (fun i s => ((advance s (first + i)).value, advance s (first + i))) s
      simp only [renderBlock, Nat.fold_succ] at hState hSamples hSize ⊢
      rw [hState, ← passing_succ]
      refine ⟨rfl, fun i => ?_⟩
      rw [Array.getElem?_push, hSize, hSamples]
      rcases Nat.lt_trichotomy i n with hi | rfl | hi
      · rw [if_neg hi.ne, if_pos hi, if_pos (Nat.lt_succ_of_lt hi)]
      · rw [if_pos rfl, if_pos (Nat.lt_succ_self i)]
      · rw [if_neg hi.ne', if_neg (by omega), if_neg (by omega)]

/-- What a frame makes of the outlet and of the state. -/
theorem process_buffer (scope : FrameScope) {outputs : Array (Array Float32)}
    {buffer : Array Float32} (h : outputs[0]? = some buffer) :
    ∃ filled, (s.process scope outputs).outputs[0]? = some filled ∧
      (∀ i, filled[i]? = if i < buffer.size then
        some (s.passing scope.blockStart (i + 1)).value else none) ∧
      (s.process scope outputs).state = s.passing scope.blockStart buffer.size := by
  obtain ⟨hState, hSamples⟩ := renderBlock_advance s scope.blockStart buffer.size
  have hRender := renderFirst.eq_def outputs
    (fun i s => ((advance s (scope.blockStart + i)).value, advance s (scope.blockStart + i))) s
  rw [h] at hRender
  have hProcess : s.process scope outputs = .buffers
      (renderFirst outputs (fun i s =>
        ((advance s (scope.blockStart + i)).value, advance s (scope.blockStart + i))) s).2
      (renderFirst outputs (fun i s =>
        ((advance s (scope.blockStart + i)).value, advance s (scope.blockStart + i))) s).1 := rfl
  rw [hProcess, hRender]
  obtain ⟨hSome, -⟩ := Array.getElem?_eq_some_iff.mp h
  exact ⟨_, Array.getElem?_setIfInBounds_self_of_lt hSome, hSamples, hState⟩

/-- Frames that follow each other, with what they leave in the outlet.  The box gets no message in
between. -/
inductive Plays (settings : Settings) (first : Nat) (s : Ramp) :
    List (Array Float32) → Nat → Ramp → Prop
  | start : Plays settings first s [] first s
  | frame {buffers : List (Array Float32)} {next : Nat} {s' : Ramp} (tables : Tables)
      {outputs : Array (Array Float32)} {buffer filled : Array Float32}
      (h : Plays settings first s buffers next s') (hOutlet : outputs[0]? = some buffer)
      (hSize : buffer.size = settings.bufferSize)
      (hFilled : (s'.process ⟨settings, next, tables⟩ outputs).outputs[0]? = some filled) :
      Plays settings first s (buffers ++ [filled]) (next + 1)
        (s'.process ⟨settings, next, tables⟩ outputs).state

/-- Any number of frames can be played. -/
theorem exists_plays (settings : Settings) (first : Nat) (s : Ramp) (count : Nat) :
    ∃ buffers s', Plays settings first s buffers (first + count) s' := by
  induction count with
  | zero => exact ⟨[], s, .start⟩
  | succ count ih =>
      obtain ⟨buffers, s', hPlays⟩ := ih
      have hOutlet : #[Array.replicate settings.bufferSize (0 : Float32)][0]? =
          some (Array.replicate settings.bufferSize 0) := rfl
      obtain ⟨filled, hFilled, -⟩ :=
        process_buffer (s := s') ⟨settings, first + count, .empty⟩ hOutlet
      exact ⟨_, _, hPlays.frame .empty hOutlet Array.size_replicate hFilled⟩

/-- The sample with this absolute index, among those of some frames. -/
def Sampled (settings : Settings) (first : Nat) (buffers : List (Array Float32)) (sample : Nat)
    (x : Float32) : Prop :=
  ∃ j i buffer, buffers[j]? = some buffer ∧ buffer[i]? = some x ∧
    sample = (first + j) * settings.bufferSize + i

/-- What has been passed after some frames. -/
structure Passed (settings : Settings) (first : Nat) (s : Ramp) (buffers : List (Array Float32))
    (next : Nat) (s' : Ramp) : Prop where
  count : next = first + buffers.length
  state : s' = s.passing (first * settings.bufferSize) (buffers.length * settings.bufferSize)
  samples : ∀ (j : Nat) (buffer : Array Float32), buffers[j]? = some buffer → ∀ i : Nat,
    buffer[i]? = if i < settings.bufferSize then
      some (s.passing (first * settings.bufferSize) (j * settings.bufferSize + (i + 1))).value
      else none

/-- **Frames pass through the samples without a gap.** -/
theorem Plays.passed {settings : Settings} {buffers : List (Array Float32)}
    (h : Plays settings first s buffers next s') : Passed settings first s buffers next s' := by
  induction h with
  | start =>
      refine ⟨rfl, ?_, fun j buffer hNone => nomatch hNone⟩
      rw [List.length_nil, Nat.zero_mul, passing_zero]
  | @frame buffers next s' tables outputs buffer filled _ hOutlet hSize hFilled ih =>
      obtain ⟨hCount, hState, hSamples⟩ := ih
      obtain ⟨_, hThere, hValues, hLeft⟩ := process_buffer (s := s') ⟨settings, next, tables⟩ hOutlet
      obtain rfl := Option.some.inj (hThere.symm.trans hFilled)
      have hBlock : (⟨settings, next, tables⟩ : FrameScope).blockStart =
          first * settings.bufferSize + buffers.length * settings.bufferSize := by
        rw [FrameScope.blockStart, hCount, Nat.add_mul]
      simp only [hBlock, hState, hSize, ← passing_add] at hValues hLeft
      refine ⟨by rw [hCount, List.length_append]; rfl, ?_, fun j buffer' hj i => ?_⟩
      · rw [hState, hLeft, List.length_append, List.length_singleton, Nat.succ_mul]
      · rcases Nat.lt_or_ge j buffers.length with hOld | hNew
        · rw [List.getElem?_append_left hOld] at hj
          exact hSamples j buffer' hj i
        · rw [List.getElem?_append_right hNew, List.getElem?_singleton] at hj
          split at hj
          · obtain rfl := Option.some.inj hj
            obtain rfl : j = buffers.length := by omega
            exact hValues i
          · exact nomatch hj

/-- A sample is the value after it. -/
theorem Passed.value {settings : Settings} {buffers : List (Array Float32)}
    (h : Passed settings first s buffers next s') {sample : Nat} {x : Float32}
    (hSampled : Sampled settings first buffers sample x) :
    ∃ count, sample = first * settings.bufferSize + count ∧
      x = (s.passing (first * settings.bufferSize) (count + 1)).value := by
  obtain ⟨j, i, buffer, hBuffer, hx, rfl⟩ := hSampled
  rw [h.samples j buffer hBuffer i] at hx
  split at hx
  · exact ⟨j * settings.bufferSize + i, by rw [Nat.add_mul, Nat.add_assoc],
      (Option.some.inj hx).symm⟩
  · exact nomatch hx

/-- Every sample of the frames is there. -/
theorem Passed.sampled_iff {settings : Settings} {buffers : List (Array Float32)}
    (h : Passed settings first s buffers next s') (sample : Nat) :
    (∃ x, Sampled settings first buffers sample x) ↔
      first * settings.bufferSize ≤ sample ∧ sample < next * settings.bufferSize := by
  constructor
  · rintro ⟨x, j, i, buffer, hBuffer, hx, rfl⟩
    have hj : j < buffers.length := (List.getElem?_eq_some_iff.mp hBuffer).1
    rw [h.samples j buffer hBuffer i] at hx
    split at hx
    · next hi =>
        have hEnd : (first + j + 1) * settings.bufferSize ≤ next * settings.bufferSize :=
          Nat.mul_le_mul_right _ (by rw [h.count]; omega)
        rw [Nat.succ_mul] at hEnd
        refine ⟨?_, by omega⟩
        rw [Nat.add_mul]
        omega
    · exact nomatch hx
  · rintro ⟨hFirst, hNext⟩
    have hSome : 0 < settings.bufferSize := by
      refine Nat.pos_of_ne_zero fun hNone => ?_
      rw [hNone] at hNext
      omega
    -- The frame and the position in it are quotient and remainder.
    obtain ⟨count, rfl⟩ := Nat.exists_eq_add_of_le hFirst
    have hFrame : count / settings.bufferSize < buffers.length := by
      rw [h.count, Nat.add_mul] at hNext
      exact (Nat.div_lt_iff_lt_mul hSome).mpr (by omega)
    have hBuffer := List.getElem?_eq_getElem hFrame
    have hSample := h.samples _ _ hBuffer (count % settings.bufferSize)
    rw [if_pos (Nat.mod_lt _ hSome)] at hSample
    refine ⟨_, _, _, _, hBuffer, hSample, ?_⟩
    rw [Nat.add_mul, Nat.add_assoc, Nat.mul_comm (count / _), Nat.div_add_mod]

/-- What frames make of a ramp that takes so many samples. -/
structure Glides (settings : Settings) (first : Nat) (s : Ramp) (buffers : List (Array Float32))
    (next : Nat) (s' : Ramp) (start : Nat) (source target : Float32) (length : Float)
    (samples : ℚ) : Prop where
  /-- The target from the first sample on that is far enough from the start, and the line before. -/
  output : ∀ sample x, Sampled settings first buffers sample x →
    x = if samples ≤ (sample : ℚ) - start then target
      else interpolate ((sample : Int) - start) source target length
  /-- After each sample the segment is held if the sample was far enough, and the same ramp if
  not. -/
  states : ∀ count sample, sample = first * settings.bufferSize + count →
    s.passing (first * settings.bufferSize) (count + 1) =
      if samples ≤ (sample : ℚ) - start then { s with value := target, segment := .hold }
      else { s with value := interpolate ((sample : Int) - start) source target length }
  left : s' = s.passing (first * settings.bufferSize) (buffers.length * settings.bufferSize)

/--
**A ramp ends at the first sample that is far enough from its start, and stays at its target.**
In any run of frames without a message to the box, of any size and from any frame on, every sample
is there, and the state is passed on from each to the next.  A ramp of a finite positive length
gives its target exactly at every sample whose distance from the start is at least the length,
and the interpolated value at every other; the segment is held from the first of these samples on,
wherever in a buffer it is.  A value that is held is given at every sample and stays.  Below two
to the fifty-third all of that is what floating point numbers say as well.
-/
theorem ends_and_stays {settings : Settings} {buffers : List (Array Float32)}
    (hPlays : Plays settings first s buffers next s') :
    (∀ sample, (∃ x, Sampled settings first buffers sample x) ↔
      first * settings.bufferSize ≤ sample ∧ sample < next * settings.bufferSize) ∧
    (∀ start source target length samples, s.segment = .ramp start source target length →
      Double.Lasts length samples →
        Glides settings first s buffers next s' start source target length samples) ∧
    (s.segment = .hold →
      (∀ sample x, Sampled settings first buffers sample x → x = s.value) ∧ s' = s) ∧
    ∀ length samples sample start, Double.Lasts length samples → sample < twoTo 53 →
      start < twoTo 53 →
        (length ≤ Float.ofNat sample - Float.ofNat start ↔ samples ≤ (sample : ℚ) - start) ∧
        ∀ source target, interpolate ((sample : Int) - start) source target length =
          ((Float.ofNat sample - Float.ofNat start) / length).toFloat32 * (target - source) +
            source := by
  have hPassed := hPlays.passed
  refine ⟨hPassed.sampled_iff, fun start source target length samples hSegment hLasts => ?_,
    fun hHold => ⟨fun sample x hSampled => ?_, ?_⟩,
    fun length samples sample start hLasts hSample hStart => ⟨?_, fun source target => ?_⟩⟩
  · refine ⟨fun sample x hSampled => ?_, fun count sample hSample => ?_, hPassed.state⟩
    · obtain ⟨count, rfl, rfl⟩ := hPassed.value hSampled
      rw [passing_ramp hSegment, glided_of_lasts hLasts]
      split <;> rfl
    · rw [passing_ramp hSegment, glided_of_lasts hLasts, hSample]
  · obtain ⟨count, rfl, rfl⟩ := hPassed.value hSampled
    rw [passing_hold hHold]
  · rw [hPassed.state, passing_hold hHold]
  · exact hLasts.le_sub_iff hSample hStart
  · rw [Whole.ofNat_sub_ofNat hSample hStart, interpolate]

/-- A ramp from zero to one, two samples and a half long. -/
def short : Ramp := ⟨0, .ramp 0 0 1 2.5, none⟩

/-- In frames of two samples it is over at the end of the second frame. -/
theorem ends_and_stays_short : ∃ buffers s', Plays (.new 44100 2) 0 short buffers 3 s' ∧
    Sampled (.new 44100 2) 0 buffers 3 1 ∧ Sampled (.new 44100 2) 0 buffers 4 1 ∧
      short.passing 0 3 = { short with value := interpolate 2 0 1 2.5 } ∧
      short.passing 0 4 = { short with value := 1, segment := .hold } := by
  have hLasts : Double.Lasts 2.5 (5 / 2) :=
    ⟨5629499534213120, -51, by decide +kernel, by decide, by norm_num⟩
  obtain ⟨buffers, s', hPlays⟩ := exists_plays (.new 44100 2) 0 short 3
  obtain ⟨hSampled, hGlides, -⟩ := ends_and_stays hPlays
  obtain ⟨hOutput, hStates, -⟩ := hGlides 0 0 1 2.5 _ rfl hLasts
  have hOver : ∀ sample : Nat, 3 ≤ sample → sample < 6 →
      Sampled (.new 44100 2) 0 buffers sample 1 := by
    intro sample hLow hHigh
    obtain ⟨x, hx⟩ := (hSampled sample).mpr ⟨by simp, hHigh⟩
    have hFar : (5 / 2 : ℚ) ≤ sample - (0 : Nat) := by
      have hCast : (3 : ℚ) ≤ sample := by exact_mod_cast hLow
      push_cast
      linarith
    have hOne := hOutput sample x hx
    rw [if_pos hFar] at hOne
    exact hOne ▸ hx
  refine ⟨buffers, s', hPlays, hOver 3 (by decide) (by decide), hOver 4 (by decide) (by decide),
    (hStates 2 2 rfl).trans (if_neg (by norm_num)), (hStates 3 3 rfl).trans (if_pos (by norm_num))⟩

end Ramp

end Patchbay
