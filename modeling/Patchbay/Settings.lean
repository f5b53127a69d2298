import Patchbay.Error
import Patchbay.Number.Double
import Patchbay.Toml.Reader

/-
The settings that stay fixed while an engine lives.

Sizes are counted in sixty-four bits.  The program stops where a product of sizes does not
fit: `frameLength?` and `sinkCapacity?` say whether there is an answer, and `frameLength` and
`sinkCapacity` what it is.
-/

namespace Patchbay

structure Settings where
  /-- Samples per second and channel. -/
  sampleRate : Nat
  /-- Samples per channel in one frame. -/
  bufferSize : Nat
  /-- Interleaved channels of the output. -/
  channels : Nat
  /-- How many frames one drive may offer. -/
  maxWritesPerDrive : Nat
  deriving DecidableEq

namespace Settings

def standard : Settings := ⟨44100, 64, 2, 100⟩

/-- Settings with this rate and buffer size. -/
def new (sampleRate bufferSize : Nat) : Settings :=
  { standard with sampleRate, bufferSize }

/-- At least two channels. -/
def withChannels (s : Settings) (channels : Nat) : Settings :=
  { s with channels := max channels 2 }

/-- At least one frame per drive. -/
def withMaxWritesPerDrive (s : Settings) (count : Nat) : Settings :=
  { s with maxWritesPerDrive := max count 1 }

/-- Sizes can be counted below this. -/
def sizeLimit : Nat := twoTo 64

/-- Samples in one interleaved frame. -/
def frameLength (s : Settings) : Nat :=
  s.bufferSize * s.channels

/-- Samples in a tenth of a second. -/
def latency (s : Settings) : Nat :=
  s.sampleRate / 10 * s.channels

/-- Half of the samples that one drive may offer, at least one frame. -/
def halfBudget (s : Settings) : Nat :=
  max (s.maxWritesPerDrive / 2) 1 * s.frameLength

/-- How large a ring should be: about a tenth of a second, at most half of what one drive may
offer, at least one frame. -/
def sinkCapacity (s : Settings) : Nat :=
  max (min s.latency s.halfBudget) s.frameLength

/-- The length of a frame, if it can be counted. -/
def frameLength? (s : Settings) : Option Nat :=
  if s.frameLength < sizeLimit then some s.frameLength else none

/-- The size of a ring, if what it is computed from can be counted. -/
def sinkCapacity? (s : Settings) : Option Nat :=
  if s.latency < sizeLimit ∧ s.halfBudget < sizeLimit then some s.sinkCapacity else none

/-- The time in seconds at which a frame starts. -/
def frameTime (s : Settings) (frame : Nat) : Float :=
  Float.ofNat frame * Float.ofNat s.bufferSize / Float.ofNat s.sampleRate

/-- The settings as text. -/
def summary (s : Settings) : String :=
  s!"EngineConfig \x7b sample_rate: {s.sampleRate}, buffer_size: {s.bufferSize}, " ++
    s!"channels: {s.channels}, max_writes_per_drive: {s.maxWritesPerDrive} \x7d"

/-! ### From TOML -/

/-- A count below a limit, if the document gives one under the key, and otherwise `default`. -/
def countUnder (document : Toml.Entries) (limit : Nat) (key : String) (default : Nat) :
    Except Error Nat :=
  match document.find? key with
  | none => .ok default
  | some (.integer n) =>
    if 0 ≤ n ∧ n < limit then .ok n.toNat
    else .error (.badSettings s!"{key} is out of range")
  | some _ => .error (.badSettings s!"{key} is not an integer")

/-- Read settings from a TOML document.  Keys that are missing keep their standard values and
unknown keys are ignored. -/
def ofToml (source : String) : Except Error Settings :=
  match Toml.read? source with
  | none => .error (.badSettings "not a TOML document")
  | some document => do
    let sampleRate ← countUnder document (twoTo 32) "sample_rate" standard.sampleRate
    let bufferSize ← countUnder document sizeLimit "buffer_size" standard.bufferSize
    let channels ← countUnder document sizeLimit "channels" standard.channels
    let maxWritesPerDrive ←
      countUnder document sizeLimit "max_writes_per_drive" standard.maxWritesPerDrive
    pure { sampleRate, bufferSize, channels, maxWritesPerDrive }

end Settings

end Patchbay
