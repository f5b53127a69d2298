import Patchbay.Scope

/-
Audio output: `dac~`.

Adds inlet 0 into the first channel and inlet 1 into the second.
-/

namespace Patchbay

/-- The samples that an input adds into a channel. -/
def mixInput (size channel : Nat) (x : Input) : List Mix :=
  (List.range size).map fun i => ⟨channel, i, x.sample i⟩

/-- What `dac~` adds to the output. -/
def outputMixes (scope : FrameScope) (inputs : Array Input) : List Mix :=
  ((inputs.toList.take 2).zipIdx).flatMap fun (x, channel) =>
    mixInput scope.settings.bufferSize channel x

end Patchbay
