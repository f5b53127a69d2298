import Patchbay.Patch.Reader
import Patchbay.Registry

/-
Kinds that observe a patch.

`rec` notes every message that reaches it.  `probe~` notes everything that happens to
it, may ask for things while it is being set up, passes messages on, and computes the
sum and the difference of its two signals.  `srandom` is a source of random numbers
whose seed is an argument.  The first two show how custom kinds are made; none of
them is among the built-in kinds.
-/

namespace Patchbay

inductive Monitor where
  | recorder (label : String)
  | probe (label : String) (wishes : List String)

namespace Monitor

/-- Where a message arrived, as a field. -/
def arrivalField : Arrival → Field
  | .inlet n => .count n
  | .external => .absent

def atomsField (m : Message) : Field :=
  .many (m.atoms.map Field.atom)

/-- Read a count; what is none counts as zero. -/
def countOf (s : String) : Nat :=
  (Patch.readIndex? s).getD 0

/-- A wish of a probe, given by its words: what it asks for, and what it is told.  Words that are
no wish ask for nothing. -/
def wish (scope : InitScope) (label : String) : List String → List Request × Field
  | ["listen", name] => ([.listen name], .text "ok")
  | ["at", due] =>
    ([.schedule ((Double.read? due.toList).getD 0) [.mark "timer" label]], .text "ok")
  | ["const", inlet, value] =>
    ([.constant (countOf inlet) ((Single.read? value.toList).getD 0)],
      .flag (scope.takesConstant (countOf inlet)))
  | ["table", name] => ([], .flag (scope.hasTable name))
  | ["float", i] =>
    ([], match scope.numberArg? (countOf i) with
      | some x => .sample x
      | none => .absent)
  | _ => ([], .absent)

/-- What a probe asks for while it is being set up. -/
def probeRequests (scope : InitScope) (label : String) (wishes : List String) : List Request :=
  let told := wishes.map fun w => wish scope label (w.splitOn "=")
  told.flatMap Prod.fst ++
    [.record (.note "init" [.text label, .count scope.node, .text scope.kind,
      .count scope.settings.bufferSize, .many (told.map Prod.snd)])]

/-- Sum and difference of the two signals, in the first two outlets. -/
def sumAndDifference (inputs : Array Input) (outputs : Array (Array Float32)) :
    Array (Array Float32) :=
  let a := inputs[0]?.getD .silent
  let b := inputs[1]?.getD .silent
  outputs.mapIdx fun outlet buffer =>
    if outlet = 0 then renderPlain buffer.size fun i => a.sample i + b.sample i
    else if outlet = 1 then renderPlain buffer.size fun i => a.sample i - b.sample i
    else buffer

/-- The first slot of the table that bears a probe's label goes into the second channel. -/
def tableMixes (scope : FrameScope) (label : String) : List Mix :=
  match scope.tables.get? label with
  | some t => [⟨1, 0, t.read 0⟩]
  | none => []

def processNote (scope : FrameScope) (label : String) (inputs : Array Input) : Entry :=
  .note "process" [.text label, .count scope.frame, .count scope.blockStart,
    .count scope.settings.sampleRate, .many (inputs.toList.map fun x => .flag x.isSignal)]

/-- What a probe notes about a message. -/
def probeNote (scope : MessageScope) (label : String) (arrival : Arrival) (m : Message) : Entry :=
  .note "probe" [.text label, arrivalField arrival, atomsField m, .count scope.node,
    .text scope.kind, .count scope.frame, .count scope.blockStart, .count scope.settings.channels,
    match scope.tables.get? label with
    | some t => .count t.size
    | none => .absent]

instance : CustomKind Monitor where
  preinit _ layout k := (k, layout)
  init scope k :=
    match k with
    | .recorder _ => (k, [])
    | .probe label wishes => (k, probeRequests scope label wishes)
  process scope inputs outputs k :=
    match k with
    | .recorder _ => .buffers k outputs
    | .probe label _ =>
      { state := k, outputs := sumAndDifference inputs outputs, mixes := tableMixes scope label,
        entries := [processNote scope label inputs] }
  onMessage scope arrival m k :=
    match k with
    | .recorder label =>
      (k, [.record (.note "rec" [.text label, arrivalField arrival, atomsField m])])
    | .probe label _ =>
      (k, [.record (probeNote scope label arrival m), emitOn 2 m, emitOn 7 (.symbol "nowhere"),
        emitTo "probe-out" m])

/-- The observing kinds. -/
def kinds : List (KindDecl Monitor) :=
  [(KindDecl.new "rec" fun args => .custom (.recorder (args.headD ""))).withInlets 9,
   (KindDecl.new "srandom" fun args =>
      .random (.seeded (countOf (args.headD "")))).withInlets 2 |>.withOutlets [.message],
   (KindDecl.new "probe~" fun args => .custom (.probe (args.headD "") args.tail)).withInlets 3
      |>.withOutlets [.signal, .signal, .message] |>.withSignalInlets [0, 1]]

/-- Add the observing kinds to a registry. -/
def addTo (r : Registry Monitor) : Registry Monitor :=
  kinds.foldl Registry.register r

end Monitor

end Patchbay
