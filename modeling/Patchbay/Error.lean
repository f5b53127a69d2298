/-
What can go wrong with a patch, as causes.

An error records its cause; the wording is `Error.message` alone.  Faults inside a
patch — a directive that cannot be read, a message of the wrong type — are logged
and the offending piece is skipped.  Only a signal cycle, a runaway drive, a patch
that cannot be fetched and unreadable settings reach the caller.

An overflow is none of these.  Where a count does not fit into sixty-four bits the program
stops: nothing is logged, and no caller gets an answer.
-/

namespace Patchbay

/-- What the program says last when a sum does not fit into sixty-four bits. -/
def overflowText : String := "attempt to add with overflow"

/-- Why a wire was not made.  The numbers are those that were asked for. -/
inductive WireFault where
  | noNode (index : Nat)
  | noOutlet (kind : String) (node outlet : Nat)
  | noInlet (kind : String) (node inlet : Nat)
  /-- The wire was not refused: its sink needs more inlets than can be counted. -/
  | overflow
  deriving DecidableEq

def WireFault.message : WireFault → String
  | .noNode index => s!"no node {index}"
  | .noOutlet kind node outlet => s!"{kind} ({node}) has no outlet {outlet}"
  | .noInlet kind node inlet => s!"{kind} ({node}) has no inlet {inlet}"
  | .overflow => overflowText

/-- What is wrong with a directive. -/
inductive Defect where
  | noPosition (directive : String)
  | badCoordinate (token : String)
  | badIndex (token : String)
  | badTableValue (token : String)
  | arrayTooLong (name : String) (size limit : Nat)
  | arrayIncomplete
  | connectIncomplete
  | fillIncomplete
  | refusedWire (source outlet sink inlet : Nat) (fault : WireFault)
  | noSuchTable (name : String)
  | outsideTable
  | stated (reason : String)
  deriving DecidableEq

def Defect.message : Defect → String
  | .noPosition directive => s!"'{directive}' needs a position"
  | .badCoordinate token => s!"bad coordinate '{token}'"
  | .badIndex token => s!"bad index '{token}'"
  | .badTableValue token => s!"bad table value '{token}'"
  | .arrayTooLong name size limit => s!"array '{name}' of {size} samples exceeds {limit}"
  | .arrayIncomplete => "array needs a name and a size"
  | .connectIncomplete => "connect needs four indices"
  | .fillIncomplete => "table data needs a start index"
  | .refusedWire source outlet sink inlet fault =>
    s!"connect {source} {outlet} {sink} {inlet}: {fault.message}"
  | .noSuchTable name => s!"table '{name}' vanished"
  | .outsideTable => "got table data outside of a table"
  | .stated reason => reason

inductive Error where
  /-- A directive, by the line it starts on, that cannot be read or carried out. -/
  | malformed (line : Nat) (defect : Defect)
  /-- A box of this kind was sent something that it does not take. -/
  | typeMismatch (kind expected got : String)
  /-- A placeholder asks for an atom that the message does not have. -/
  | argumentOutOfRange (index : Nat)
  /-- A write past the end of a table. -/
  | tableIndex (name : String) (size index : Nat)
  /-- Signal wires lead from this node back to it. -/
  | signalCycle (node : Nat)
  /-- A drive used up its budget while the sink still wanted more. -/
  | runawayGraph (iterations : Nat)
  | alreadyLoaded
  | noSuchPatch (location : String)
  | unreadable (reason : String)
  | badSettings (reason : String)
  /-- No error that a caller sees: the program has stopped. -/
  | overflow
  deriving DecidableEq

def Error.message : Error → String
  | .malformed line defect => s!"malformed directive on line {line}: {defect.message}"
  | .typeMismatch kind expected got => s!"{kind}: expected {expected} but got '{got}'"
  | .argumentOutOfRange index => s!"${index}: argument number out of range"
  | .tableIndex name size index =>
    s!"table '{name}' has {size} slots, index {index} is out of range"
  | .signalCycle node => s!"signal connections form a cycle through node {node}"
  | .runawayGraph iterations =>
    s!"overflowed {iterations} write() iterations - the patch is probably too heavy"
  | .alreadyLoaded => "a patch is already loaded"
  | .noSuchPatch location => s!"no such patch: {location}"
  | .unreadable reason => s!"failed to read patch: {reason}"
  | .badSettings reason => s!"invalid configuration: {reason}"
  | .overflow => overflowText

end Patchbay
