import Patchbay.Error
import Patchbay.Message

/-
What happens while a patch is loaded and played, written down in order.

Nothing that is merely logged changes a result, but skipped directives, rejected
messages and the output of print boxes are visible only here.  Every record is kept;
who reads the journal chooses from which level on.
-/

namespace Patchbay

/-- How much a record matters, least first. -/
inductive Level where
  | trace
  | debug
  | info
  | warn
  | error
  deriving DecidableEq, Inhabited

namespace Level

def rank : Level → Nat
  | .trace => 0
  | .debug => 1
  | .info => 2
  | .warn => 3
  | .error => 4

/-- Whether records of this level show when `threshold` and more is asked for. -/
def shows (level threshold : Level) : Bool :=
  threshold.rank ≤ level.rank

def name : Level → String
  | .trace => "TRACE"
  | .debug => "DEBUG"
  | .info => "INFO"
  | .warn => "WARN"
  | .error => "ERROR"

end Level

/-- A value attached to a record or a note. -/
inductive Field where
  | absent
  | flag (b : Bool)
  | count (n : Nat)
  | text (s : String)
  | sample (x : Float32)
  | atom (a : Atom)
  | samples (xs : List Float32)
  | many (fields : List Field)

/-- One line of the journal: a record with a level and named fields, or a note that an
observing box or sink leaves, without a level. -/
inductive Entry where
  | record (level : Level) (text : String) (fields : List (String × Field))
  | note (topic : String) (fields : List Field)

namespace Entry

def trace (text : String) : Entry := .record .trace text []

def debug (text : String) : Entry := .record .debug text []

def info (text : String) : Entry := .record .info text []

def warn (text : String) : Entry := .record .warn text []

def error (text : String) : Entry := .record .error text []

end Entry

end Patchbay
