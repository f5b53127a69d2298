import Patchbay.Message
import Patchbay.Patch.Directive
import Patchbay.Patch.Source

/-
Reading directives.

Each directive is read on its own from its words, so a fault in one leaves the
others as they are.  Directives that are none of the known ones are kept as
`ignored`.
-/

namespace Patchbay.Patch

/-- Whole numbers in a patch stay below this. -/
def indexLimit : Nat := twoTo 64

/-- Read a whole number: digits, perhaps after a plus sign. -/
def readIndex? (token : String) : Option Nat :=
  let ds := match token.toList with
    | '+' :: rest => rest
    | cs => cs
  if ds.isEmpty || !ds.all Char.isDigit then none
  else if digitsValue ds < indexLimit then some (digitsValue ds)
  else none

def index (line : Nat) (token : String) : Except Error Nat :=
  match readIndex? token with
  | some n => .ok n
  | none => .error (.malformed line (.badIndex token))

/-- Smallest and largest coordinate; numbers beyond them stop there. -/
def lowestCoordinate : Int := -(twoTo 31 : Int)

def highestCoordinate : Int := (twoTo 31 : Int) - 1

/-- A coordinate is written as a number and loses its fraction. -/
def coordinate (line : Nat) (token : String) : Except Error Int :=
  match Single.readFinite? token.toList with
  | some x => .ok (Single.truncateWithin x lowestCoordinate highestCoordinate)
  | none => .error (.malformed line (.badCoordinate token))

/-- The position of a box: the two words after the first two. -/
def position (line : Nat) (tokens : List String) : Except Error Position :=
  match tokens with
  | _ :: _ :: x :: y :: _ => do
    let x ← coordinate line x
    let y ← coordinate line y
    pure ⟨x, y⟩
  | _ => .error (.malformed line (.noPosition (joinWords tokens)))

def tableValue (line : Nat) (token : String) : Except Error Float32 :=
  match Single.readFinite? token.toList with
  | some x => .ok x
  | none => .error (.malformed line (.badTableValue token))

/-- Read one directive from its words. -/
def readDirective (line : Nat) (tokens : List String) : Except Error Directive :=
  match tokens with
  | "#X" :: "obj" :: rest => do
    let at' ← position line tokens
    match rest.drop 2 with
    | kind :: args => pure (.object at' kind args)
    | [] => pure (.object at' "" [])
  | "#X" :: "msg" :: rest => do
    pure (.message (← position line tokens) (rest.drop 2))
  | "#X" :: "text" :: rest => do
    pure (.comment (← position line tokens) (rest.drop 2))
  | "#X" :: "array" :: name :: size :: args => do
    let size ← index line size
    if maxTableSize < size then .error (.malformed line (.arrayTooLong name size maxTableSize))
    else pure (.array name size args)
  | "#X" :: "array" :: _ => .error (.malformed line .arrayIncomplete)
  | "#X" :: "restore" :: _ => pure .restore
  | "#X" :: "connect" :: source :: outlet :: sink :: inlet :: _ => do
    pure (.connect (← index line source) (← index line outlet) (← index line sink)
      (← index line inlet))
  | "#X" :: "connect" :: _ => .error (.malformed line .connectIncomplete)
  | "#A" :: start :: values => do
    let values ← values.mapM (tableValue line)
    pure (.fill (← index line start) values)
  | ["#A"] => .error (.malformed line .fillIncomplete)
  | _ => pure .ignored

/-- Read the directive with this text that starts on this line. -/
def readStatement (line : Nat) (body : List Char) : Except Error Statement :=
  (readDirective line ((words body).map String.ofList)).map fun d => ⟨line, d⟩

/-- The directives of a patch with their lines, without the semicolons that end them. -/
def split (source : String) : List (Nat × String) :=
  (Source.directives source.toList).map fun (line, body) => (line, String.ofList body)

/-- Read a whole patch, each directive by itself. -/
def read (source : String) : List (Except Error Statement) :=
  (Source.directives source.toList).map fun (line, body) => readStatement line body

end Patchbay.Patch
