import Patchbay.Scope

/-
Routing messages: `bang`, `spigot`, `moses`, `swap`, `select` and `change`.
-/

namespace Patchbay

/-- What `bang` does: a bang for whatever comes in. -/
def bangFor (arrival : Arrival) : List Reaction :=
  match arrival with
  | .inlet 0 => [emitOn 0 .bang]
  | _ => []

/-- Lets messages through while it is open. -/
structure Spigot where
  isOpen : Bool

namespace Spigot

def new : Spigot := ⟨false⟩

def init (scope : InitScope) (_ : Spigot) : Spigot × List Request :=
  (⟨(scope.numberArg? 0).any (· != 0)⟩, [])

def onMessage (scope : MessageScope) (arrival : Arrival) (m : Message) (s : Spigot) :
    Spigot × List Reaction :=
  match arrival with
  | .inlet 0 => (s, if s.isOpen then [emitOn 0 m] else [])
  | .inlet 1 => takeNumber scope m s fun x => ⟨x != 0⟩
  | _ => (s, [])

end Spigot

/-- Sends numbers below a threshold left and the others right. -/
structure Moses where
  threshold : Float32

namespace Moses

def new : Moses := ⟨0⟩

def init (scope : InitScope) (_ : Moses) : Moses × List Request :=
  (⟨(scope.numberArg? 0).getD 0⟩, [])

def onMessage (scope : MessageScope) (arrival : Arrival) (m : Message) (s : Moses) :
    Moses × List Reaction :=
  match m.leadingNumber? with
  | none => (s, [scope.mismatch "float" m])
  | some x =>
    match arrival with
    | .inlet 0 => (s, [emitOn (if x < s.threshold then 0 else 1) (.number x)])
    | .inlet 1 => (⟨x⟩, [])
    | _ => (s, [])

end Moses

/-- Exchanges two numbers: the incoming one goes out on the right, the stored one on the left,
the right outlet first. -/
structure Swap where
  left : Float32
  right : Float32

namespace Swap

def new : Swap := ⟨0, 0⟩

def init (scope : InitScope) (s : Swap) : Swap × List Request :=
  ({ s with right := (scope.numberArg? 0).getD 0 }, [])

/-- Send both numbers. -/
def result (s : Swap) : Swap × List Reaction :=
  (s, [emitOn 1 (.number s.left), emitOn 0 (.number s.right)])

def onMessage (scope : MessageScope) (arrival : Arrival) (m : Message) (s : Swap) :
    Swap × List Reaction :=
  match arrival with
  | .inlet 0 =>
    match m.leadingNumber? with
    | some x => result { s with left := x }
    | none => if m.isBang then s.result else (s, [scope.mismatch "float" m])
  | .inlet 1 => takeNumber scope m s fun x => { s with right := x }
  | _ => (s, [])

end Swap

/-- Bangs the outlet of the argument that equals the input; other input passes through the last
outlet. -/
structure Select where
  cases : List Atom

namespace Select

def ofArgs (args : List String) : Select :=
  ⟨if args.isEmpty then [.number 0] else args.map Atom.ofString⟩

def preinit (s : Select) (layout : Layout) : Layout :=
  { layout with outlets := List.replicate (s.cases.length + 1) .message }

/-- The atom that a message is told apart by. -/
def subject? (m : Message) : Option Atom :=
  match m.atoms with
  | [.symbol s, a] => if s = "symbol" then some a else some (.symbol s)
  | atoms => atoms.head?

def onMessage (scope : MessageScope) (arrival : Arrival) (m : Message) (s : Select) :
    Select × List Reaction :=
  match arrival with
  | .inlet 0 =>
    match (subject? m).bind fun a => s.cases.findIdx? (· == a) with
    | some k => (s, [emitOn k .bang])
    | none => (s, [emitOn s.cases.length m])
  | .inlet 1 =>
    if s.cases.length = 1 then
      match m.first? with
      | some a => (⟨[a]⟩, [])
      | none => (s, [scope.mismatch "float" m])
    else (s, [])
  | _ => (s, [])

end Select

/-- Passes a number only if it differs from the one before. -/
structure Change where
  last : Option Float32

namespace Change

def new : Change := ⟨none⟩

def init (scope : InitScope) (_ : Change) : Change × List Request :=
  (⟨scope.numberArg? 0⟩, [])

def onMessage (scope : MessageScope) (arrival : Arrival) (m : Message) (s : Change) :
    Change × List Reaction :=
  match arrival with
  | .inlet 0 =>
    match m.atoms with
    | [.number x] =>
      if s.last.any (· == x) then (s, []) else (⟨some x⟩, [emitOn 0 (.number x)])
    | [.symbol "set", .number x] => (⟨some x⟩, [])
    | _ =>
      if m.isBang then (s, s.last.toList.map fun x => emitOn 0 (.number x))
      else (s, [scope.mismatch "float" m])
  | _ => (s, [])

end Change

end Patchbay
