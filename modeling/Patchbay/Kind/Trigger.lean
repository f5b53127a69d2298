import Patchbay.Scope

/-
Fanning out: `trigger`.

One outlet for each argument, fired from right to left, each with the message
converted to what the argument says.
-/

namespace Patchbay

inductive Conversion where
  | float
  | symbol
  | bang
  | anything
  deriving DecidableEq

namespace Conversion

def ofString (token : String) : Conversion :=
  if token = "f" ∨ token = "float" then .float
  else if token = "s" ∨ token = "symbol" then .symbol
  else if token = "b" ∨ token = "bang" then .bang
  else .anything

def name : Conversion → String
  | .float => "Float"
  | .symbol => "Symbol"
  | .bang => "Bang"
  | .anything => "Anything"

/-- A message converted, or nothing if it cannot be. -/
def convert? (c : Conversion) (m : Message) : Option Message :=
  match c with
  | .bang => some .bang
  | .anything => some m
  | .float =>
    match m.first? with
    | some (.number x) => some (.number x)
    | some (.symbol s) => if s = "symbol" then some (.number 0) else none
    | none => none
  | .symbol =>
    match m.first? with
    | some (.number _) => some ⟨[.symbol "symbol", .symbol "float"]⟩
    | some (.symbol s) => if s = "symbol" then some m else none
    | none => none

/-- What a conversion that cannot be carried out wanted to see. -/
def expected : Conversion → String
  | .float => "float"
  | .symbol => "symbol"
  | .bang => "bang"
  | .anything => "anything"

end Conversion

structure Trigger where
  conversions : List Conversion

namespace Trigger

def ofArgs (args : List String) : Trigger :=
  ⟨if args.isEmpty then [.anything, .anything] else args.map Conversion.ofString⟩

def preinit (s : Trigger) (layout : Layout) : Layout :=
  { layout with outlets := s.conversions.map fun _ => .message }

/-- What one outlet does about a message. -/
def fireOutlet (scope : MessageScope) (m : Message) (c : Conversion) (outlet : Nat) : Reaction :=
  match c.convert? m with
  | some out => emitOn outlet out
  | none => scope.report (.typeMismatch "trigger" c.expected m.text)

def onMessage (scope : MessageScope) (arrival : Arrival) (m : Message) (s : Trigger) :
    Trigger × List Reaction :=
  match arrival with
  | .inlet 0 => (s, s.conversions.zipIdx.reverse.map fun (c, outlet) => fireOutlet scope m c outlet)
  | _ => (s, [])

end Trigger

end Patchbay
