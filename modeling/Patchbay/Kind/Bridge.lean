import Patchbay.Scope

/-
Boxes between the graph and the world around it: `receive`, `loadbang` and `print`.
-/

namespace Patchbay

/-- Passes on what is sent to a name. -/
structure Receive where
  name : Option String

namespace Receive

def new : Receive := ⟨none⟩

def init (scope : InitScope) (s : Receive) : Receive × List Request :=
  match scope.arg? 0 with
  | some name => (⟨some name⟩, [.listen name])
  | none => (s, [])

def onMessage (arrival : Arrival) (m : Message) (s : Receive) : Receive × List Reaction :=
  match arrival with
  | .external => (s, [emitOn 0 m])
  | .inlet _ => (s, [])

end Receive

/-- What `loadbang` asks for: a bang out of its outlet in the first frame. -/
def bangAtStart (scope : InitScope) : List Request :=
  [.schedule 0 [.emit scope.node 0 .bang]]

/-- Writes every message into the journal, under a name. -/
structure Print where
  name : String

namespace Print

def new : Print := ⟨"print"⟩

def init (scope : InitScope) (s : Print) : Print × List Request :=
  (⟨(scope.arg? 0).getD s.name⟩, [])

def onMessage (m : Message) (s : Print) : Print × List Reaction :=
  (s, [.record (.info s!"{s.name}: {m.text}")])

end Print

end Patchbay
