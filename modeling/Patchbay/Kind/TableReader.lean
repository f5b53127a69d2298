import Patchbay.Scope

/-
Table lookup: `tabread~`.

Reads the named table at the index on inlet 0, without interpolation.  A table that
does not exist reads as silence; the message `set` and a name switches tables.
-/

namespace Patchbay

structure TableReader where
  table : Option String

namespace TableReader

def new : TableReader := ⟨none⟩

/-- A warning that a table does not exist. -/
def missing (name : String) : Entry :=
  .warn s!"tabread~: {name}: no such table"

def init (scope : InitScope) (s : TableReader) : TableReader × List Request :=
  match scope.arg? 0 with
  | none => (s, [])
  | some name => (⟨some name⟩, if scope.hasTable name then [] else [.record (missing name)])

def process (scope : FrameScope) (inputs : Array Input) (outputs : Array (Array Float32))
    (s : TableReader) : Processed TableReader :=
  match inputs[0]? with
  | none => .buffers s outputs
  | some index =>
    match s.table.bind scope.tables.get? with
    | some table => .buffers s (renderFirstPlain outputs fun i => table.read (index.sample i))
    | none => .buffers s (renderFirstPlain outputs fun _ => 0)

def onMessage (scope : MessageScope) (arrival : Arrival) (m : Message) (s : TableReader) :
    TableReader × List Reaction :=
  match arrival with
  | .inlet 0 =>
    match m.atoms with
    | [.symbol "set", .symbol name] =>
      (⟨some name⟩, if scope.tables.contains name then [] else [.record (missing name)])
    -- a leading number is the index; the inlet has already taken it
    | .number _ :: _ => (s, [])
    | _ => (s, [scope.mismatch "set <table>" m])
  | _ => (s, [])

end TableReader

end Patchbay
