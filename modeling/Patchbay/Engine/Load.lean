import Patchbay.Engine.Basic
import Patchbay.Loader
import Patchbay.Patch.Reader

/-
Loading a patch.

The directives are carried out in order: boxes become nodes, connections become
wires, and table data goes into the table that is open.  A directive that cannot be
read or carried out is logged and skipped.  Then the graph is set up, and every box
once, in the order of the nodes.  An engine takes one patch in its life; only a
signal cycle makes a patch unusable.

A connection may ask for more inlets than can be counted.  The program stops there: loading
gets no further, and what has been built by then is all that there is.
-/

namespace Patchbay

/-- An engine while its patch is being read, and the table that is open for data. -/
structure Build (κ : Type) where
  engine : Engine κ
  openTable : Option String

namespace Engine

variable {κ : Type} [CustomKind κ]

/-- The kind of a box as it is looked up; an empty box is a placeholder. -/
def writtenKind (kind : String) : String :=
  if kind.isEmpty then "null" else kind

/-- Add the node of a box.  It keeps the kind as written, also if that kind is unknown. -/
def createNode (e : Engine κ) (kind : String) (position : Position) (args : List String) :
    Engine κ :=
  let kind := writtenKind kind
  let (decl, unknown) := e.registry.resolve kind
  let (object, complaints) := decl.make args
  let (object, layout) := object.preinit args decl.layout
  let inlets := (List.range layout.inlets).map decl.inletRate
  let node := Node.new kind args position decl.endpoint inlets layout.outlets object
    e.settings.bufferSize
  let index := e.graph.size
  e.onGraph (·.addNode node) |>.log
    (unknown ++ complaints ++ [.trace s!"added {kind} at index {index}"])

/-- Connect two boxes; a refusal is logged, and an overflow leaves everything as it was. -/
def connect (e : Engine κ) (line source outlet sink inlet : Nat) : Engine κ :=
  match e.graph.connect source outlet sink inlet with
  | .ok (_, graph, entries) => { e with graph }.log entries
  | .error .overflow => e
  | .error fault =>
    e.log [.warn (Error.malformed line (.refusedWire source outlet sink inlet fault)).message]

/-- Write data into the open table. -/
def fillTable (e : Engine κ) (line : Nat) (openTable : Option String) (start : Nat)
    (values : List Float32) : Except Error Tables :=
  match openTable with
  | none => .error (.malformed line .outsideTable)
  | some name =>
    match Tables.write e.tables name start values with
    | none => .error (.malformed line (.noSuchTable name))
    | some result => result

/-- Carry out one directive. -/
def apply (b : Build κ) (s : Statement) : Build κ :=
  match s.directive with
  | .object position kind args => { b with engine := b.engine.createNode kind position args }
  | .message position text => { b with engine := b.engine.createNode "msg" position text }
  | .comment position text => { b with engine := b.engine.createNode "text" position text }
  | .array name size args =>
    let (tables, entries) := Tables.create b.engine.tables name size
    let engine := { b.engine with tables }.log entries
    { engine := engine.createNode "table" ⟨0, 0⟩ (name :: toString size :: args)
      openTable := some name }
  | .restore => { b with openTable := none }
  | .connect source outlet sink inlet =>
    { b with engine := b.engine.connect s.line source outlet sink inlet }
  | .fill start values =>
    match b.engine.fillTable s.line b.openTable start values with
    | .ok tables => { b with engine := { b.engine with tables } }
    | .error fault => { b with engine := b.engine.log [.error fault.message] }
  | .ignored => b

/-- Carry out a directive that could be read, or log that it could not. -/
def applyResult (b : Build κ) : Except Error Statement → Build κ
  | .ok s => apply b s
  | .error fault => { b with engine := b.engine.log [.warn fault.message] }

/-- Whether the program stops at a directive. -/
def stopsAt (b : Build κ) : Except Error Statement → Bool
  | .ok ⟨_, .connect source outlet sink inlet⟩ => b.engine.graph.overflows source outlet sink inlet
  | _ => false

/-- Carry out what has been read, as far as the program gets: whether that is all of it, and what
has been built by then. -/
def carryOut (b : Build κ) : List (Except Error Statement) → Bool × Build κ
  | [] => (true, b)
  | r :: rest => if stopsAt b r then (false, b) else carryOut (applyResult b r) rest

/-- What a box sees of the engine while it is being set up. -/
def initScope (e : Engine κ) (node : Nat) (n : Node κ) : InitScope :=
  { node, kind := n.kind, args := n.args, inlets := n.inlets, tables := e.tables,
    settings := e.settings }

/-- Grant what a box asks for while it is being set up. -/
def grant (node : Nat) (e : Engine κ) : Request → Engine κ
  | .constant inlet value =>
    e.onGraph fun g => g.modifyNode node fun n =>
      { n with inlets := n.inlets.modify inlet fun slot => slot.setConstant value }
  | .listen name => { e with receivers := e.receivers.insert name (e.listeners name ++ [node]) }
  | .schedule due commands => e.schedule due commands
  | .record entry => e.log [entry]

/-- Set up one box. -/
def initNode (e : Engine κ) (node : Nat) : Engine κ :=
  match e.graph.nodes[node]? with
  | none => e
  | some n =>
    let (object, requests) := n.object.init (e.initScope node n)
    let e := e.onGraph fun g => g.modifyNode node fun n => { n with object }
    requests.foldl (grant node) e

/-- Set up every box, in the order of the nodes. -/
def initNodes (e : Engine κ) : Engine κ :=
  (List.range e.graph.size).foldl initNode e

/-- The engine after all directives of a patch have been carried out, if the program gets so
far. -/
def build (e : Engine κ) (statements : List (Except Error Statement)) : Engine κ :=
  (statements.foldl applyResult ⟨{ e with loaded := true }, none⟩).engine

/-- What the journal says about a patch that is ready. -/
def loadedEntry (e : Engine κ) : Entry :=
  .record .debug "patch loaded"
    [("nodes", .count e.graph.size), ("wires", .count e.graph.wires.length),
     ("endpoints", .count e.graph.endpoints.length)]

/-- What is left to do once all directives have been carried out. -/
def finish (e : Engine κ) : Except Error Unit × Engine κ :=
  let (result, graph) := e.graph.setupInPlace
  let e := { e with graph }
  match result with
  | .error fault => (.error fault, e)
  | .ok () =>
    let e := initNodes e
    (.ok (), e.log [e.loadedEntry])

/-- What a load comes to, by how far the program has got. -/
def conclude : Bool × Build κ → Except Error Unit × Engine κ
  | (false, b) => (.error .overflow, b.engine)
  | (true, b) => b.engine.finish

/-- Load a patch that has been read. -/
def loadRead (e : Engine κ) (read : List (Except Error Statement)) :
    Except Error Unit × Engine κ :=
  if e.loaded then (.error .alreadyLoaded, e)
  else conclude (carryOut ⟨{ e with loaded := true }, none⟩ read)

/-- Load a patch.  The engine in the answer holds the journal even if loading fails. -/
def load (e : Engine κ) (source : String) : Except Error Unit × Engine κ :=
  e.loadRead (Patch.read source)

/-- Fetch a patch and load it. -/
def loadFrom (e : Engine κ) (loader : Loader) (location : String) :
    Except Error Unit × Engine κ :=
  let (fetched, entries) := loader.fetch location
  let e := e.log entries
  match fetched with
  | .error fault => (.error fault, e.log [.error fault.message])
  | .ok source => e.load source

end Engine

end Patchbay
