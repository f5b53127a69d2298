import Patchbay.Engine.Drive

/-
Performing commands.

Timed actions are lists of commands, and some commands render frames in which further
actions are due.  An action is taken out of the agenda before it runs and holds
finitely many actions itself, so actions can set off one another at most as deeply as
there are actions in all; that number bounds the recursion.
-/

namespace Patchbay

namespace Engine

variable {κ : Type} [CustomKind κ]

/-- Render frames one after the other and collect them. -/
def renderMany (render : Engine κ → Engine κ) : Nat → Engine κ → List (Array Float32) × Engine κ
  | 0, e => ([], e)
  | n + 1, e =>
    let e := render e
    let frame := e.output
    let (frames, e) := renderMany render n e
    (frame :: frames, e)

/-- The answer to a drive. -/
def driveReply : Except Error Nat → Reply κ
  | .ok frames => .count frames
  | .error e => .failed e

/-- The answer that may be missing. -/
def replyOf {α : Type} (f : α → Reply κ) (x : Option α) : Reply κ :=
  match x with
  | some a => f a
  | none => .silence

/-- Perform a command, given how to render a frame. -/
def performWith (render : Engine κ → Engine κ) (c : Command) (e : Engine κ) :
    Reply κ × Engine κ :=
  match c with
  | .send name m => (.silence, e.send name m)
  | .emit node outlet m => (.silence, e.emit (nodeIndex node) outlet m)
  | .render n =>
    let (frames, e) := renderMany render n e
    (.frames frames, e)
  | .skip n => (.silence, Nat.repeat render n e)
  | .tick node => (.silence, e.tick (nodeIndex node))
  | .output => (.samples e.output, e)
  | .schedule due commands => (.silence, e.schedule due commands)
  | .mark topic label => (.silence, e.log [.note topic [.text label, .count e.frame]])
  | .play =>
    let (result, e) := playWith render e
    (driveReply result, e)
  | .write =>
    let (result, e) := writeWith render e
    (driveReply result, e)
  | .stop => (.silence, e.stop)
  | .status => (.status e.status, e)
  | .table name => (replyOf .table (e.tables.get? name), e)
  | .receivers name => (.nodes (e.listeners name), e)
  | .kinds => (.count e.registry.size, e)
  | .wires => (.wires e.graph.wires, e)
  | .size => (.size e.graph.size e.graph.wires.length e.graph.endpoints, e)
  | .signalSource node inlet =>
    (replyOf (fun (n, i) => .slot n i) (e.graph.signalSource? (nodeIndex node) inlet), e)
  | .messageTarget node outlet =>
    (replyOf (fun (n, i) => .slot n i) (e.graph.messageTarget? (nodeIndex node) outlet), e)
  | .node index => (replyOf .node (e.graph.node? index), e)

/-- Perform a command of an action; its answer goes into the journal. -/
def performLogged (render : Engine κ → Engine κ) (e : Engine κ) (c : Command) : Engine κ :=
  let (r, e) := performWith render c e
  if r.isSilence then e else { e with journal := e.journal.push (.reply r) }

/-- Run an action that may set off others, nested at most `depth` deep. -/
def runWithin : Nat → Action → Engine κ → Engine κ
  | 0, _, e => e
  | depth + 1, action, e => action.foldl (performLogged (renderWith (runWithin depth))) e

/-- How many actions wait, those inside other actions included. -/
def waitingActions (e : Engine κ) : Nat :=
  e.agenda.size + actionsWithin e.agenda.actions.flatten

/-- Advance one frame: run the actions that are due, then compute the output. -/
def render (e : Engine κ) : Engine κ :=
  renderWith (runWithin e.waitingActions) e

/-- Perform a command. -/
def perform (e : Engine κ) (c : Command) : Reply κ × Engine κ :=
  performWith render c e

/-- Start producing audio, filling the sink at once. -/
def play (e : Engine κ) : Except Error Nat × Engine κ :=
  playWith render e

/-- Render and hand off frames while the sink wants more. -/
def write (e : Engine κ) : Except Error Nat × Engine κ :=
  writeWith render e

end Engine

end Patchbay
