import Patchbay.BoxText
import Patchbay.Scope

/-
Message boxes: `msg`.

Any message on the inlet makes the box fire its stored text, with placeholders filled
from that message.  The first message of the text goes out of outlet 0, one part
after the other.  Every later message is addressed: its first atom names the
receiver for all its parts, and a part without anything else sends nothing.  A
message that starts with `set` replaces the text and fires nothing.
-/

namespace Patchbay

structure MessageBox where
  text : String

namespace MessageBox

def new : MessageBox := ⟨""⟩

def init (scope : InitScope) (_ : MessageBox) : MessageBox × List Request :=
  (⟨joinWords scope.args⟩, [])

/-- A part with its placeholders filled, and complaints about those that could not be. -/
def expand (scope : MessageScope) (inbound : Message) (part : String) : Message × List Reaction :=
  let (text, errors) := BoxText.substitute part inbound
  (Message.ofString text, errors.map scope.report)

/-- Fire the parts of the first message. -/
def fireParts (scope : MessageScope) (inbound : Message) (parts : List String) : List Reaction :=
  parts.flatMap fun part =>
    let (m, reports) := expand scope inbound part
    reports ++ [emitOn 0 m]

/-- Send a message unless it is empty. -/
def sendUnlessEmpty (name : String) (m : Message) : List Reaction :=
  if m.isEmpty then [] else [emitTo name m]

/-- Fire the parts of an addressed message, once the receiver is known. -/
def fireTo (scope : MessageScope) (inbound : Message) (name : String) (parts : List String) :
    List Reaction :=
  parts.flatMap fun part =>
    let (m, reports) := expand scope inbound part
    reports ++ sendUnlessEmpty name m

/-- Fire an addressed message.  If its first atom is no name, all of it is dropped. -/
def fireAddressed (scope : MessageScope) (inbound : Message) : List String → List Reaction
  | [] => []
  | part :: parts =>
    let (m, reports) := expand scope inbound part
    match m.atoms with
    | .symbol name :: body =>
      reports ++ sendUnlessEmpty name ⟨body⟩ ++ fireTo scope inbound name parts
    | _ => reports ++ [scope.mismatch "receiver name" m]

/-- Everything that stored text does about a message. -/
def fire (scope : MessageScope) (inbound : Message) (text : String) : List Reaction :=
  match BoxText.tokenize text with
  | [] => []
  | first :: later =>
    fireParts scope inbound first ++ later.flatMap (fireAddressed scope inbound)

def onMessage (scope : MessageScope) (arrival : Arrival) (m : Message) (s : MessageBox) :
    MessageBox × List Reaction :=
  match arrival with
  | .inlet 0 =>
    match m.atoms with
    | .symbol "set" :: rest => (⟨Message.text ⟨rest⟩⟩, [])
    | _ => (s, fire scope m s.text)
  | _ => (s, [])

end MessageBox

end Patchbay
