import Patchbay.Number.Single
import Patchbay.Text.Blank

/-
Messages: lists of numbers and symbols that travel between boxes.

A message is read from text word by word; a word that reads as a finite number is a
number and every other word is a symbol.  Writing a message joins the texts of its
atoms with single spaces.  A leading `list` symbol is a selector: it says that the
other atoms belong together, and most boxes look only at those.
-/

namespace Patchbay

/-- One element of a message. -/
inductive Atom where
  | number (value : Float32)
  | symbol (name : String)
  deriving BEq, Inhabited

namespace Atom

/-- Read a word: whatever reads as a finite number is one. -/
def ofChars (word : List Char) : Atom :=
  match Single.readFinite? word with
  | some x => .number x
  | none => .symbol (String.ofList word)

def ofString (word : String) : Atom :=
  ofChars word.toList

def number? : Atom → Option Float32
  | .number x => some x
  | .symbol _ => none

def symbol? : Atom → Option String
  | .number _ => none
  | .symbol s => some s

/-- The text of an atom. -/
def text : Atom → String
  | .number x => Single.text x
  | .symbol s => s

end Atom

/-- A list of atoms, sent from one box to another. -/
structure Message where
  atoms : List Atom
  deriving BEq, Inhabited

namespace Message

/-- Read a message from text, one atom for each word. -/
def ofChars (text : List Char) : Message :=
  ⟨(words text).map Atom.ofChars⟩

def ofString (text : String) : Message :=
  ofChars text.toList

def number (x : Float32) : Message :=
  ⟨[.number x]⟩

def symbol (name : String) : Message :=
  ⟨[.symbol name]⟩

/-- The message that only says "now". -/
def bang : Message :=
  symbol "bang"

/-- The atoms behind a `list` selector. -/
def list (atoms : List Atom) : Message :=
  ⟨.symbol "list" :: atoms⟩

/-- The atoms joined by single spaces. -/
def text (m : Message) : String :=
  joinWords (m.atoms.map Atom.text)

def first? (m : Message) : Option Atom :=
  m.atoms.head?

/-- The leading number, if the message starts with one. -/
def leadingNumber? (m : Message) : Option Float32 :=
  m.first?.bind Atom.number?

def isEmpty (m : Message) : Bool :=
  m.atoms.isEmpty

/-- Whether the message starts with the symbol `bang`. -/
def isBang (m : Message) : Bool :=
  match m.atoms with
  | .symbol s :: _ => s == "bang"
  | _ => false

/-- The atoms without a leading `list` selector. -/
def elements (m : Message) : List Atom :=
  match m.atoms with
  | .symbol s :: rest => if s = "list" then rest else m.atoms
  | atoms => atoms

@[simp] theorem elements_list (atoms : List Atom) : (list atoms).elements = atoms := by
  simp [list, elements]

@[simp] theorem isBang_bang : bang.isBang = true := by
  simp [bang, symbol, isBang]

@[simp] theorem leadingNumber?_number (x : Float32) : (number x).leadingNumber? = some x := rfl

end Message

end Patchbay
