import Patchbay.Message
import Patchbay.Error
import Patchbay.Text.Slice

/-
The text stored in a message box.

Box text holds messages separated by semicolons, and each message holds parts
separated by commas.  Patch files write a backslash before these delimiters, so one
backslash at the end of a piece belongs to the delimiter and is dropped.  Parts are
kept as words joined by single spaces; empty parts and empty messages vanish.

A part may hold placeholders, a dollar sign and a number, that stand for the atoms
of the message that makes the box fire.  `substitute` scans the bytes of the text from
left to right, so text that was put in is never looked at again.
-/

namespace Patchbay.BoxText

/-- A piece of text without the one backslash at its end, if it has one. -/
def dropEscape (piece : List Char) : List Char :=
  if piece.getLast? = some '\\' then piece.dropLast else piece

/-- Cut text at a delimiter, with the backslash before each delimiter. -/
def pieces (delimiter : Char) (text : List Char) : List (List Char) :=
  (cut (· == delimiter) text).map dropEscape

/-- The parts of one message, each with its words joined by single spaces. -/
def parts (message : List Char) : List (List Char) :=
  ((pieces ',' message).map fun part => unwords (words part)).filter fun part => !part.isEmpty

/-- The messages of box text, each as its list of parts. -/
def messages (text : List Char) : List (List (List Char)) :=
  ((pieces ';' text).map parts).filter fun ps => !ps.isEmpty

/-- The messages of box text and their parts. -/
def tokenize (text : String) : List (List String) :=
  (messages text.toList).map fun ps => ps.map String.ofList

/-! ### Placeholders -/

/-- The largest argument number that is told apart; larger ones count as zero. -/
def argumentLimit : Nat := twoTo 64

/-- The argument number that the digits of a placeholder write. -/
def argumentIndex (digits : List Char) : Nat :=
  let n := digitsValue digits
  if n < argumentLimit then n else 0

/-- The text for one placeholder: the atom with that number, counted from one, or a zero and an
error. -/
def argument (atoms : List Atom) (index : Nat) : String × List Error :=
  match index with
  | 0 => ("0", [.argumentOutOfRange 0])
  | k + 1 =>
    match atoms[k]? with
    | some atom => (atom.text, [])
    | none => ("0", [.argumentOutOfRange (k + 1)])

/-- One round of the scan. -/
structure Round where
  /-- The bytes that the round is done with. -/
  width : Nat
  /-- What it puts in for them. -/
  text : String
  faults : List Error
  width_pos : 0 < width

/-- How many bytes at the start of a text are a dollar sign, with the backslash before it. -/
def markWidth (rest : String) : Nat :=
  if ['\\', '$'].isPrefixOf rest.toList then 2
  else if ['$'].isPrefixOf rest.toList then 1
  else 0

/-- A round that copies the first character of what is left. -/
def copy? (rest : String) : Option Round :=
  match rest.toList with
  | [] => none
  | c :: _ => some ⟨c.utf8Size, String.singleton c, [], c.utf8Size_pos⟩

/-- The round for what is left of a text, which is not empty.  There is none if it slices inside
a character. -/
def round? (atoms : List Atom) (rest : String) : Option Round :=
  let mark := markWidth rest
  if _hMark : 0 < mark then
    match slice? rest mark rest.utf8ByteSize with
    | none => none
    | some after =>
      let digits := leadingDigits after
      if 0 < digits then
        match slice? rest mark (mark + digits) with
        | none => none
        | some numeral =>
          let (text, faults) := argument atoms (argumentIndex numeral.toList)
          some ⟨mark + digits, text, faults, Nat.add_pos_left _hMark _⟩
      else copy? rest
  else copy? rest

/-- Scan a text from one of its bytes on, with the text that is put out so far and its errors. -/
def scan (atoms : List Atom) (text : String) (i : Nat) (out : String) (faults : List Error) :
    Option (String × List Error) :=
  if _hMore : i < text.utf8ByteSize then
    match slice? text i text.utf8ByteSize with
    | none => none
    | some rest =>
      match round? atoms rest with
      | none => none
      | some r => scan atoms text (i + r.width) (out ++ r.text) (faults ++ r.faults)
  else some (out, faults)
termination_by text.utf8ByteSize - i
decreasing_by
  have := r.width_pos
  omega

/-- Replace every placeholder by an atom of the inbound message, its `list` selector not
counted.  The errors name the placeholders that ask for too much. -/
def substitute (text : String) (inbound : Message) : String × List Error :=
  (scan inbound.elements text 0 "" []).getD ("", [])

end Patchbay.BoxText
