/-
Cutting the text of a patch into directives.

A directive starts at a `#` and ends at a semicolon that stands at the end of a
line or of the text, unless a backslash comes right before it.  Whatever stands
between two directives is skipped, and a directive that never ends is dropped.
-/

namespace Patchbay.Source

/-- A directive that has begun: its first line, and its text so far, last character first. -/
structure Opened where
  line : Nat
  reversed : List Char

/-- Whether a line, or the text, ends here. -/
def atLineEnd : List Char → Bool
  | [] => true
  | c :: _ => c == '\n' || c == '\r'

/-- The line number after a character. -/
def nextLine (line : Nat) (c : Char) : Nat :=
  if c = '\n' then line + 1 else line

/-- The directives of the rest of a text, given the character before it, the current line, and
the directive that is open. -/
def directivesFrom (before : Char) (line : Nat) :
    Option Opened → List Char → List (Nat × List Char)
  | _, [] => []
  | none, c :: rest =>
    directivesFrom c (nextLine line c) (if c = '#' then some ⟨line, [c]⟩ else none) rest
  | some opened, c :: rest =>
    if c = ';' ∧ before ≠ '\\' ∧ atLineEnd rest then
      (opened.line, opened.reversed.reverse) :: directivesFrom c (nextLine line c) none rest
    else
      directivesFrom c (nextLine line c) (some { opened with reversed := c :: opened.reversed }) rest

/-- The directives of a text, each with the line it starts on. -/
def directives (text : List Char) : List (Nat × List Char) :=
  directivesFrom '\x00' 1 none text

end Patchbay.Source
