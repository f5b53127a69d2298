/-
Blank characters, and text cut at them.

Blank means the `White_Space` property: the twenty-five characters that separate
words, the no-break and ideographic spaces among them.  A word is a longest run of
other characters.
-/

namespace Patchbay

/-- Whether a character has the `White_Space` property. -/
def isBlank (c : Char) : Bool :=
  let n := c.toNat
  (9 ≤ n && n ≤ 13) || n == 0x20 || n == 0x85 || n == 0xA0 || n == 0x1680 ||
    (0x2000 ≤ n && n ≤ 0x200A) || n == 0x2028 || n == 0x2029 || n == 0x202F ||
    n == 0x205F || n == 0x3000

/-- Cut a list at every element that satisfies `p`, dropping those elements.  There is one
piece more than there are cuts. -/
def cut {α : Type} (p : α → Bool) : List α → List (List α)
  | [] => [[]]
  | a :: rest =>
    if p a then [] :: cut p rest
    else match cut p rest with
      | [] => [[a]]
      | piece :: pieces => (a :: piece) :: pieces

/-- The words of a text. -/
def words (text : List Char) : List (List Char) :=
  (cut isBlank text).filter fun w => !w.isEmpty

/-- Pieces of text with a separator between each two. -/
def joinWith (separator : List Char) : List (List Char) → List Char
  | [] => []
  | [w] => w
  | w :: ws => w ++ separator ++ joinWith separator ws

/-- Words with one space between each two. -/
def unwords (ws : List (List Char)) : List Char :=
  joinWith [' '] ws

/-- Texts with one space between each two. -/
def joinWords (ws : List String) : String :=
  String.ofList (unwords (ws.map String.toList))

theorem cut_ne_nil {α : Type} (p : α → Bool) (l : List α) : cut p l ≠ [] := by
  induction l with
  | nil => simp [cut]
  | cons a rest ih =>
    simp only [cut]
    split
    · simp
    · split <;> simp

theorem isEmpty_of_mem_words {text w : List Char} (h : w ∈ words text) : w.isEmpty = false := by
  simpa using (List.mem_filter.mp h).2

end Patchbay
