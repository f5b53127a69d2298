import Patchbay.Text.Hidden

/-
Text in double quotes, as summaries show it.

Quotes and backslashes are escaped, so are the usual control characters by letter,
and every other character that would not show by its code.
-/

namespace Patchbay

/-- The code of a character, in hexadecimal digits. -/
def codeText (c : Char) : List Char :=
  (Nat.toDigits 16 c.toNat)

/-- One character as it stands between quotes. -/
def quoteChar (c : Char) : List Char :=
  if c = '\x22' then ['\\', '\x22']
  else if c = '\\' then ['\\', '\\']
  else if c = '\n' then ['\\', 'n']
  else if c = '\r' then ['\\', 'r']
  else if c = '\t' then ['\\', 't']
  else if c = '\x00' then ['\\', '0']
  else if isHidden c then ['\\', 'u', '\x7b'] ++ codeText c ++ ['\x7d']
  else [c]

/-- A text in quotes. -/
def quoted (s : String) : String :=
  String.ofList ('\x22' :: s.toList.flatMap quoteChar ++ ['\x22'])

end Patchbay
