import Patchbay.Toml.Value
import Patchbay.Number.Double

/-
Reading TOML documents.

A reader takes the rest of the text and answers with what it read and the text
behind it, or with nothing.  Readers of nested values and of strings over several
lines carry a bound on their steps; the length of the text is always enough.  How
deep values may nest, and how many names a dotted key may have, is bounded too, but
that bound is part of the format.
-/

namespace Patchbay.Toml

def isSpace (c : Char) : Bool :=
  c == ' ' || c == '\t'

def skipSpace (cs : List Char) : List Char :=
  cs.dropWhile isSpace

/-- Characters that may stand in comments and strings: everything but control characters, the
tab excepted. -/
def isPrintable (c : Char) : Bool :=
  c == '\t' || (0x20 ≤ c.toNat && c.toNat != 0x7F)

/-- The text behind one line end. -/
def lineEnd? : List Char → Option (List Char)
  | '\n' :: rest => some rest
  | '\r' :: '\n' :: rest => some rest
  | _ => none

/-- The text behind a comment, if one starts here. -/
def skipComment : List Char → List Char
  | '#' :: rest => rest.dropWhile isPrintable
  | cs => cs

/-- Nothing may follow on the line but space and a comment. -/
def finishLine (cs : List Char) : Option (List Char) :=
  match skipComment (skipSpace cs) with
  | [] => some []
  | rest => lineEnd? rest

/-- Space, comments and line ends, as they may stand inside a bracketed list. -/
def skipLines : Nat → List Char → List Char
  | 0, cs => cs
  | fuel + 1, cs =>
    let rest := skipComment (skipSpace cs)
    match lineEnd? rest with
    | some next => skipLines fuel next
    | none => rest

/-! ### Strings -/

def hexDigit? (c : Char) : Option Nat :=
  if c.isDigit then some (c.toNat - '0'.toNat)
  else if 'a' ≤ c ∧ c ≤ 'f' then some (c.toNat - 'a'.toNat + 10)
  else if 'A' ≤ c ∧ c ≤ 'F' then some (c.toNat - 'A'.toNat + 10)
  else none

/-- The character with the code that the digits write. -/
def codePoint? (digits : List Char) : Option Char := do
  let ds ← digits.mapM hexDigit?
  let n := ds.foldl (fun n d => n * 16 + d) 0
  if n.isValidChar then some (Char.ofNat n) else none

/-- An escape behind its backslash. -/
def readEscape : List Char → Option (Char × List Char)
  | 'b' :: rest => some ('\x08', rest)
  | 't' :: rest => some ('\t', rest)
  | 'n' :: rest => some ('\n', rest)
  | 'f' :: rest => some ('\x0c', rest)
  | 'r' :: rest => some ('\r', rest)
  | '"' :: rest => some ('"', rest)
  | '\\' :: rest => some ('\\', rest)
  | 'u' :: rest =>
    if rest.length < 4 then none else (codePoint? (rest.take 4)).map fun c => (c, rest.drop 4)
  | 'U' :: rest =>
    if rest.length < 8 then none else (codePoint? (rest.take 8)).map fun c => (c, rest.drop 8)
  | _ => none

/-- A string in double quotes, behind the first quote. -/
def readBasic : Nat → List Char → Option (List Char × List Char)
  | 0, _ => none
  | fuel + 1, cs =>
    match cs with
    | [] => none
    | '"' :: rest => some ([], rest)
    | '\\' :: rest => do
      let (c, rest) ← readEscape rest
      let (s, rest) ← readBasic fuel rest
      pure (c :: s, rest)
    | c :: rest =>
      if isPrintable c then (readBasic fuel rest).map fun (s, rest) => (c :: s, rest) else none

/-- A string in single quotes, behind the first quote. -/
def readLiteral : List Char → Option (List Char × List Char)
  | [] => none
  | c :: rest =>
    if c = '\x27' then some ([], rest)
    else if isPrintable c then (readLiteral rest).map fun (s, rest) => (c :: s, rest)
    else none

/-- The quotes at a closing of three: up to two more belong to the string. -/
def closing? (quote : Char) (cs : List Char) : Option (List Char × List Char) :=
  let run := (cs.takeWhile (· == quote)).length
  if run < 3 then none
  else
    let extra := min (run - 3) 2
    some (List.replicate extra quote, cs.drop (extra + 3))

/-- Behind a backslash at the end of a line: space and line ends up to the next other
character. -/
def skipFold : List Char → List Char
  | '\n' :: rest => skipFold rest
  | '\r' :: '\n' :: rest => skipFold rest
  | c :: rest => if isSpace c then skipFold rest else c :: rest
  | [] => []

/-- A string over several lines, behind its three quotes.  Only double quotes know escapes. -/
def readMultiline (quote : Char) : Nat → List Char → Option (List Char × List Char)
  | 0, _ => none
  | fuel + 1, cs =>
    match closing? quote cs with
    | some done => some done
    | none =>
      match lineEnd? cs with
      | some rest => (readMultiline quote fuel rest).map fun (s, rest) => ('\n' :: s, rest)
      | none =>
        match cs with
        | [] => none
        | c :: rest =>
          if c = '\\' ∧ quote = '"' then
            match lineEnd? (skipSpace rest) with
            | some next => readMultiline quote fuel (skipFold next)
            | none => do
              let (c, rest) ← readEscape rest
              let (s, rest) ← readMultiline quote fuel rest
              pure (c :: s, rest)
          else if isPrintable c then
            (readMultiline quote fuel rest).map fun (s, rest) => (c :: s, rest)
          else none

/-- A line end right behind the opening quotes is not part of the string. -/
def dropFirstLineEnd (cs : List Char) : List Char :=
  (lineEnd? cs).getD cs

def readString (cs : List Char) : Option (String × List Char) :=
  let fuel := cs.length + 1
  let result := match cs with
    | '"' :: '"' :: '"' :: rest => readMultiline '"' fuel (dropFirstLineEnd rest)
    | '\x27' :: '\x27' :: '\x27' :: rest => readMultiline '\x27' fuel (dropFirstLineEnd rest)
    | '"' :: rest => readBasic fuel rest
    | '\x27' :: rest => readLiteral rest
    | _ => none
  result.map fun (s, rest) => (String.ofList s, rest)

/-! ### Keys -/

def isKeyChar (c : Char) : Bool :=
  c.isAlphanum || c == '_' || c == '-'

def readSimpleKey (cs : List Char) : Option (String × List Char) :=
  match cs with
  | '"' :: '"' :: '"' :: _ => none
  | '\x27' :: '\x27' :: '\x27' :: _ => none
  | '"' :: _ => readString cs
  | '\x27' :: _ => readString cs
  | _ =>
    let name := cs.takeWhile isKeyChar
    if name.isEmpty then none else some (String.ofList name, cs.dropWhile isKeyChar)

/-- How deep values may nest, and how many names a key may have. -/
def nestingLimit : Nat := 79

/-- At most `room` names with dots between them. -/
def readNames : Nat → List Char → Option (List String × List Char)
  | 0, _ => none
  | room + 1, cs => do
    let (name, rest) ← readSimpleKey (skipSpace cs)
    match skipSpace rest with
    | '.' :: more => do
      let (names, rest) ← readNames room more
      pure (name :: names, rest)
    | rest => pure ([name], rest)

/-- A key. -/
def readKey (cs : List Char) : Option (List String × List Char) :=
  readNames nestingLimit cs

/-! ### Numbers and times -/

/-- Digits with single underscores between them, the underscores dropped. -/
def groupedDigits? (isDigit : Char → Bool) : List Char → Option (List Char)
  | [] => none
  | [c] => if isDigit c then some [c] else none
  | c :: '_' :: rest => if isDigit c then (groupedDigits? isDigit rest).map (c :: ·) else none
  | c :: rest => if isDigit c then (groupedDigits? isDigit rest).map (c :: ·) else none

/-- Decimal digits without a needless zero in front. -/
def plainDigits? (cs : List Char) : Option (List Char) :=
  match groupedDigits? Char.isDigit cs with
  | some ('0' :: _ :: _) => none
  | other => other

/-- Whole numbers are held in sixty-four bits. -/
def withinRange (n : Int) : Option Int :=
  if -(twoTo 63 : Int) ≤ n ∧ n < twoTo 63 then some n else none

/-- A whole number in another base than ten. -/
def basedInteger? (base : Nat) (cs : List Char) : Option Int := do
  let isDigit (c : Char) : Bool := (hexDigit? c).any (· < base)
  let ds ← (← groupedDigits? isDigit cs).mapM hexDigit?
  withinRange (ds.foldl (fun n d => n * base + d) 0 : Nat)

def integer? (cs : List Char) : Option Int :=
  match cs with
  | '0' :: 'x' :: ds => basedInteger? 16 ds
  | '0' :: 'o' :: ds => basedInteger? 8 ds
  | '0' :: 'b' :: ds => basedInteger? 2 ds
  | _ => do
    let (negative, body) := readSign cs
    let n := digitsValue (← plainDigits? body)
    withinRange (if negative then -(n : Int) else n)

/-- Whether a text is a number with a fraction or an exponent, or a word for one that is not
finite. -/
def isFloat (cs : List Char) : Bool :=
  let body := (readSign cs).2
  let isExponent (c : Char) : Bool := c == 'e' || c == 'E'
  let mantissa := body.takeWhile fun c => !isExponent c
  let whole := mantissa.takeWhile (· != '.')
  let fraction := mantissa.dropWhile (· != '.')
  let exponent := (body.dropWhile fun c => !isExponent c)
  let fractionOk := fraction.isEmpty || (groupedDigits? Char.isDigit fraction.tail).isSome
  let exponentOk := exponent.isEmpty ||
    (groupedDigits? Char.isDigit (readSign exponent.tail).2).isSome
  body == "inf".toList || body == "nan".toList ||
    ((plainDigits? whole).isSome && fractionOk && exponentOk &&
      !(fraction.isEmpty && exponent.isEmpty))

/-- Whether a decimal is too large to be held. -/
def overflows (cs : List Char) : Bool :=
  match Double.read? (cs.filter (· != '_')) with
  | some x => cs.any Char.isDigit && Double.value x == .infinite false
  | none => false

/-- A number of exactly `n` digits that lies between two bounds. -/
def fixedDigits (n low high : Nat) (cs : List Char) : Option (Nat × List Char) :=
  let ds := cs.take n
  let v := digitsValue ds
  if ds.length = n ∧ ds.all Char.isDigit ∧ low ≤ v ∧ v ≤ high then some (v, cs.drop n) else none

def expect (c : Char) : List Char → Option (List Char)
  | d :: rest => if c = d then some rest else none
  | [] => none

def daysIn (year month : Nat) : Nat :=
  if month = 2 then
    if year % 4 = 0 ∧ (year % 100 ≠ 0 ∨ year % 400 = 0) then 29 else 28
  else if month = 4 ∨ month = 6 ∨ month = 9 ∨ month = 11 then 30
  else 31

/-- The text behind a calendar date. -/
def skipDate (cs : List Char) : Option (List Char) := do
  let (year, rest) ← fixedDigits 4 0 9999 cs
  let (month, rest) ← fixedDigits 2 1 12 (← expect '-' rest)
  let (_, rest) ← fixedDigits 2 1 (daysIn year month) (← expect '-' rest)
  pure rest

/-- The text behind a time of day. -/
def skipTime (cs : List Char) : Option (List Char) := do
  let (_, rest) ← fixedDigits 2 0 23 cs
  let (_, rest) ← fixedDigits 2 0 59 (← expect ':' rest)
  let (_, rest) ← fixedDigits 2 0 60 (← expect ':' rest)
  match rest with
  | '.' :: c :: more => if c.isDigit then pure (more.dropWhile Char.isDigit) else none
  | '.' :: [] => none
  | _ => pure rest

/-- The text behind an offset from universal time, or all of it if there is none. -/
def skipOffset (cs : List Char) : Option (List Char) :=
  match cs with
  | c :: rest =>
    if c = 'Z' ∨ c = 'z' then some rest
    else if c = '+' ∨ c = '-' then do
      let (_, rest) ← fixedDigits 2 0 23 rest
      let (_, rest) ← fixedDigits 2 0 59 (← expect ':' rest)
      pure rest
    else some cs
  | [] => some []

/-- The text behind a date, a time, or both. -/
def skipMoment (cs : List Char) : Option (List Char) :=
  match skipDate cs with
  | none => skipTime cs
  | some rest =>
    match rest with
    | c :: more =>
      if c = 'T' ∨ c = 't' then (skipTime more).bind skipOffset
      else if c = ' ' then ((skipTime more).bind skipOffset).or (some rest)
      else some rest
    | [] => some rest

/-- The characters of a number. -/
def isNumberChar (c : Char) : Bool :=
  c.isAlphanum || c == '_' || c == '+' || c == '-' || c == '.' || c == ':'

/-- A number or a time. -/
def readNumber (cs : List Char) : Option (Value × List Char) :=
  match skipMoment cs with
  | some rest => some (.time (String.ofList (cs.take (cs.length - rest.length))), rest)
  | none =>
    let lexeme := cs.takeWhile isNumberChar
    let rest := cs.dropWhile isNumberChar
    match integer? lexeme with
    | some n => some (.integer n, rest)
    | none =>
      if isFloat lexeme && !overflows lexeme then some (.float (String.ofList lexeme), rest)
      else none

/-! ### Values -/

mutual

/-- Any value that nests at most `room` deep. -/
def readValue : Nat → Nat → List Char → Option (Value × List Char)
  | _, 0, _ => none
  | room, fuel + 1, cs =>
    match cs with
    | '[' :: rest =>
      if room = 0 then none
      else (readItems (room - 1) fuel rest).map fun (vs, rest) => (.array vs, rest)
    | '\x7b' :: rest =>
      if room = 0 then none
      else
        match skipSpace rest with
        | '\x7d' :: rest => some (.inlineTable [], rest)
        | rest => (readPairs (room - 1) fuel [] rest).map fun (es, rest) => (.inlineTable es, rest)
    | 't' :: 'r' :: 'u' :: 'e' :: rest => some (.boolean true, rest)
    | 'f' :: 'a' :: 'l' :: 's' :: 'e' :: rest => some (.boolean false, rest)
    | '"' :: _ => (readString cs).map fun (s, rest) => (.string s, rest)
    | '\x27' :: _ => (readString cs).map fun (s, rest) => (.string s, rest)
    | _ => readNumber cs

/-- The values of a list, up to the closing bracket. -/
def readItems : Nat → Nat → List Char → Option (List Value × List Char)
  | _, 0, _ => none
  | room, fuel + 1, cs =>
    match skipLines cs.length cs with
    | ']' :: rest => some ([], rest)
    | rest => do
      let (v, rest) ← readValue room fuel rest
      match skipLines rest.length rest with
      | ',' :: rest => do
        let (vs, rest) ← readItems room fuel rest
        pure (v :: vs, rest)
      | ']' :: rest => pure ([v], rest)
      | _ => none

/-- The pairs of an inline table, up to the closing brace. -/
def readPairs : Nat → Nat → Entries → List Char → Option (Entries × List Char)
  | _, 0, _, _ => none
  | room, fuel + 1, entries, cs => do
    let (key, rest) ← readKey cs
    let (v, rest) ← readValue room fuel (skipSpace (← expect '=' rest))
    let entries ← Entries.define true entries key v
    match skipSpace rest with
    | ',' :: rest => readPairs room fuel entries rest
    | '\x7d' :: rest => pure (entries, rest)
    | _ => none

end

/-! ### Documents -/

/-- A header behind its opening bracket: the path and the text behind the closing bracket. -/
def readHeader (cs : List Char) : Option (List String × List Char) := do
  let (path, rest) ← readKey cs
  pure (path, ← expect ']' rest)

/-- The lines of a document, given what is defined so far and the current header. -/
def readLines : Nat → Entries → List String → List Char → Option Entries
  | 0, _, _, _ => none
  | fuel + 1, entries, header, cs =>
    match skipSpace cs with
    | [] => some entries
    | '[' :: '[' :: rest => do
      let (path, rest) ← readHeader rest
      let entries ← entries.openArray path
      readLines fuel entries path (← finishLine (← expect ']' rest))
    | '[' :: rest => do
      let (path, rest) ← readHeader rest
      let entries ← entries.openTable path
      readLines fuel entries path (← finishLine rest)
    | line =>
      match finishLine line with
      | some rest => readLines fuel entries header rest
      | none => do
        let (key, rest) ← readKey line
        let (v, rest) ← readValue nestingLimit (rest.length + 1) (skipSpace (← expect '=' rest))
        let entries ← entries.defineUnder header key v
        readLines fuel entries header (← finishLine rest)

/-- Read a document; nothing if it is not TOML.  A byte-order mark in front is skipped. -/
def read? (source : String) : Option Entries :=
  let cs := match source.toList with
    | '\ufeff' :: rest => rest
    | cs => cs
  readLines (cs.length + 2) [] [] cs

end Patchbay.Toml
