import RemoteTable.Text.Numeral

/-!
# TOML strings

The four forms of strings: in double quotes with escapes or in single quotes without, each on one
line or, in tripled quotes, on several. A string on several lines drops a line break right behind
its opening quotes, and may hold up to two of its quotes in a row, at its end too.
-/

namespace RemoteTable

namespace Toml

/-- Whether a character may stand in a document by itself: no control character but the tab. -/
def isPlain (c : Char) : Bool :=
  c == '\t' || (' ' ≤ c && c != '\x7f')

/-- The value of a hexadecimal digit of either case. -/
def hexValue? (c : Char) : Option Nat :=
  if isDigit c then some (digitValue c)
  else if 'a' ≤ c ∧ c ≤ 'f' then some (c.toNat - 'a'.toNat + 10)
  else if 'A' ≤ c ∧ c ≤ 'F' then some (c.toNat - 'A'.toNat + 10)
  else none

/-- The character that a backslash and this letter stand for. -/
def unescape? (c : Char) : Option Char :=
  if c = '"' ∨ c = '\\' then some c
  else if c = 'b' then some '\x08'
  else if c = 't' then some '\t'
  else if c = 'n' then some '\n'
  else if c = 'f' then some '\x0c'
  else if c = 'r' then some '\r'
  else none

/-- The character of a code point, unless it is half of a surrogate pair or beyond all. -/
def charOf? (n : Nat) : Option Char :=
  if h : n.isValidChar then some (Char.ofNatAux n h) else none

/-- Where the reader of a string stands. -/
inductive Place where
  /-- Between characters. -/
  | plain
  /-- Behind a backslash. -/
  | escaped
  /-- Inside a code point, with so many hexadecimal digits still to come. -/
  | unit (left value : Nat)
  /-- Behind a backslash and blanks that a line break has to follow. -/
  | lineEnd
  /-- Behind a backslash and a line break, where blanks and line breaks do not count. -/
  | indent
  /-- Behind a carriage return that a line feed has to follow; the line break counts or not. -/
  | carriage (counts : Bool)
  /-- Behind so many quotes in a row. -/
  | quotes (count : Nat)

/-- What becomes of a code point's digit: the next place, and the character if it is complete. -/
def readUnit (left value : Nat) (c : Char) : Option (Place × List Char) :=
  match hexValue? c with
  | none => none
  | some digit =>
    if 1 < left then some (.unit (left - 1) (16 * value + digit), [])
    else (charOf? (16 * value + digit)).map fun char => (.plain, [char])

/-! ## Strings on one line -/

/-- Reads a string in double quotes up to its end; `read` holds its characters in reverse. -/
def readBasic (place : Place) (read : List Char) : List Char → Option (List Char × List Char)
  | [] => none
  | c :: cs =>
    match place with
    | .escaped =>
      if c = 'u' then readBasic (.unit 4 0) read cs
      else if c = 'U' then readBasic (.unit 8 0) read cs
      else match unescape? c with
        | some char => readBasic .plain (char :: read) cs
        | none => none
    | .unit left value =>
      match readUnit left value c with
      | some (place, chars) => readBasic place (chars ++ read) cs
      | none => none
    | _ =>
      if c = '"' then some (read.reverse, cs)
      else if c = '\\' then readBasic .escaped read cs
      else if isPlain c then readBasic .plain (c :: read) cs
      else none

/-- Reads a string in single quotes up to its end. -/
def readLiteral (read : List Char) : List Char → Option (List Char × List Char)
  | [] => none
  | c :: cs =>
    if c = '\'' then some (read.reverse, cs)
    else if isPlain c then readLiteral (c :: read) cs
    else none

/-! ## Strings on several lines -/

/-- What a character between characters leads to in a string on several lines: the next place and
the characters to add. `quote` is the string's quote, and only strings in double quotes have
escapes. -/
def multilinePlain (quote c : Char) : Option (Place × List Char) :=
  if c = quote then some (.quotes 1, [])
  else if c = '\\' ∧ quote = '"' then some (.escaped, [])
  else if c = '\r' then some (.carriage true, [])
  else if c = '\n' ∨ isPlain c then some (.plain, [c])
  else none

/-- What a character leads to in a string on several lines, outside a run of quotes. -/
def multilineStep (quote : Char) (place : Place) (c : Char) : Option (Place × List Char) :=
  match place with
  | .plain | .quotes _ => multilinePlain quote c
  | .escaped =>
    if c = 'u' then some (.unit 4 0, [])
    else if c = 'U' then some (.unit 8 0, [])
    else if c = ' ' ∨ c = '\t' then some (.lineEnd, [])
    else if c = '\n' then some (.indent, [])
    else if c = '\r' then some (.carriage false, [])
    else (unescape? c).map fun char => (.plain, [char])
  | .unit left value => readUnit left value c
  | .lineEnd =>
    if c = ' ' ∨ c = '\t' then some (.lineEnd, [])
    else if c = '\n' then some (.indent, [])
    else if c = '\r' then some (.carriage false, [])
    else none
  | .indent =>
    if c = ' ' ∨ c = '\t' ∨ c = '\n' then some (.indent, [])
    else if c = '\r' then some (.carriage false, [])
    else multilinePlain quote c
  | .carriage counts =>
    if c = '\n' then some (if counts then (.plain, ['\n']) else (.indent, [])) else none

/-- Reads a string on several lines up to its end. A run of three quotes ends it, and up to two
quotes in front of these belong to the string. -/
def readMultiline (quote : Char) (place : Place) (read : List Char) :
    List Char → Option (List Char × List Char)
  | [] =>
    match place with
    | .quotes count => if 3 ≤ count then some (((List.replicate (count - 3) quote) ++ read).reverse, [])
      else none
    | _ => none
  | c :: cs =>
    match place with
    | .quotes count =>
      if c = quote then
        if count = 4 then some ((quote :: quote :: read).reverse, cs)
        else readMultiline quote (.quotes (count + 1)) read cs
      else if 3 ≤ count then some ((List.replicate (count - 3) quote ++ read).reverse, c :: cs)
      else match multilinePlain quote c with
        | some (place, chars) =>
          readMultiline quote place (chars ++ List.replicate count quote ++ read) cs
        | none => none
    | place =>
      match multilineStep quote place c with
      | some (place, chars) => readMultiline quote place (chars ++ read) cs
      | none => none

/-- The text behind a line break, if it begins with one. -/
def dropLineBreak : List Char → List Char
  | '\n' :: cs => cs
  | '\r' :: '\n' :: cs => cs
  | cs => cs

/-- Reads a string of any form at the front of a text. -/
def readString : List Char → Option (String × List Char)
  | '"' :: '"' :: '"' :: cs =>
    (readMultiline '"' .plain [] (dropLineBreak cs)).map fun (s, rest) => (String.ofList s, rest)
  | '\'' :: '\'' :: '\'' :: cs =>
    (readMultiline '\'' .plain [] (dropLineBreak cs)).map fun (s, rest) => (String.ofList s, rest)
  | '"' :: cs => (readBasic .plain [] cs).map fun (s, rest) => (String.ofList s, rest)
  | '\'' :: cs => (readLiteral [] cs).map fun (s, rest) => (String.ofList s, rest)
  | _ => none

/-- Reads a string on one line at the front of a text. -/
def readLineString : List Char → Option (String × List Char)
  | '"' :: cs => (readBasic .plain [] cs).map fun (s, rest) => (String.ofList s, rest)
  | '\'' :: cs => (readLiteral [] cs).map fun (s, rest) => (String.ofList s, rest)
  | _ => none

/-! ## Writing strings -/

/-- What the form of a written string depends on. -/
structure Shape where
  /-- A control character other than tab and line feed occurs. -/
  control : Bool
  /-- A backslash occurs. -/
  backslash : Bool
  /-- A line feed occurs. -/
  lineFeed : Bool
  /-- The length of the longest run of single quotes. -/
  singles : Nat
  /-- The length of the longest run of double quotes. -/
  doubles : Nat

/-- The length of the longest run of a character, behind a run of `current` of them. -/
def longestRun (c : Char) (current : Nat) : List Char → Nat
  | [] => current
  | d :: ds => if d = c then longestRun c (current + 1) ds else max current (longestRun c 0 ds)

/-- The shape of a text. -/
def shapeOf (cs : List Char) : Shape where
  control := cs.any fun c => !isPlain c && c != '\n'
  backslash := cs.contains '\\'
  lineFeed := cs.contains '\n'
  singles := longestRun '\'' 0 cs
  doubles := longestRun '"' 0 cs

/-- The escape of a character as four hexadecimal digits. -/
def unitEscape (c : Char) : List Char :=
  let digits := (Nat.toDigits 16 c.toNat).map Char.toUpper
  '\\' :: 'u' :: List.replicate (4 - digits.length) '0' ++ digits

/-- The characters of a string in double quotes. On several lines line feeds stand for themselves,
and so do quotes unless two of them stand in front; `run` counts these. -/
def escapeBasic (multiline : Bool) (run : Nat) : List Char → List Char
  | [] => []
  | c :: cs =>
    if c = '"' then
      if multiline ∧ run < 2 then '"' :: escapeBasic multiline (run + 1) cs
      else '\\' :: '"' :: escapeBasic multiline 0 cs
    else
      let written :=
        if c = '\x08' then ['\\', 'b']
        else if c = '\t' then ['\\', 't']
        else if c = '\n' then if multiline then ['\n'] else ['\\', 'n']
        else if c = '\x0c' then ['\\', 'f']
        else if c = '\r' then ['\\', 'r']
        else if c = '\\' then ['\\', '\\']
        else if isPlain c then [c]
        else unitEscape c
      written ++ escapeBasic multiline 0 cs

/-- The opening quotes of a string on several lines, with a line feed behind them if the string has
one. -/
def openingQuotes (quote : Char) (lineFeed : Bool) : List Char :=
  List.replicate 3 quote ++ if lineFeed then ['\n'] else []

/-- The written form of a text: without escapes and on one line if possible, then without escapes,
then with escapes. -/
def writeString (cs : List Char) : List Char :=
  let shape := shapeOf cs
  let basic := '"' :: escapeBasic false 0 cs ++ ['"']
  let multilineBasic :=
    openingQuotes '"' shape.lineFeed ++ escapeBasic true 0 cs ++ List.replicate 3 '"'
  if !shape.control && !shape.backslash && shape.doubles == 0 && !shape.lineFeed then basic
  else if !shape.control && shape.singles == 0 && !shape.lineFeed then '\'' :: cs ++ ['\'']
  else if !shape.control && !shape.backslash && shape.doubles ≤ 2 then multilineBasic
  else if !shape.control && shape.singles ≤ 2 then
    openingQuotes '\'' shape.lineFeed ++ cs ++ List.replicate 3 '\''
  else if shape.lineFeed then multilineBasic
  else basic

end Toml

end RemoteTable
