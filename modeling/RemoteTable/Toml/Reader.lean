import RemoteTable.Toml.Scalar

/-!
# Reading TOML documents

A document is read line by line: each line is blank, names a value, or is the header of a table. A
document is read as a whole or refused. Sequences and inline tables may be nested in fewer than
eighty levels.
-/

namespace RemoteTable

namespace Toml

/-! ## Blanks, comments and line ends -/

/-- The text behind its leading blanks and tabs. -/
def skipBlanks (cs : List Char) : List Char :=
  cs.dropWhile fun c => c == ' ' || c == '\t'

/-- The text behind a line break, if it begins with one. -/
def lineBreak? : List Char → Option (List Char)
  | '\n' :: cs => some cs
  | '\r' :: '\n' :: cs => some cs
  | _ => none

/-- The text behind a comment, if it begins with one. -/
def skipComment : List Char → List Char
  | '#' :: cs => cs.dropWhile isPlain
  | cs => cs

/-- The text behind what may follow at the end of a line: blanks, a comment and the line break. -/
def endLine? (cs : List Char) : Option (List Char) :=
  match skipComment (skipBlanks cs) with
  | [] => some []
  | rest => lineBreak? rest

/-- The text behind blanks, comments and line breaks. `fuel` bounds the number of lines. -/
def skipLines : Nat → List Char → List Char
  | 0, cs => cs
  | fuel + 1, cs =>
    let rest := skipComment (skipBlanks cs)
    match lineBreak? rest with
    | some next => skipLines fuel next
    | none => rest

/-! ## Keys -/

/-- Whether a character may stand in a key without quotes. -/
def isKeyChar (c : Char) : Bool :=
  isDigit c || ('a' ≤ c && c ≤ 'z') || ('A' ≤ c && c ≤ 'Z') || c == '_' || c == '-'

/-- Reads one part of a key. -/
def readKeyPart (cs : List Char) : Option (String × List Char) :=
  match cs.takeWhile isKeyChar with
  | [] => readLineString cs
  | part => some (String.ofList part, cs.dropWhile isKeyChar)

/-- Reads a key of one or more parts separated by points; blanks around the points do not count.
`fuel` bounds the number of parts. -/
def readKey : Nat → List Char → Option (List String × List Char)
  | 0, _ => none
  | fuel + 1, cs => do
    let (part, rest) ← readKeyPart (skipBlanks cs)
    match skipBlanks rest with
    | '.' :: more =>
      let (parts, rest) ← readKey fuel more
      some (part :: parts, rest)
    | rest => some ([part], rest)

/-! ## Values -/

/-- Sequences and inline tables may be nested in fewer levels than this. -/
def depthLimit : Nat := 80

mutual

/-- Reads a value at the front of a text. `depth` is the number of levels still allowed; `fuel`
bounds the number of nested steps. -/
def readValue : (fuel depth : Nat) → List Char → Option (Value × List Char)
  | 0, _, _ => none
  | fuel + 1, depth, text =>
    match text with
    | [] => none
    | '[' :: cs =>
      match depth with
      | 0 => none
      | depth + 1 => (readItems fuel depth [] cs).map fun (items, rest) => (.array items, rest)
    | '\x7b' :: cs =>
      match depth with
      | 0 => none
      | depth + 1 =>
        match skipBlanks cs with
        | '\x7d' :: rest => some (.table [], rest)
        | cs => (readInline fuel depth [] cs).map fun (nodes, rest) =>
            (.table (freezeMembers nodes), rest)
    | c :: cs =>
      if c = '"' ∨ c = '\'' then (readString (c :: cs)).map fun (s, rest) => (.string s, rest)
      else readWord (c :: cs)

/-- Reads the elements of a sequence up to its closing bracket. -/
def readItems : (fuel depth : Nat) → (read : List Value) → List Char →
    Option (List Value × List Char)
  | 0, _, _, _ => none
  | fuel + 1, depth, read, text =>
    match skipLines text.length text with
    | ']' :: rest => some (read.reverse, rest)
    | cs =>
      match readValue fuel depth cs with
      | none => none
      | some (item, rest) =>
        match skipLines rest.length rest with
        | ',' :: rest => readItems fuel depth (item :: read) rest
        | ']' :: rest => some ((item :: read).reverse, rest)
        | _ => none

/-- Reads the members of an inline table up to its closing brace. -/
def readInline : (fuel depth : Nat) → (read : Nodes) → List Char → Option (Nodes × List Char)
  | 0, _, _, _ => none
  | fuel + 1, depth, read, text =>
    match readKey text.length text with
    | some (key, '=' :: rest) =>
      match readValue fuel depth (skipBlanks rest) with
      | none => none
      | some (v, rest) =>
        match Nodes.addValue read key.dropLast (key.getLast?.getD "") v with
        | none => none
        | some read =>
          match skipBlanks rest with
          | ',' :: rest => readInline fuel depth read rest
          | '\x7d' :: rest => some (read, rest)
          | _ => none
    | _ => none

end

/-! ## Documents -/

/-- What has been read of a document: the tables that are complete, and the table that is being
read with the path of its header. -/
structure Draft where
  /-- The tables that are complete. -/
  root : Nodes
  /-- The path of the header of the table at hand; none for the document's own table. -/
  path : List String
  /-- Whether that table is one of a sequence. -/
  repeated : Bool
  /-- The table at hand. -/
  current : Nodes

namespace Draft

/-- Nothing has been read. -/
def empty : Draft :=
  ⟨[], [], false, []⟩

/-- Puts a finished table under the last name of its path. -/
def place (repeated : Bool) (name : String) (table : Nodes) (nodes : Nodes) : Option Nodes :=
  if repeated then
    match nodes.get? name with
    | none => some (nodes.put name (.tables [table]))
    | some (.tables earlier) => some (nodes.put name (.tables (table :: earlier)))
    | some _ => none
  else
    match nodes.get? name with
    | none | some (.table .implied _) | some (.table .dotted _) =>
      some (nodes.put name (.table .header table))
    | some _ => none

/-- The tables with the table at hand completed. -/
def finish (d : Draft) : Option Nodes :=
  match d.path.getLast? with
  | none => some d.current
  | some name =>
    Nodes.updateAt .implied (fun _ nodes => place d.repeated name d.current nodes) d.path.dropLast
      .header d.root

/-- Begins a table with a header of its own. Of a table that is known as part of a header's path
only, the members are kept. -/
def beginTable (d : Draft) (path : List String) : Option Draft := do
  let root ← d.finish
  let name ← path.getLast?
  let mentioned ← lookTable path.dropLast root
  match mentioned.get? name with
  | none => some ⟨root, path, false, []⟩
  | some (.table .implied members) =>
    let root ← Nodes.updateAt .implied (fun _ nodes => some (nodes.erase name)) path.dropLast .header
      root
    some ⟨root, path, false, members⟩
  | some _ => none
where
  /-- The nodes of the table at the end of a path. -/
  lookTable : List String → Nodes → Option Nodes
    | [], nodes => some nodes
    | name :: path, nodes =>
      match nodes.get? name with
      | none => lookTable path []
      | some (.table _ inner) => lookTable path inner
      | some (.tables (last :: _)) => lookTable path last
      | some _ => none

/-- Begins one more table of a sequence. -/
def beginRepeated (d : Draft) (path : List String) : Option Draft := do
  let root ← d.finish
  let name ← path.getLast?
  match (← beginTable.lookTable path.dropLast root).get? name with
  | none | some (.tables _) => some ⟨root, path, true, []⟩
  | some _ => none

/-- Adds a value under a key of the table at hand. -/
def addValue (d : Draft) (key : List String) (v : Value) : Option Draft := do
  let current ← Nodes.addValue d.current key.dropLast (key.getLast?.getD "") v
  some { d with current }

end Draft

/-- Reads one line that is not blank, from its first character on. -/
def readLine (d : Draft) (cs : List Char) : Option (Draft × List Char) :=
  match cs with
  | '[' :: '[' :: more =>
    match readKey more.length more with
    | some (path, ']' :: ']' :: rest) => do
      let d ← d.beginRepeated path
      some (d, ← endLine? rest)
    | _ => none
  | '[' :: more =>
    match readKey more.length more with
    | some (path, ']' :: rest) => do
      let d ← d.beginTable path
      some (d, ← endLine? rest)
    | _ => none
  | cs =>
    match readKey cs.length cs with
    | some (key, '=' :: rest) => do
      let (v, rest) ← readValue (2 * rest.length + 2) (depthLimit - 1) (skipBlanks rest)
      let d ← d.addValue key v
      some (d, ← endLine? rest)
    | _ => none

/-- Reads lines to the end of the document. `fuel` bounds their number. -/
def readLines : Nat → Draft → List Char → Option Nodes
  | 0, _, _ => none
  | fuel + 1, d, cs =>
    match skipLines cs.length cs with
    | [] => d.finish
    | cs =>
      match readLine d cs with
      | some (d, rest) => readLines fuel d rest
      | none => none

/-- The table that a document describes. -/
def ofText? (text : String) : Option (List (String × Value)) :=
  let cs := match text.toList with
    | '\uFEFF' :: cs => cs
    | cs => cs
  (readLines (cs.length + 1) .empty cs).map freezeMembers

end Toml

end RemoteTable
