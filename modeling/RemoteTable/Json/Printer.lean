import RemoteTable.Json.Basic

/-!
# Compact JSON text

The text of a value without any blanks, members in the order they are kept in. Inside a string only
the quote, the backslash and the characters below the blank are escaped, the latter by a letter
where one exists and else by four hexadecimal digits.
-/

namespace RemoteTable

namespace Json

/-- The lower-case hexadecimal digit of a number below sixteen. -/
def hexDigit (n : Nat) : Char :=
  Nat.digitChar n

/-- The escaped form of a character of a string. -/
def escapeChar (c : Char) : List Char :=
  if c = '"' then ['\\', '"']
  else if c = '\\' then ['\\', '\\']
  else if c = '\x08' then ['\\', 'b']
  else if c = '\t' then ['\\', 't']
  else if c = '\n' then ['\\', 'n']
  else if c = '\x0c' then ['\\', 'f']
  else if c = '\r' then ['\\', 'r']
  else if c < ' ' then
    ['\\', 'u', '0', '0', hexDigit (c.toNat / 16), hexDigit (c.toNat % 16)]
  else [c]

/-- The text in quotes. -/
def quote (s : String) : String :=
  String.ofList ('"' :: s.toList.flatMap escapeChar ++ ['"'])

mutual

/-- The compact text of a value. -/
def render : Json → String
  | null => "null"
  | boolean b => if b then "true" else "false"
  | number n => n.text
  | string s => quote s
  | array items => "[" ++ renderItems items ++ "]"
  | object members => "\x7b" ++ renderMembers members ++ "\x7d"

/-- The elements of a sequence, separated by commas. -/
def renderItems : List Json → String
  | [] => ""
  | [item] => render item
  | item :: items => render item ++ "," ++ renderItems items

/-- The members of an object, separated by commas. -/
def renderMembers : List (String × Json) → String
  | [] => ""
  | [(name, value)] => quote name ++ ":" ++ render value
  | (name, value) :: members => quote name ++ ":" ++ render value ++ "," ++ renderMembers members

end

end Json

end RemoteTable
