import RemoteTable.Url.Basic

/-!
# Reading addresses

An absolute address is read part by part: the scheme up to the first colon, then for the schemes of
the web an authority behind any number of slashes, for other schemes an authority behind two
slashes, a path behind one, or else a text without structure. Blanks around the address and line
breaks inside do not count, and for the schemes of the web a backslash is a slash. Dots in a path
are resolved, and characters that a part may not hold are percent-encoded.
-/

namespace RemoteTable

namespace Url

/-! ## Cutting -/

/-- The characters up to the first with a property, and the rest from it on. -/
def cut (stop : Char → Bool) (cs : List Char) : List Char × List Char :=
  (cs.takeWhile fun c => !stop c, cs.dropWhile fun c => !stop c)

/-- The characters of an address that count. -/
def clean (cs : List Char) : List Char :=
  let isEdge (c : Char) : Bool := c.toNat ≤ 0x20
  let trimmed := ((cs.dropWhile isEdge).reverse.dropWhile isEdge).reverse
  trimmed.filter fun c => c != '\t' && c != '\n' && c != '\r'

/-- Whether a character is a slash of an address. -/
def isSlash (special : Bool) (c : Char) : Bool :=
  c == '/' || (special && c == '\\')

/-- Whether a character ends an authority. -/
def endsAuthority (special : Bool) (c : Char) : Bool :=
  isSlash special c || c == '?' || c == '#'

/-- The scheme in lower case and the text behind its colon. -/
def scheme? (cs : List Char) : Option (String × List Char) :=
  match cut (· == ':') cs with
  | (first :: more, _ :: rest) =>
    if first.isAlpha && more.all fun c => c.isAlphanum || ['+', '-', '.'].contains c then
      some (String.ofList ((first :: more).map Char.toLower), rest)
    else none
  | _ => none

/-! ## Authorities -/

/-- The identity and what stands behind its last at sign, if there is one. -/
def cutIdentity (authority : List Char) : Option (List Char) × List Char :=
  match cut (· == '@') authority.reverse with
  | (_, []) => (none, authority)
  | (back, _ :: front) => (some front.reverse, back.reverse)

/-- A host and the text behind the colon of its port; colons in brackets do not count. -/
def cutPort (inBrackets : Bool) : List Char → List Char × Option (List Char)
  | [] => ([], none)
  | c :: cs =>
    if c = ':' ∧ !inBrackets then ([], some cs)
    else
      let (host, port) := cutPort (if c = '[' then true else if c = ']' then false else inBrackets) cs
      (c :: host, port)

/-- The port that a text names; that of the scheme is not kept, and an empty one is none. -/
def port? (scheme : String) (text : List Char) : Option (Option Nat) :=
  if text.isEmpty then some none
  else match numeral? text with
    | none => none
    | some port =>
      if 65535 < port then none
      else some (if defaultPort? scheme = some port then none else some port)

/-- The parts of an authority. -/
structure Authority where
  /-- The name of a user. -/
  user : String
  /-- The password of a user. -/
  password : String
  /-- The host. -/
  host : Host
  /-- The port. -/
  port : Option Nat

/-- Reads an authority. Without a host there is no port and no identity, and an address of the web
has a host. -/
def authority? (scheme : String) (cs : List Char) : Option Authority := do
  let special := isSpecial scheme
  let (identity?, rest) := cutIdentity cs
  let (hostText, portText?) := cutPort false rest
  if hostText.isEmpty && (special || portText?.isSome || identity?.isSome) then none
  else
    let (user, password) := cut (· == ':') (identity?.getD [])
    let written (cs : List Char) : String := String.ofList (Percent.encode Percent.inIdentity cs)
    return ⟨written user, written (password.drop 1), ← Host.ofChars? special hostText,
      ← port? scheme (portText?.getD [])⟩

/-! ## Paths -/

/-- Whether a segment stands for the segment it is in. -/
def isSingleDot (segment : String) : Bool :=
  segment == "." || segment == "%2e" || segment == "%2E"

/-- Whether a segment stands for the segment above. -/
def isDoubleDot (segment : String) : Bool :=
  ["..", ".%2e", "%2e.", "%2e%2e"].contains
    (String.ofList (segment.toList.map fun c => if c = 'E' then 'e' else c))

/-- Segments with the dots resolved; dots at the end leave an empty segment. -/
def resolve : List String → List String → List String
  | done, [] => done
  | done, segment :: rest =>
    let done' :=
      if isDoubleDot segment then done.dropLast
      else if isSingleDot segment then done
      else done ++ [segment]
    let ended := rest.isEmpty && (isDoubleDot segment || isSingleDot segment)
    resolve (if ended then done' ++ [""] else done') rest

/-- The path of the text behind its first slash. -/
def segmentsOf (special : Bool) (cs : List Char) : UrlPath :=
  .segments (resolve [] ((Host.splitAt (isSlash special) cs).map fun part =>
    String.ofList (Percent.encode Percent.inPath part)))

/-- The path behind an authority; addresses of the web have at least one segment. -/
def pathBehind (special : Bool) : List Char → UrlPath
  | [] => if special then .segments [""] else .segments []
  | c :: cs => if isSlash special c then segmentsOf special cs else segmentsOf special (c :: cs)

/-! ## Queries and fragments -/

/-- The text in front of the query, the query and the fragment. -/
def cutEnd (special : Bool) (cs : List Char) : List Char × Option String × Option String :=
  let (front, fragment) := cut (· == '#') cs
  let (path, query) := cut (· == '?') front
  let written (set : Char → Bool) : List Char → Option String
    | [] => none
    | _ :: text => some (String.ofList (Percent.encode set text))
  (path, written (Percent.inQuery special) query, written Percent.inFragment fragment)

/-! ## Addresses -/

/-- The address with an authority in front of its path. -/
def ofAuthority? (scheme : String) (cs : List Char) : Option Url := do
  let special := isSpecial scheme
  let (authority, rest) := cut (endsAuthority special) cs
  let a ← authority? scheme authority
  let (path, query, fragment) := cutEnd special rest
  return ⟨scheme, a.user, a.password, some a.host, a.port, pathBehind special path, query, fragment⟩

/-- The host of a file: an empty one is this machine. -/
def fileHost? (cs : List Char) : Option Host :=
  if cs.isEmpty then some (.name "")
  else (Host.ofChars? true cs).map fun host => if host = .name "localhost" then .name "" else host

/-- The address of a file: its host stands behind two slashes. -/
def ofFile? (cs : List Char) : Option Url := do
  let make (host : Host) (rest : List Char) : Url :=
    let (path, query, fragment) := cutEnd true rest
    ⟨fileScheme, "", "", some host, none, pathBehind true path, query, fragment⟩
  match cs with
  | a :: b :: rest =>
    if isSlash true a && isSlash true b then
      let (host, rest) := cut (endsAuthority true) rest
      return make (← fileHost? host) rest
    else return make (.name "") cs
  | _ => return make (.name "") cs

/-- The address without an authority: a path behind a slash, or a text without structure. -/
def ofPath (scheme : String) (cs : List Char) : Url :=
  let (path, query, fragment) := cutEnd false cs
  let read : UrlPath := match path with
    | '/' :: rest => segmentsOf false rest
    | text => .plain (String.ofList (Percent.encode Percent.isControl text))
  ⟨scheme, "", "", none, none, read, query, fragment⟩

/-- Reads an absolute address. -/
def ofText? (text : String) : Option Url := do
  let (scheme, rest) ← scheme? (clean text.toList)
  if scheme = fileScheme then ofFile? rest
  else if isSpecial scheme then ofAuthority? scheme (rest.dropWhile (isSlash true))
  else match rest with
    | '/' :: '/' :: rest => ofAuthority? scheme rest
    | _ => some (ofPath scheme rest)

end Url

end RemoteTable
