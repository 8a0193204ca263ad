import RemoteTable.Http.Basic

/-!
# Messages over HTTP

The bytes of a posted request and of its answer. An answer is a status line, header lines, an empty
line and a body; the body is cut into chunks, or has the length that a header tells, or goes on to
the end. An answer whose headers do not end is no answer, and a body that ends too early is no body.
-/

namespace RemoteTable

namespace Http

/-! ## Requests -/

/-- The end of a line. -/
def lineEnd : String := "\r\n"

/-- The port that an address is reached at. -/
def portOf (u : Url) : Nat :=
  (u.port.or (Url.defaultPort? u.scheme)).getD 80

/-- What is asked of the server: the path and the query. -/
def resource (u : Url) : String :=
  u.pathText ++ u.query.elim "" ("?" ++ ·)

/-- The host and the port, as the server is told. -/
def hostText (u : Url) : String :=
  (u.host.elim "" Host.text) ++ u.port.elim "" fun port => ":" ++ decimalText port

/-- The message that posts a JSON text. -/
def postMessage (u : Url) (body : String) : String :=
  String.join ((["POST " ++ resource u ++ " HTTP/1.1", "Host: " ++ hostText u,
    "Content-Type: application/json", "Accept: */*",
    "Content-Length: " ++ decimalText body.utf8ByteSize, "Connection: close", ""].map
      (· ++ lineEnd)) ++ [body])

/-! ## Answers -/

/-- The bytes of a line and what stands behind its end. -/
def cutLine? : List UInt8 → Option (List UInt8 × List UInt8)
  | [] => none
  | 0x0D :: 0x0A :: rest => some ([], rest)
  | b :: rest => (cutLine? rest).map fun (line, behind) => (b :: line, behind)

/-- A line takes bytes off the front, if only its end. -/
theorem length_of_cutLine? {bytes line behind : List UInt8}
    (h : cutLine? bytes = some (line, behind)) : behind.length < bytes.length := by
  fun_induction cutLine? bytes generalizing line with
  | case1 => cases h
  | case2 rest =>
    cases h
    simp only [List.length_cons]
    omega
  | case3 b rest _ ih =>
    obtain ⟨⟨line', behind'⟩, found, same⟩ := Option.map_eq_some_iff.1 h
    cases same
    have shorter := ih found
    simp only [List.length_cons]
    omega

/-- A byte as a character. -/
def charOf (b : UInt8) : Char :=
  Char.ofNat b.toNat

/-- The header lines up to the empty line, as names in lower case with their values, and the body
behind it. -/
def headers? (bytes : List UInt8) : Option (List (String × String) × List UInt8) :=
  match _cut : cutLine? bytes with
  | none => none
  | some ([], body) => some ([], body)
  | some (line, behind) =>
    let text := line.map charOf
    let name := String.ofList ((text.takeWhile (· ≠ ':')).map Char.toLower)
    let value := String.ofList (trimBlanks ((text.dropWhile (· ≠ ':')).drop 1))
    (headers? behind).map fun (more, body) => ((name, value) :: more, body)
termination_by bytes.length
decreasing_by exact length_of_cutLine? _cut

/-- The status of a status line. -/
def status? (line : List UInt8) : Option Nat :=
  match (line.map charOf).dropWhile (· ≠ ' ') with
  | ' ' :: rest => numeral? (rest.takeWhile (· ≠ ' '))
  | _ => none

/-- The body in chunks, each behind its length in hexadecimal; an empty chunk is the last. -/
def unchunk? (bytes : List UInt8) : Option (List UInt8) :=
  match _cut : cutLine? bytes with
  | none => none
  | some (line, behind) =>
    match Host.valueOf? 16 ((line.map charOf).takeWhile fun c => c ≠ ';' ∧ c ≠ ' ') with
    | none => none
    | some 0 => some []
    | some size =>
      if behind.length < size + 2 then none
      else (unchunk? (behind.drop (size + 2))).map (behind.take size ++ ·)
termination_by bytes.length
decreasing_by
  have shorter := length_of_cutLine? _cut
  simp only [List.length_drop]
  omega

/-- The body that the headers describe. -/
def body? (headers : List (String × String)) (bytes : List UInt8) : Option (List UInt8) :=
  if headers.lookup "transfer-encoding" = some "chunked" then unchunk? bytes
  else match headers.lookup "content-length" with
    | none => some bytes
    | some text => do
      let length ← numeral? text.toList
      if bytes.length < length then none else some (bytes.take length)

/-- What the bytes of an answer say; interim answers are passed over. `fuel` bounds their
number. -/
def answer? : Nat → List UInt8 → Option Delivery
  | 0, _ => none
  | fuel + 1, bytes => do
    let (line, behind) ← cutLine? bytes
    let status ← status? line
    let (headers, rest) ← headers? behind
    if status < 200 then answer? fuel rest
    else
      return .answered status ((body? headers rest).bind fun body => String.fromUTF8? ⟨body.toArray⟩)

/-- What became of a text that was posted, by the bytes that came back. -/
def deliveryOf (bytes : List UInt8) : Delivery :=
  (answer? bytes.length bytes).getD .lost

end Http

end RemoteTable
