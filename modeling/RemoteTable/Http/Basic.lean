import RemoteTable.Exchange
import RemoteTable.Url.Reader

/-!
# Requests over HTTP

A request is posted as JSON to an address of the web, and the body of the answer is the envelope of
the reply. An address that cannot be posted to is refused before anything is sent. How a posted
text travels is left to a delivery function, which says whether an answer came and which.
-/

namespace RemoteTable

/-- What became of a text that was posted. -/
inductive Delivery where
  /-- No answer came. -/
  | lost
  /-- An answer with a status and a body; a body that is no text is absent. -/
  | answered (status : Nat) (body : Option String)
deriving DecidableEq, Repr

namespace Http

/-! ## Statuses -/

/-- The statuses with their reasons. -/
def reasons : List (Nat × String) :=
  [(100, "Continue"), (101, "Switching Protocols"), (102, "Processing"), (103, "Early Hints"),
    (200, "OK"), (201, "Created"), (202, "Accepted"), (203, "Non Authoritative Information"),
    (204, "No Content"), (205, "Reset Content"), (206, "Partial Content"), (207, "Multi-Status"),
    (208, "Already Reported"), (226, "IM Used"), (300, "Multiple Choices"),
    (301, "Moved Permanently"), (302, "Found"), (303, "See Other"), (304, "Not Modified"),
    (305, "Use Proxy"), (307, "Temporary Redirect"), (308, "Permanent Redirect"),
    (400, "Bad Request"), (401, "Unauthorized"), (402, "Payment Required"), (403, "Forbidden"),
    (404, "Not Found"), (405, "Method Not Allowed"), (406, "Not Acceptable"),
    (407, "Proxy Authentication Required"), (408, "Request Timeout"), (409, "Conflict"),
    (410, "Gone"), (411, "Length Required"), (412, "Precondition Failed"),
    (413, "Payload Too Large"), (414, "URI Too Long"), (415, "Unsupported Media Type"),
    (416, "Range Not Satisfiable"), (417, "Expectation Failed"), (418, "I'm a teapot"),
    (421, "Misdirected Request"), (422, "Unprocessable Entity"), (423, "Locked"),
    (424, "Failed Dependency"), (425, "Too Early"), (426, "Upgrade Required"),
    (428, "Precondition Required"), (429, "Too Many Requests"),
    (431, "Request Header Fields Too Large"), (451, "Unavailable For Legal Reasons"),
    (500, "Internal Server Error"), (501, "Not Implemented"), (502, "Bad Gateway"),
    (503, "Service Unavailable"), (504, "Gateway Timeout"), (505, "HTTP Version Not Supported"),
    (506, "Variant Also Negotiates"), (507, "Insufficient Storage"), (508, "Loop Detected"),
    (510, "Not Extended"), (511, "Network Authentication Required")]

/-- The reason of a status. -/
def reason (status : Nat) : String :=
  (reasons.lookup status).getD "<unknown status code>"

/-- Whether a status is one of success. -/
def isSuccess (status : Nat) : Bool :=
  200 ≤ status && status < 300

/-! ## Addresses to post to -/

/-- Whether a character may stand in the name of a host that a request is sent to. -/
def isHostChar (c : Char) : Bool :=
  c.isAlphanum || ['-', '.', '_', '~', '!', '$', '&', '\x27', '(', ')', '*', '+', ',', ';',
    '='].contains c

/-- The longest address, in bytes. -/
def longestAddress : Nat := 65534

/-- Whether a request can be sent to an address. -/
def canPost (u : Url) : Bool :=
  let hostFits := match u.host with
    | some (.name text) => text.toList.all isHostChar
    | _ => true
  u.isHttp && hostFits && u.text.utf8ByteSize ≤ longestAddress

/-- Whether the identity in an address can be told to the server: percent-decoded, the name is a
text, and it or the password is not empty. -/
def hasIdentity (u : Url) : Bool :=
  let isText (part : String) : Bool :=
    (String.fromUTF8? ⟨(Percent.decode part.toList).toArray⟩).isSome
  isText u.user && (u.user != "" || (u.password != "" && isText u.password))

/-- The address without an identity that can be told to the server by other means. -/
def hideIdentity (u : Url) : Url :=
  if hasIdentity u then u.withoutIdentity else u

/-- The address that a text names, if a request can be sent there. -/
def target (address : String) : Except TransportFault Url :=
  match (Url.ofText? address).map hideIdentity with
  | none => .error (.badAddress none)
  | some url => if canPost url then .ok url else .error (.badAddress (some url.text))

/-! ## Replies -/

/-- The reply that comes of a delivery to an address. -/
def replyOf (url : Url) : Delivery → Reply
  | .lost => .error (.notSent url.text)
  | .answered status body =>
    if isSuccess status then
      match body.bind Response.ofText? with
      | some response => .ok response
      | none => .error .badBody
    else .error (.status status (reason status))

/-- Answers a request by posting its text to an address. -/
def post {m : Type → Type} [Monad m] (deliver : Url → String → m Delivery) (address : String)
    (request : Request) : m Reply :=
  match target address with
  | .error fault => pure (.error fault)
  | .ok url => do return replyOf url (← deliver url request.text)

end Http

end RemoteTable
