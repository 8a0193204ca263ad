import RemoteTable.Url.Host

/-!
# Addresses

An address names a scheme, possibly a host with a port and the identity to use there, a path, and
possibly a query and a fragment. All parts are kept in the form in which they are written, so that
`Url.text` only joins them.
-/

namespace RemoteTable

/-- The path of an address. -/
inductive UrlPath where
  /-- Segments, each behind a slash. -/
  | segments (parts : List String)
  /-- A text without structure. -/
  | plain (text : String)
deriving DecidableEq, Repr

/-- An address. -/
structure Url where
  /-- The scheme, in lower case. -/
  scheme : String
  /-- The name of a user. -/
  user : String
  /-- The password of a user. -/
  password : String
  /-- The host. -/
  host : Option Host
  /-- The port, unless it is that of the scheme. -/
  port : Option Nat
  /-- The path. -/
  path : UrlPath
  /-- What stands behind a question mark. -/
  query : Option String
  /-- What stands behind a number sign. -/
  fragment : Option String
deriving DecidableEq, Repr

namespace Url

/-! ## Schemes -/

/-- The ports of the schemes of the web. -/
def defaultPort? (scheme : String) : Option Nat :=
  [("ftp", 21), ("http", 80), ("https", 443), ("ws", 80), ("wss", 443)].lookup scheme

/-- The scheme of files. -/
def fileScheme : String := "file"

/-- Whether a scheme is one of those whose addresses always have an authority. -/
def isSpecial (scheme : String) : Bool :=
  scheme == fileScheme || (defaultPort? scheme).isSome

/-- Whether requests can be posted to an address. -/
def isHttp (u : Url) : Bool :=
  u.scheme == "http" || u.scheme == "https"

/-! ## Text -/

/-- The text of a user's identity. -/
def identityText (u : Url) : String :=
  if u.user = "" ∧ u.password = "" then ""
  else u.user ++ (if u.password = "" then "" else ":" ++ u.password) ++ "@"

/-- The text of an authority. -/
def authorityText (u : Url) (host : Host) : String :=
  "//" ++ u.identityText ++ host.text ++ u.port.elim "" fun port => ":" ++ decimalText port

/-- The text of a path; without a host it must not begin with two slashes. -/
def pathText (u : Url) : String :=
  match u.path with
  | .plain text => text
  | .segments parts =>
    let joined := String.join (parts.map ("/" ++ ·))
    match u.host, parts with
    | none, "" :: _ :: _ => "/." ++ joined
    | _, _ => joined

/-- The text of an address. -/
def text (u : Url) : String :=
  u.scheme ++ ":" ++ u.host.elim "" u.authorityText ++ u.pathText ++
    (u.query.elim "" ("?" ++ ·)) ++ u.fragment.elim "" ("#" ++ ·)

/-- The address without the identity of a user. -/
def withoutIdentity (u : Url) : Url :=
  { u with user := "", password := "" }

end Url

end RemoteTable
