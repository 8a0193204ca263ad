import RemoteTable.Client
import RemoteTable.Toml.Text

/-!
# Settings of a client

Where the server is, who asks, and how long an answer may take. Settings are read from JSON with
defaults for what is missing, and written as a TOML document, in which settings that are not set do
not occur.
-/

namespace RemoteTable

/-- The settings of a client. -/
structure ClientSettings where
  /-- The address that requests are sent to. -/
  serverUrl : String
  /-- The token of the caller. -/
  token : Option String
  /-- The database that is used when none is named. -/
  database : Option String
  /-- The account of the caller. -/
  account : Option String
  /-- The seconds after which an answer is no longer waited for. -/
  timeoutSecs : Nat
deriving DecidableEq, Repr

namespace ClientSettings

/-- The settings before anything is configured. -/
def default : ClientSettings :=
  ⟨"http://127.0.0.1:8383/api", none, none, none, 30⟩

instance : Inhabited ClientSettings := ⟨default⟩

/-- The client with the caller's identity in the settings. -/
def client (c : ClientSettings) : Client :=
  ⟨c.token, c.account⟩

/-! ## JSON -/

/-- The text of a setting that has to have one; a missing one is replaced. -/
def decodeText (fallback : String) : Option Json → Except Error String
  | none => .ok fallback
  | some (.string s) => .ok s
  | some _ => .error (.serialization none)

/-- The text of a setting that may be unset. -/
def decodeOptional : Option Json → Except Error (Option String)
  | none | some .null => .ok none
  | some (.string s) => .ok (some s)
  | some _ => .error (.serialization none)

/-- The count of a setting; a missing one is replaced. -/
def decodeCount (fallback : Nat) : Option Json → Except Error Nat
  | none => .ok fallback
  | some (.number n) =>
    match n.toNat? with
    | some k => .ok k
    | none => .error (.serialization none)
  | some _ => .error (.serialization none)

/-- The settings with the given parts. -/
def ofParts (serverUrl token database account timeoutSecs : Option Json) :
    Except Error ClientSettings := do
  let serverUrl ← decodeText default.serverUrl serverUrl
  let token ← decodeOptional token
  let database ← decodeOptional database
  let account ← decodeOptional account
  let timeoutSecs ← decodeCount default.timeoutSecs timeoutSecs
  pure ⟨serverUrl, token, database, account, timeoutSecs⟩

/-- Reads settings from an object, where unknown members do not matter, or from a sequence of at
most five settings in their order. -/
def decode : Json → Except Error ClientSettings
  | .object members =>
    let part (name : String) : Option Json := Members.get? members name
    ofParts (part "server_url") (part "token") (part "database") (part "account_id")
      (part "timeout_secs")
  | .array items =>
    if 5 < items.length then .error (.serialization none)
    else ofParts items[0]? items[1]? items[2]? items[3]? items[4]?
  | _ => .error (.serialization none)

/-- The settings as a JSON value. -/
def toJson (c : ClientSettings) : Json :=
  let optional : Option String → Json
    | some s => .string s
    | none => .null
  Json.ofMembers [("server_url", .string c.serverUrl), ("token", optional c.token),
    ("database", optional c.database), ("account_id", optional c.account),
    ("timeout_secs", Json.ofNat c.timeoutSecs)]

/-! ## TOML -/

/-- A line of a document that gives a setting a text. -/
def textLine (name text : String) : List Char :=
  name.toList ++ [' ', '=', ' '] ++ Toml.writeString text.toList ++ ['\n']

/-- The line of a setting that may be unset. -/
def optionalLine (name : String) : Option String → List Char
  | some text => textLine name text
  | none => []

/-- The document that describes the settings; a document has no whole numbers beyond the signed
ones of 64 bits. -/
def toToml (c : ClientSettings) : Except Error String :=
  if signedEnd ≤ c.timeoutSecs then .error .configuration
  else .ok (String.ofList
    (textLine "server_url" c.serverUrl ++ optionalLine "token" c.token ++
      optionalLine "database" c.database ++ optionalLine "account_id" c.account ++
      ("timeout_secs".toList ++ [' ', '=', ' '] ++ Nat.toDigits 10 c.timeoutSecs ++ ['\n'])))

end ClientSettings

end RemoteTable
