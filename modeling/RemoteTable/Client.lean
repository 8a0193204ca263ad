import RemoteTable.Exchange
import RemoteTable.Filter.Field
import RemoteTable.Text.Visible

/-!
# Clients, databases and tables

A client carries the caller's token and account, a database is a name at a client, and a table is a
name in a database, possibly with a token of its own. A request made through a table gets the
table's and the database's name whatever it held before, and a token unless it has one: the table's
before the client's.
-/

namespace RemoteTable

/-- The caller's identity. -/
structure Client where
  /-- The token sent with requests. -/
  token : Option String
  /-- The account that decides between several matches. -/
  account : Option String
deriving DecidableEq, Repr

/-- A database of the server. -/
structure Database where
  /-- The name of the database. -/
  name : String
  /-- Who asks. -/
  client : Client
deriving DecidableEq, Repr

/-- A table of a database. -/
structure Table where
  /-- The name of the table. -/
  name : String
  /-- The database that holds it. -/
  database : Database
  /-- The token that calls on this table use instead of the client's. -/
  ownToken : Option String
deriving DecidableEq, Repr

namespace Client

/-- A database by its name. -/
def database (c : Client) (name : String) : Database :=
  ⟨name, c⟩

/-- Sends a request with the client's token unless it has one; a reply with another code than that
of success is a failure that names the request and the code. -/
def call (c : Client) (request : Request) : Call Response := do
  let response ← Call.send (request.defaultParam? "token" c.token)
  if response.isSuccess then pure response
  else throw (.transport (.rejected request.controller request.method response.code response.data))

/-- The text that describes a client; the token stays secret. -/
def describe (c : Client) : String :=
  let account := match c.account with
    | some account => "Some(" ++ Visible.quote account ++ ")"
    | none => "None"
  "Client \x7b account_id: " ++ account ++ " \x7d"

end Client

namespace Database

/-- A table by its name. -/
def table (d : Database) (name : String) : Table :=
  ⟨name, d, none⟩

/-- Sends a request to the database. -/
def call (d : Database) (request : Request) : Call Response :=
  d.client.call (request.param "db" (.string d.name))

end Database

namespace Table

/-- The token of the table's calls: its own or else the client's. -/
def token (t : Table) : Option String :=
  t.ownToken.or t.database.client.token

/-- Whether two tables have one name in databases of one name. -/
def sameTable (t u : Table) : Bool :=
  t.name == u.name && t.database.name == u.database.name

/-- The wire name of a field of the table. -/
def field (t : Table) (name : String) : String :=
  qualify t.name name

/-- The accessor of a field of the table. -/
def fieldOf (t : Table) (name : String) : Field :=
  Field.inTable t.name name

/-- The chain with the wire names of the table's fields. -/
def formatFilters (t : Table) (filters : FilterChain) : FilterChain :=
  filters.qualify t.name

/-- Sends a request to the table. -/
def call (t : Table) (request : Request) : Call Response :=
  t.database.call ((request.param "module" (.string t.name)).defaultParam? "token" t.ownToken)

end Table

end RemoteTable
