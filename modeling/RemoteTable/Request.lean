import RemoteTable.Json.Printer

/-!
# Requests

A request names a controller and one of its methods and carries named parameters. On the wire these
are the members of one object: the controller, the method, then the parameters in the order of
their names. A parameter may itself be called `controller` or `method`; of two members with one name
the later one counts.
-/

namespace RemoteTable

/-- The parameters of a request, in the order of their names. -/
structure Params where
  /-- Names and values. -/
  entries : Members Json
  /-- Every name occurs once. -/
  sorted : entries.Sorted
deriving DecidableEq, Repr

namespace Params

/-- No parameters. -/
def empty : Params :=
  ⟨[], Members.sorted_nil⟩

/-- The value of a parameter. -/
def get? (p : Params) (name : String) : Option Json :=
  p.entries.get? name

/-- Gives a parameter a value, whether or not it had one. -/
def set (p : Params) (name : String) (value : Json) : Params :=
  ⟨p.entries.insert name value, Members.sorted_insert p.sorted name value⟩

/-- Gives a parameter a value if it has none. -/
def setDefault (p : Params) (name : String) (value : Json) : Params :=
  if (p.get? name).isSome then p else p.set name value

end Params

/-- A call of a method of the server. -/
structure Request where
  /-- The group of methods. -/
  controller : String
  /-- The method. -/
  method : String
  /-- The named parameters. -/
  params : Params
deriving DecidableEq, Repr

namespace Request

/-- A call without parameters. -/
def call (controller method : String) : Request :=
  ⟨controller, method, .empty⟩

/-- The request with a parameter set. -/
def param (r : Request) (name : String) (value : Json) : Request :=
  { r with params := r.params.set name value }

/-- The request with a parameter set unless it already was. -/
def defaultParam (r : Request) (name : String) (value : Json) : Request :=
  { r with params := r.params.setDefault name value }

/-- The request with a parameter set unless it already was, if there is a value for it. -/
def defaultParam? (r : Request) (name : String) : Option String → Request
  | some text => r.defaultParam name (.string text)
  | none => r

/-- The value of a parameter. -/
def get? (r : Request) (name : String) : Option Json :=
  r.params.get? name

/-- The members of the request's text, in the order they are written. -/
def members (r : Request) : List (String × Json) :=
  ("controller", .string r.controller) :: ("method", .string r.method) :: r.params.entries

/-- The object that the members describe. -/
def toJson (r : Request) : Json :=
  Json.ofMembers r.members

/-- The text that is sent. -/
def text (r : Request) : String :=
  "\x7b" ++ Json.renderMembers r.members ++ "\x7d"

end Request

end RemoteTable
