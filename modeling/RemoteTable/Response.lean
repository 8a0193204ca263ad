import RemoteTable.Datum
import RemoteTable.Error
import RemoteTable.Json.Reader
import RemoteTable.Text.Numeral

/-!
# Replies

A reply is an envelope of data, a status code and the name of the data's type; the code 1 means
success. The data come in few shapes, and there is one reading of each: rows of cells, identifiers,
a count, named values and a flag. Each reading takes the whole data or fails.
-/

namespace RemoteTable

/-- The envelope of a reply. -/
structure Response where
  /-- What the method returns. -/
  data : Json
  /-- The status. -/
  code : Int
  /-- The name of the data's type. -/
  kind : String
deriving DecidableEq, Repr

namespace Response

/-- The status of success. -/
def successCode : Int := 1

/-- A successful reply with the given data. -/
def ok (data : Json) : Response :=
  ⟨data, successCode, "json"⟩

/-- Whether the method succeeded. -/
def isSuccess (r : Response) : Bool :=
  r.code == successCode

/-- The envelope as a JSON value. -/
def toJson (r : Response) : Json :=
  Json.ofMembers [("data", r.data), ("code", Json.ofInt r.code), ("type", .string r.kind)]

/-! ## Reading envelopes -/

/-- The status code of a JSON value: an exact integer of 64 bits with a sign. -/
def code? : Json → Option Int
  | .number n => n.toInt?
  | _ => none

/-- The envelope with the given parts; a missing code is not replaced. -/
def ofParts (data code kind : Option Json) : Except Error Response :=
  match code.bind code?, (kind.getD (.string "")).text? with
  | some code, some kind => .ok ⟨data.getD .null, code, kind⟩
  | _, _ => .error (.serialization none)

/-- Reads an envelope: an object with a code, where data and type may be missing and other members
do not matter, or the sequence of data, code and possibly type. -/
def decode : Json → Except Error Response
  | .object members =>
    ofParts (Members.get? members "data") (Members.get? members "code")
      (Members.get? members "type")
  | .array [data, code] => ofParts (some data) (some code) none
  | .array [data, code, kind] => ofParts (some data) (some code) (some kind)
  | _ => .error (.serialization none)

/-- Reads an envelope from the text of a body, in which no member of an envelope may be repeated. -/
def ofText? (body : String) : Option Response :=
  match Json.ofText? body with
  | none => none
  | some value =>
    let repeated := match Json.memberNames? body with
      | some names => ["data", "code", "type"].any fun name => 1 < names.count name
      | none => false
    if repeated then none
    else match decode value with
      | .ok response => some response
      | .error _ => none

/-! ## Reading data -/

/-- The cells of a row. -/
def row : Json → Except Error (List Datum)
  | .array cells => .ok (Datum.ofItems cells)
  | other => .error (.unexpectedResponse (.notARow other))

/-- The data as rows of cells; nothing and the empty text are no rows. -/
def rows (r : Response) : Except Error (List (List Datum)) :=
  match r.data with
  | .null => .ok []
  | .string "" => .ok []
  | .array items => items.mapM row
  | other => .error (.unexpectedResponse (.notRows other))

/-- The identifier in an element of a list: the first cell of a row, or the element itself. -/
def identifier (item : Json) : Except Error String :=
  let cell : Json := match item with
    | .array [] => .null
    | .array (first :: _) => first
    | other => other
  match cell with
  | .string s => .ok s
  | .number n => .ok n.text
  | other => .error (.unexpectedResponse (.notAnIdentifier other))

/-- The data as identifiers; nothing and the empty text are no identifiers. -/
def ids (r : Response) : Except Error (List String) :=
  match r.data with
  | .null => .ok []
  | .string "" => .ok []
  | .array items => items.mapM identifier
  | other => .error (.unexpectedResponse (.notIdentifiers other))

/-- The data as a count: an exact number, or a numeral of 64 bits between blanks. -/
def count (r : Response) : Except Error Nat :=
  match r.data with
  | .number n =>
    match n.toNat? with
    | some k => .ok k
    | none => .error (.unexpectedResponse (.notACount n))
  | .string s =>
    match unsigned64? (trimBlanks s.toList) with
    | some k => .ok k
    | none => .error (.unexpectedResponse (.notACountText s))
  | other => .error (.unexpectedResponse (.notCountable other))

/-- The data as named values. -/
def object (r : Response) : Except Error (Members Datum) :=
  match r.data with
  | .object members => .ok (Datum.ofMembers members)
  | other => .error (.unexpectedResponse (.notAMapping other))

/-- The texts that stand for a set flag. -/
def flagTexts : List String :=
  ["Y", "y", "true", "1"]

/-- The data as a flag: a truth value, a text that stands for a set flag, or a number other than
zero; anything else is an unset flag. -/
def flag (r : Response) : Bool :=
  match r.data with
  | .boolean b => b
  | .string s => flagTexts.contains s
  | .number n => !n.isZero
  | _ => false

end Response

end RemoteTable
