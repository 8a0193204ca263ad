import RemoteTable.Json.Printer

/-!
# Failures

Every way in which an operation can fail, as a cause with the data that describe it. The wording is
in one place for each kind of cause; `Error.message` puts the kind in front.
-/

namespace RemoteTable

/-- What is wrong with the JSON form of a filter. -/
inductive FilterFault where
  /-- A fault that is only known by its description. -/
  | described (text : String)
  /-- The value is not a sequence. -/
  | notASequence (found : Json)
  /-- A chain alternates filters and joins, so its length is odd. -/
  | evenLength (length : Nat)
  /-- An odd position holds something else than a join. -/
  | notAJoin (position : Nat) (found : Json)
  /-- A filter is a sequence of three values. -/
  | notATriple (found : Json)
  /-- The field of a filter is not a text. -/
  | fieldNotText (found : Json)
  /-- The operator of a filter is not a text. -/
  | operatorNotText (found : Json)
  /-- The operator is none of the known ones. -/
  | unknownOperator (token : String)
deriving DecidableEq, Repr

namespace FilterFault

/-- The description of a fault. -/
def message : FilterFault → String
  | described text => text
  | notASequence found => "expected an array, got " ++ found.render
  | evenLength length => "filter chain must have odd length, got " ++ decimalText length
  | notAJoin position found =>
    "expected 'and' or 'or' at position " ++ decimalText position ++ ", got " ++ found.render
  | notATriple found => "expected [field, operator, value], got " ++ found.render
  | fieldNotText found => "field name must be a string, got " ++ found.render
  | operatorNotText found => "operator must be a string, got " ++ found.render
  | unknownOperator token => "unknown operator '" ++ token ++ "'"

end FilterFault

/-- Why the data of a reply are not of the expected shape. -/
inductive ReplyFault where
  /-- A fault that is only known by its description. -/
  | described (text : String)
  /-- The data are not a list of rows. -/
  | notRows (found : Json)
  /-- An element of the list is not a row. -/
  | notARow (found : Json)
  /-- The data are not a list of identifiers. -/
  | notIdentifiers (found : Json)
  /-- A cell is not an identifier. -/
  | notAnIdentifier (found : Json)
  /-- A number is not a count. -/
  | notACount (found : Number)
  /-- A text is not a count. -/
  | notACountText (found : String)
  /-- The data are neither a number nor a text. -/
  | notCountable (found : Json)
  /-- The data are not an object. -/
  | notAMapping (found : Json)
  /-- A row of a result set does not have one cell for each of the columns. -/
  | rowWidth (cells : Nat) (columns : List String)
  /-- A row does not have the width of the record it should hold. -/
  | recordWidth (record : String) (cells expected : Nat)
  /-- The settings of a filebox lack a key. -/
  | missingDetail (key : String)
  /-- The reply to a question about one record has no row. -/
  | noRow (table id : String)
deriving DecidableEq, Repr

namespace ReplyFault

/-- The description of a fault. -/
def message : ReplyFault → String
  | described text => text
  | notRows found => "expected rows, got " ++ found.render
  | notARow found => "expected a row array, got " ++ found.render
  | notIdentifiers found => "expected an id list, got " ++ found.render
  | notAnIdentifier found => "expected an identifier, got " ++ found.render
  | notACount found => "expected a non-negative count, got " ++ found.text
  | notACountText found => "expected a count, got '" ++ found ++ "'"
  | notCountable found => "expected a count, got " ++ found.render
  | notAMapping found => "expected a mapping, got " ++ found.render
  | rowWidth cells columns =>
    "row has " ++ decimalText cells ++ " cells, expected " ++ decimalText columns.length ++ " (" ++
      ", ".intercalate columns ++ ")"
  | recordWidth record cells expected =>
    record ++ " row has " ++ decimalText cells ++ " cells, expected " ++ decimalText expected
  | missingDetail key => "filebox detail is missing '" ++ key ++ "'"
  | noRow table id => "no row returned for " ++ table ++ " '" ++ id ++ "'"

end ReplyFault

/-- Why a request was not answered with success. -/
inductive TransportFault where
  /-- A fault that is only known by its description. -/
  | described (text : String)
  /-- The server answered with another code than that of success. -/
  | rejected (controller method : String) (code : Int) (data : Json)
  /-- The address is no address of a server; it is named if it is an address at all. -/
  | badAddress (address : Option String)
  /-- The server was not reached, or it closed the connection without an answer. -/
  | notSent (address : String)
  /-- The answer has another status than that of success. -/
  | status (code : Nat) (reason : String)
  /-- The body of the answer is no envelope. -/
  | badBody
deriving DecidableEq, Repr

namespace TransportFault

/-- The description of a fault. -/
def message : TransportFault → String
  | described text => text
  | rejected controller method code data =>
    controller ++ "." ++ method ++ " failed with code " ++ integerText code ++ ": " ++ data.render
  | badAddress none => "Request error: builder error"
  | badAddress (some address) => "Request error: builder error for url (" ++ address ++ ")"
  | notSent address => "Request error: error sending request for url (" ++ address ++ ")"
  | status code reason => "HTTP status " ++ decimalText code ++ " " ++ reason
  | badBody => "Invalid response body: error decoding response body"

end TransportFault

/-- The failure of an operation. -/
inductive Error where
  /-- The JSON form of a filter is malformed. -/
  | malformedFilter (fault : FilterFault)
  /-- One record was needed and none matched. -/
  | emptyMatch (table : String)
  /-- No database belongs to a file name. -/
  | cannotDetermineTarget (filename : String)
  /-- A request was not answered with success. -/
  | transport (fault : TransportFault)
  /-- The data of a reply are not of the expected shape. -/
  | unexpectedResponse (fault : ReplyFault)
  /-- A value does not decode, with the fault of the filter inside if that is the cause. -/
  | serialization (fault : Option FilterFault)
  /-- The configuration cannot be read or written. -/
  | configuration
deriving DecidableEq, Repr

namespace Error

/-- The text shown for a failure. -/
def message : Error → String
  | malformedFilter fault => "Malformed filter: " ++ fault.message
  | emptyMatch table => "No record matched in module '" ++ table ++ "'"
  | cannotDetermineTarget filename => "Cannot determine target: " ++ filename
  | transport fault => "Transport error: " ++ fault.message
  | unexpectedResponse fault => "Unexpected response: " ++ fault.message
  | serialization (some fault) => "Serialization error: Malformed filter: " ++ fault.message
  | serialization none => "Serialization error"
  | configuration => "Configuration error"

end Error

end RemoteTable
