import RemoteTable.Error

/-!
# Comparison operators and joins

The operators that compare a field with an operand, and the joins between two filters. Each has one
token, by which documents name it.
-/

namespace RemoteTable

/-- How a filter compares a field with its operand. -/
inductive Operator where
  /-- The field equals the operand. -/
  | equal
  /-- The field is above the operand. -/
  | greater
  /-- The field is below the operand. -/
  | less
  /-- The field is one of the operand's elements. -/
  | oneOf
  /-- The field contains one of the operand's values. -/
  | has
  /-- The field is a list that holds the operand. -/
  | holds
deriving DecidableEq, Repr

namespace Operator

/-- The token that names an operator. -/
def token : Operator → String
  | equal => "="
  | greater => ">"
  | less => "<"
  | oneOf => "in"
  | has => "has"
  | holds => "concat"

/-- All operators. -/
def all : List Operator :=
  [equal, greater, less, oneOf, has, holds]

/-- The operator that a token names. -/
def ofToken? (token : String) : Option Operator :=
  all.find? fun op => op.token == token

/-- The operator that a token names, or the fault that it names none. -/
def ofToken (token : String) : Except FilterFault Operator :=
  match ofToken? token with
  | some op => .ok op
  | none => .error (.unknownOperator token)

/-- The operator of a JSON value; only an unknown token is a fault of the filter itself. -/
def decode : Json → Except Error Operator
  | .string token => (ofToken token).mapError fun fault => .serialization (some fault)
  | _ => .error (.serialization none)

end Operator

/-- How a chain combines the truth so far with the next filter. -/
inductive Join where
  /-- Both have to hold. -/
  | and
  /-- One of them has to hold. -/
  | or
deriving DecidableEq, Repr

namespace Join

/-- The token that names a join. -/
def token : Join → String
  | .and => "and"
  | .or => "or"

/-- The join that a token names. -/
def ofToken? (token : String) : Option Join :=
  [Join.and, Join.or].find? fun join => join.token == token

/-- The join that a JSON value names. -/
def ofJson? : Json → Option Join
  | .string token => ofToken? token
  | _ => none

/-- The truth value of two truth values joined. -/
def apply : Join → Bool → Bool → Bool
  | .and, a, b => a && b
  | .or, a, b => a || b

end Join

end RemoteTable
