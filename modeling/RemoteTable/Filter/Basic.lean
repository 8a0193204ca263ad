import RemoteTable.Datum
import RemoteTable.Filter.Operator

/-!
# Filters

A filter compares one field with an operand. Documents carry it as the sequence of its field, its
operator's token and its operand. Two readers of that form exist: `Filter.ofWire` reports what is
wrong with it, and `Filter.decode` takes the parts from left to right as data of their own types.
-/

namespace RemoteTable

/-- A comparison of a field with an operand. -/
structure Filter where
  /-- The name of the field. -/
  field : String
  /-- The comparison. -/
  operator : Operator
  /-- The operand. -/
  value : Datum
deriving Repr

namespace Filter

/-- The filter with the comparison that its operand suggests: membership for a sequence and else
equality. -/
def ofValue (field : String) (value : Datum) : Filter :=
  ⟨field, if value.isSequence then .oneOf else .equal, value⟩

/-- The JSON form of a filter. -/
def toWire (f : Filter) : Json :=
  .array [.string f.field, .string f.operator.token, f.value.toJson]

/-- The display form of a filter. -/
def display (f : Filter) : String :=
  f.field ++ " " ++ f.operator.token ++ " " ++ f.value.display

/-- Equality of filters, operands being compared as data. -/
def sameValue (f g : Filter) : Bool :=
  f.field == g.field && f.operator == g.operator && f.value.sameValue g.value

/-- Reads the JSON form of a filter. -/
def ofWire : Json → Except FilterFault Filter
  | .array [field, operator, value] => do
    let field ← match field with
      | .string s => .ok s
      | other => .error (.fieldNotText other)
    let operator ← match operator with
      | .string token => Operator.ofToken token
      | other => .error (.operatorNotText other)
    .ok ⟨field, operator, Datum.ofJson value⟩
  | other => .error (.notATriple other)

/-- Takes a filter's parts from a sequence of values: a text, an operator, a datum and no more. -/
def decode : Json → Except Error Filter
  | .array (.string field :: more) =>
    match more with
    | [] => .error (.serialization none)
    | operator :: more => do
      let operator ← Operator.decode operator
      match more with
      | [value] =>
        match Datum.decode? value with
        | some datum => .ok ⟨field, operator, datum⟩
        | none => .error (.serialization none)
      | _ => .error (.serialization none)
  | _ => .error (.serialization none)

end Filter

end RemoteTable
