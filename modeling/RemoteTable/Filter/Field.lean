import RemoteTable.Filter.Chain

/-!
# Field names and accessors

Inside a table a field has a short name. On the wire it is written behind the name of its table and
a point, unless the name already has a point or begins with `#` as the system fields do. An accessor
builds filters for one field and may know its table.
-/

namespace RemoteTable

/-- Whether a name is already a wire name. -/
def isQualified (name : String) : Bool :=
  name.toList.contains '.' || name.toList.head? == some '#'

/-- The wire name of a field of a table. -/
def qualify (table name : String) : String :=
  if isQualified name then name else table ++ "." ++ name

/-- The chain with every field name replaced by its wire name in a table. -/
def FilterChain.qualify (table : String) (c : FilterChain) : FilterChain :=
  c.mapFilters fun f => { f with field := RemoteTable.qualify table f.field }

/-- An accessor for one field, possibly bound to its table. -/
structure Field where
  /-- The name as given. -/
  name : String
  /-- The table, if the accessor knows it. -/
  table : Option String
deriving DecidableEq, Repr

namespace Field

/-- The accessor of a name in no particular table. -/
def ofName (name : String) : Field :=
  ⟨name, none⟩

/-- The accessor of a name in a table. -/
def inTable (table name : String) : Field :=
  ⟨name, some table⟩

/-- The name that filters of this accessor carry. -/
def wireName (f : Field) : String :=
  match f.table with
  | some table => qualify table f.name
  | none => f.name

/-- The filter that compares the field with an operand. -/
def compare (f : Field) (operator : Operator) (value : Datum) : Filter :=
  ⟨f.wireName, operator, value⟩

/-- The field equals the operand, whatever its shape. -/
def equal (f : Field) (value : Datum) : Filter :=
  f.compare .equal value

/-- The field is above the operand. -/
def greater (f : Field) (value : Datum) : Filter :=
  f.compare .greater value

/-- The field is below the operand. -/
def less (f : Field) (value : Datum) : Filter :=
  f.compare .less value

/-- The field is one of the operand's elements; an operand that is no sequence stands for the
sequence of itself. -/
def oneOf (f : Field) (value : Datum) : Filter :=
  f.compare .oneOf value.wrap

/-- The field contains one of the operand's values. -/
def has (f : Field) (value : Datum) : Filter :=
  f.compare .has value

/-- The field is a list that holds the operand. -/
def holds (f : Field) (value : Datum) : Filter :=
  f.compare .holds value

end Field

end RemoteTable
