import RemoteTable.Json.Basic
import RemoteTable.Number.Double

/-!
# Data of cells and operands

A datum is what a table cell holds and what a filter compares with: nothing, a truth value, a
number, a text, a sequence or named members. A datum and the JSON value that carries it are
converted into one another by `Datum.ofJson` and `Datum.toJson`; `Datum.decode?` finds the same
datum by trying one shape after the other. Two texts are defined: the display form, which marks
texts by quotes, and the plain form, which does not.

Named members have no order of their own: a datum lists them in some order, the order shows in its
texts, and each decode of a value may choose another one. `Datum.ofJson` keeps the order of the value;
all that a decode can choose is told by `Json.DecodedAs`, beside the theorems about decodes.
-/

namespace RemoteTable

/-- A value of a table cell or of a filter's operand. -/
inductive Datum where
  /-- An absent value. -/
  | null
  /-- A truth value. -/
  | boolean (b : Bool)
  /-- A number, integers kept exactly. -/
  | number (n : Number)
  /-- A text. -/
  | string (s : String)
  /-- A sequence of data. -/
  | array (items : List Datum)
  /-- Named data, listed in some order. -/
  | object (members : List (String × Datum))
deriving Repr

namespace Datum

/-! ## Parts of a datum -/

/-- Whether the value is absent. -/
def isNull : Datum → Bool
  | null => true
  | _ => false

/-- Whether the datum is a sequence. -/
def isSequence : Datum → Bool
  | array _ => true
  | _ => false

/-- The text, if the datum is one. -/
def text? : Datum → Option String
  | string s => some s
  | _ => none

/-- The number, if the datum is one. -/
def number? : Datum → Option Number
  | number n => some n
  | _ => none

/-- The truth value, if the datum is one. -/
def boolean? : Datum → Option Bool
  | boolean b => some b
  | _ => none

/-- The elements, if the datum is a sequence. -/
def items? : Datum → Option (List Datum)
  | array items => some items
  | _ => none

/-- The members, if the datum has names. -/
def members? : Datum → Option (Members Datum)
  | object members => some members
  | _ => none

/-! ## Construction -/

/-- The datum of a double; infinities and not-a-number, which have no finite form, are absent
values. -/
def ofDouble : Double → Datum
  | .finite x => number (.double x)
  | .infinite _ | .notANumber => null

/-- The sequence of some texts. -/
def ofTexts (texts : List String) : Datum :=
  array (texts.map string)

/-- The datum as a sequence: a sequence is kept and anything else becomes its only element. -/
def wrap : Datum → Datum
  | array items => array items
  | d => array [d]

/-! ## JSON -/

mutual

/-- The datum that a JSON value carries, with the members of every object listed as the value lists
them. This is one of the data that a decode can make of the value. -/
def ofJson : Json → Datum
  | .null => null
  | .boolean b => boolean b
  | .number n => number n
  | .string s => string s
  | .array items => array (ofItems items)
  | .object members => object (ofMembers members)

/-- The data of a sequence. -/
def ofItems : List Json → List Datum
  | [] => []
  | item :: items => ofJson item :: ofItems items

/-- The data of named values. -/
def ofMembers : List (String × Json) → List (String × Datum)
  | [] => []
  | (name, value) :: members => (name, ofJson value) :: ofMembers members

end

mutual

/-- The JSON value that carries a datum. -/
def toJson : Datum → Json
  | null => .null
  | boolean b => .boolean b
  | number n => .number n
  | string s => .string s
  | array items => .array (toItems items)
  | object members => .object (toMembers members)

/-- The values of a sequence. -/
def toItems : List Datum → List Json
  | [] => []
  | item :: items => toJson item :: toItems items

/-- The values of named data. -/
def toMembers : List (String × Datum) → List (String × Json)
  | [] => []
  | (name, value) :: members => (name, toJson value) :: toMembers members

end

/-- The shapes without parts: absent value, truth value, number and text. -/
def scalarShapes : List (Json → Option Datum) :=
  [fun j => if j = .null then some null else none,
   fun | .boolean b => some (boolean b) | _ => none,
   fun | .number n => some (number n) | _ => none,
   fun | .string s => some (string s) | _ => none]

/-- The first shape without parts that fits a value. -/
def scalar? (j : Json) : Option Datum :=
  scalarShapes.findSome? fun shape => shape j

mutual

/-- The datum of a value, found by trying the shapes in order: the ones without parts, then the
sequence, then the named members. -/
def decode? : Json → Option Datum
  | .array items => (scalar? (.array items)).or ((decodeItems? items).map array)
  | .object members => (scalar? (.object members)).or ((decodeMembers? members).map object)
  | j => scalar? j

/-- The data of a sequence, if every element has a shape. -/
def decodeItems? : List Json → Option (List Datum)
  | [] => some []
  | item :: items =>
    match decode? item, decodeItems? items with
    | some d, some ds => some (d :: ds)
    | _, _ => none

/-- The data of named values, if every value has a shape. -/
def decodeMembers? : List (String × Json) → Option (List (String × Datum))
  | [] => some []
  | (name, value) :: members =>
    match decode? value, decodeMembers? members with
    | some d, some ds => some ((name, d) :: ds)
    | _, _ => none

end

/-! ## Comparison -/

mutual

/-- Whether two data are equal, numbers being compared within their kind. -/
def sameValue : Datum → Datum → Bool
  | null, null => true
  | boolean a, boolean b => a == b
  | number a, number b => a.sameValue b
  | string a, string b => a == b
  | array a, array b => sameItems a b
  | object a, object b => sameMembers a b
  | _, _ => false

/-- Whether two sequences have equal elements. -/
def sameItems : List Datum → List Datum → Bool
  | [], [] => true
  | a :: as, b :: bs => sameValue a b && sameItems as bs
  | _, _ => false

/-- Whether two member lists have the same names with equal values. -/
def sameMembers : List (String × Datum) → List (String × Datum) → Bool
  | [], [] => true
  | (k, a) :: as, (l, b) :: bs => k == l && sameValue a b && sameMembers as bs
  | _, _ => false

end

/-! ## Texts -/

mutual

/-- The display form: texts in quotes as they are, without escapes, and a blank behind every comma
and colon. -/
def display : Datum → String
  | null => "null"
  | boolean b => if b then "true" else "false"
  | number n => n.text
  | string s => "\"" ++ s ++ "\""
  | array items => "[" ++ displayItems items ++ "]"
  | object members => "\x7b" ++ displayMembers members ++ "\x7d"

/-- The display form of the elements of a sequence. -/
def displayItems : List Datum → String
  | [] => ""
  | [item] => display item
  | item :: items => display item ++ ", " ++ displayItems items

/-- The display form of named data. -/
def displayMembers : List (String × Datum) → String
  | [] => ""
  | [(name, value)] => "\"" ++ name ++ "\": " ++ display value
  | (name, value) :: members =>
    "\"" ++ name ++ "\": " ++ display value ++ ", " ++ displayMembers members

end

/-- The text that stands for a datum where texts are expected, as for identifiers and cells of a
printed table: nothing for an absent value, a text as it is, else the display form. -/
def plain : Datum → String
  | null => ""
  | string s => s
  | d => d.display

end Datum

end RemoteTable
