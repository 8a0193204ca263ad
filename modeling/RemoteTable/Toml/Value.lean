import RemoteTable.Members
import RemoteTable.Number.Double

/-!
# TOML values and tables

A document is a table of named values. While it is read, a table remembers how it came to be,
because that decides whether more may be added to it: a table with a header of its own is closed to
dotted keys, a table that dotted keys made is closed to headers, and a table that is only known as
part of a header's path may still get its header.
-/

namespace RemoteTable

namespace Toml

/-- A value of a document. -/
inductive Value where
  /-- A text. -/
  | string (s : String)
  /-- A whole number. -/
  | integer (n : Int)
  /-- A number with a fraction or an exponent. -/
  | float (x : Double)
  /-- A truth value. -/
  | boolean (b : Bool)
  /-- A date, a time of day, or both, by its text. -/
  | moment (text : String)
  /-- A sequence. -/
  | array (items : List Value)
  /-- Named values. -/
  | table (members : List (String × Value))

namespace Value

/-! ## Decidable equality -/

mutual

/-- Whether two values are the same. -/
def same : Value → Value → Bool
  | string a, string b => a == b
  | integer a, integer b => a == b
  | float a, float b => a == b
  | boolean a, boolean b => a == b
  | moment a, moment b => a == b
  | array a, array b => sameItems a b
  | table a, table b => sameMembers a b
  | _, _ => false

/-- Whether two sequences have the same elements. -/
def sameItems : List Value → List Value → Bool
  | [], [] => true
  | a :: as, b :: bs => same a b && sameItems as bs
  | _, _ => false

/-- Whether two tables have the same members in the same order. -/
def sameMembers : List (String × Value) → List (String × Value) → Bool
  | [], [] => true
  | (k, a) :: as, (l, b) :: bs => k == l && same a b && sameMembers as bs
  | _, _ => false

end

mutual

/-- The comparison tells equal values from others. -/
theorem same_iff : ∀ a b : Value, same a b = true ↔ a = b
  | string _, b | integer _, b | float _, b | boolean _, b | moment _, b => by cases b <;> simp [same]
  | array a, b => by cases b <;> simp [same, sameItems_iff a]
  | table a, b => by cases b <;> simp [same, sameMembers_iff a]

theorem sameItems_iff : ∀ a b : List Value, sameItems a b = true ↔ a = b
  | [], b => by cases b <;> simp [sameItems]
  | a :: as, b => by cases b <;> simp [sameItems, same_iff a, sameItems_iff as]

theorem sameMembers_iff : ∀ a b : List (String × Value), sameMembers a b = true ↔ a = b
  | [], b => by cases b <;> simp [sameMembers]
  | (k, a) :: as, b => by
    cases b <;> simp [sameMembers, same_iff a, sameMembers_iff as, Prod.ext_iff]

end

instance : DecidableEq Value := fun a b => decidable_of_iff (same a b = true) (same_iff a b)

end Value

/-! ## Tables while they are read -/

/-- How a table came to be. -/
inductive Origin where
  /-- As part of the path of a header. -/
  | implied
  /-- By its own header. -/
  | header
  /-- As part of a dotted key. -/
  | dotted
deriving DecidableEq

/-- What a name stands for while a document is read. -/
inductive Node where
  /-- A value that is complete. -/
  | value (v : Value)
  /-- A table that may grow. -/
  | table (origin : Origin) (members : List (String × Node))
  /-- A sequence of tables, each with its own header, the latest first. -/
  | tables (latest : List (List (String × Node)))

/-- The named nodes of a table, in the order in which they were first mentioned. -/
abbrev Nodes := List (String × Node)

namespace Nodes

/-- The node of a name. -/
def get? (nodes : Nodes) (name : String) : Option Node :=
  nodes.lookup name

/-- Puts a node under a name, in place of another if there is one. -/
def put (nodes : Nodes) (name : String) (node : Node) : Nodes :=
  if (nodes.get? name).isSome then
    nodes.map fun (other, old) => if other = name then (other, node) else (other, old)
  else nodes ++ [(name, node)]

/-- The table without a name. -/
def erase (nodes : Nodes) (name : String) : Nodes :=
  nodes.filter fun (other, _) => other ≠ name

/-- Changes the table at the end of a path, making the tables on the way that are missing. `made`
says how tables are made and looked through, `origin` how the table at hand came to be. -/
def updateAt (made : Origin) (change : Origin → Nodes → Option Nodes) :
    (path : List String) → (origin : Origin) → Nodes → Option Nodes
  | [], origin, nodes => change origin nodes
  | name :: path, _, nodes =>
    match nodes.get? name with
    | none => do
      let inner ← updateAt made change path made []
      some (nodes.put name (.table made inner))
    | some (.value _) => none
    | some (.tables []) => none
    | some (.tables (last :: earlier)) => do
      let inner ← updateAt made change path .header last
      some (nodes.put name (.tables (inner :: earlier)))
    | some (.table origin inner) =>
      if made = .dotted ∧ origin = .header then none
      else do
        let inner ← updateAt made change path origin inner
        some (nodes.put name (.table origin inner))

/-- Adds a value under a key whose parts before the last lead through tables of dotted keys. -/
def addValue (nodes : Nodes) (path : List String) (name : String) (v : Value) : Option Nodes :=
  let add (origin : Origin) (table : Nodes) : Option Nodes :=
    if (origin == .dotted) == path.isEmpty then none
    else if (table.get? name).isSome then none
    else some (table ++ [(name, .value v)])
  updateAt .dotted add path .header nodes

end Nodes

mutual

/-- The value that a node has become. -/
def Node.freeze : Node → Value
  | .value v => v
  | .table _ members => .table (freezeMembers members)
  | .tables latest => .array (freezeTables latest).reverse

/-- The named values that nodes have become. -/
def freezeMembers : List (String × Node) → List (String × Value)
  | [] => []
  | (name, node) :: rest => (name, node.freeze) :: freezeMembers rest

/-- The tables of a sequence, the latest first. -/
def freezeTables : List (List (String × Node)) → List Value
  | [] => []
  | members :: rest => .table (freezeMembers members) :: freezeTables rest

end

end Toml

end RemoteTable
