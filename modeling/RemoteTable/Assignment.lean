import RemoteTable.Datum
import RemoteTable.Text.Numeral

/-!
# Assignment of records to accounts

When several records match where one is wanted, the record assigned to the caller comes first, then
a record assigned to somebody else, then one assigned to nobody. A record's assignment is a list of
accounts separated by commas, in which blanks around an account and blank entries do not count.
-/

namespace RemoteTable

/-- How a record is assigned, from the caller's point of view. -/
inductive Assignment where
  /-- To the caller. -/
  | caller
  /-- To somebody else only. -/
  | others
  /-- To nobody. -/
  | nobody
deriving DecidableEq, Repr

namespace Assignment

/-- The priority of an assignment; less is better. -/
def priority : Assignment → Nat
  | caller => 0
  | others => 1
  | nobody => 2

/-- Splits characters at every comma. -/
def splitCommas : List Char → List (List Char)
  | [] => [[]]
  | c :: cs =>
    match splitCommas cs with
    | [] => [[c]]
    | part :: parts => if c = ',' then [] :: part :: parts else (c :: part) :: parts

/-- The accounts that a text lists. -/
def accounts (text : String) : List String :=
  ((splitCommas text.toList).map trimBlanks |>.filter fun part => !part.isEmpty).map String.ofList

/-- The assignment that a cell describes to an account. -/
def ofDatum (assigned : Datum) (account : String) : Assignment :=
  let listed := accounts assigned.plain
  if listed.isEmpty then nobody else if listed.contains account then caller else others

/-- The place of the first of the best assignments, each with its place. -/
def bestFrom (account : String) : List (Datum × Nat) → Option (Nat × Nat)
  | [] => none
  | (assigned, index) :: rest =>
    let own := (ofDatum assigned account).priority
    match bestFrom account rest with
    | some (priority, later) => if priority < own then some (priority, later) else some (own, index)
    | none => some (own, index)

/-- The place of the first of the best assignments. -/
def bestMatch (assignments : List Datum) (account : String) : Option Nat :=
  (bestFrom account assignments.zipIdx).map Prod.snd

end Assignment

end RemoteTable
