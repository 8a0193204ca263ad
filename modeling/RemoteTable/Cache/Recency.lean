/-!
# Values in order of use

Keys with their values, the most recently used first. A use moves a key to the front; putting a new
key into a full list drops the key at the end.
-/

namespace RemoteTable

/-- When stored values are dropped. -/
inductive Eviction where
  /-- Only on demand. -/
  | never
  /-- When more keys than this are stored, beginning with the one that was not used for longest. -/
  | leastRecent (capacity : Nat)
deriving DecidableEq, Repr

/-- The number of keys that are kept, if it is bounded; there is room for one key at least. -/
def Eviction.capacity? : Eviction → Option Nat
  | never => none
  | leastRecent capacity => some (max capacity 1)

/-- Keys with their values, the most recently used first. -/
abbrev RecencyList (κ ν : Type) := List (κ × ν)

namespace RecencyList

variable {κ ν : Type} [DecidableEq κ]

/-- The value of a key. -/
def find? (entries : RecencyList κ ν) (key : κ) : Option ν :=
  (List.find? (fun entry => entry.1 = key) entries).map Prod.snd

/-- The list without a key. -/
def erase (entries : RecencyList κ ν) (key : κ) : RecencyList κ ν :=
  entries.filter fun entry => entry.1 ≠ key

/-- The list with a key moved to the front, if it is there. -/
def touch (entries : RecencyList κ ν) (key : κ) : RecencyList κ ν :=
  match entries.find? key with
  | some value => (key, value) :: entries.erase key
  | none => entries

/-- The list with a value under a key in front, cut at the end to what is kept. -/
def put (eviction : Eviction) (entries : RecencyList κ ν) (key : κ) (value : ν) :
    RecencyList κ ν :=
  let grown := (key, value) :: entries.erase key
  match eviction.capacity? with
  | some capacity => grown.take capacity
  | none => grown

end RecencyList

end RemoteTable
