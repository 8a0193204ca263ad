import RemoteTable.Cache.Recency

/-!
# A cache that shares running lookups

A lookup of a key that has a stored value is answered by it. Otherwise the lookup attaches to the
key's pending cell, which is made for the first of them. At one time at most one lookup attached to
a cell has the turn: it runs its initialiser, and the others wait in the order of their arrival.

* When the initialiser succeeds, the cell holds its value for ever, and all who wait are given it.
  If the cell is still the pending one of the key, the value is stored and the cell forgotten.
* When it fails, or its lookup is cancelled, the turn goes to the one who has waited longest. A
  lookup that fails while nobody else is attached removes its cell, if it is still pending.

Dropping a key forgets both its value and its pending cell, so that lookups which are still attached
to the cell finish among themselves. A lookup makes progress only when it is polled, and any order
of polls is possible.
-/

namespace RemoteTable

/-- The names of lookups: the number of lookups that were started before. -/
abbrev LookupId := Nat

/-- The names of cells: the number of cells that were made before. -/
abbrev CellId := Nat

/-- What the lookups of one key share while its value is being found. -/
structure Cell (ν : Type) where
  /-- The value, once an initialiser has succeeded. -/
  value : Option ν
  /-- The lookup that has the turn. -/
  owner : Option LookupId
  /-- The lookups that wait for the turn or for the value, in order of arrival. -/
  waiting : List LookupId

/-- How far a lookup has come. -/
inductive Stage where
  /-- It has not been polled yet. -/
  | fresh
  /-- It waits at a cell. -/
  | waiting (cell : CellId)
  /-- It runs its initialiser for a cell. -/
  | running (cell : CellId)
  /-- It has returned, or it was cancelled. -/
  | ended
deriving DecidableEq

/-- One lookup of a key. -/
structure Lookup (κ ν ε : Type) where
  /-- The key. -/
  key : κ
  /-- How far it has come. -/
  stage : Stage
  /-- What its initialiser ends with, once that is decided. -/
  gate : Option (Except ε ν)

/-- What a poll of a lookup can show. -/
inductive CacheEvent (ν ε : Type) where
  /-- The lookup has begun to run its initialiser. -/
  | began (lookup : LookupId)
  /-- The lookup has returned. -/
  | returned (lookup : LookupId) (outcome : Except ε ν)

/-- A cache with all its lookups and cells. -/
structure Cache (κ ν ε : Type) where
  /-- When stored values are dropped. -/
  eviction : Eviction
  /-- The stored values, the most recently used first. -/
  stored : RecencyList κ ν
  /-- The pending cells by key. -/
  pending : List (κ × CellId)
  /-- All cells that were ever made. -/
  cells : List (Cell ν)
  /-- All lookups that were ever started. -/
  lookups : List (Lookup κ ν ε)
  /-- The number of lookups that found a stored value when they were first polled. -/
  hits : Nat
  /-- The number of lookups that found none. -/
  misses : Nat

namespace Cache

variable {κ ν ε : Type} [DecidableEq κ]

/-! ## Views -/

/-- A cache with nothing in it. -/
def empty (eviction : Eviction) : Cache κ ν ε :=
  ⟨eviction, [], [], [], [], 0, 0⟩

/-- The pending cell of a key. -/
def pendingCell? (c : Cache κ ν ε) (key : κ) : Option CellId :=
  (c.pending.find? fun entry => entry.1 = key).map Prod.snd

/-- The number of stored values. -/
def size (c : Cache κ ν ε) : Nat :=
  c.stored.length

/-- The number of pending cells. -/
def inFlight (c : Cache κ ν ε) : Nat :=
  c.pending.length

/-- Whether a lookup has neither returned nor been cancelled. -/
def isUnfinished (c : Cache κ ν ε) (l : LookupId) : Bool :=
  match c.lookups[l]? with
  | some lookup => lookup.stage != .ended
  | none => false

/-! ## Small changes -/

/-- Changes one cell. -/
def modifyCell (c : Cache κ ν ε) (id : CellId) (change : Cell ν → Cell ν) : Cache κ ν ε :=
  { c with cells := c.cells.modify id change }

/-- Puts a lookup into a stage. -/
def setStage (c : Cache κ ν ε) (l : LookupId) (stage : Stage) : Cache κ ν ε :=
  { c with lookups := c.lookups.modify l fun lookup => { lookup with stage } }

/-- Forgets the pending cell of a key. -/
def removePending (c : Cache κ ν ε) (key : κ) : Cache κ ν ε :=
  { c with pending := c.pending.filter fun entry => entry.1 ≠ key }

end Cache

namespace Cell

variable {ν : Type}

/-- A cell that nobody is attached to. -/
def empty : Cell ν :=
  ⟨none, none, []⟩

/-- The cell with a value: there is no turn any more and nobody has to wait. -/
def fill (value : ν) (_ : Cell ν) : Cell ν :=
  ⟨some value, none, []⟩

/-- The turn goes to the lookup that has waited longest. -/
def passTurn (cell : Cell ν) : Cell ν :=
  { cell with owner := cell.waiting.head?, waiting := cell.waiting.tail }

/-- A lookup that leaves without having returned gives the turn away or gives up its place. -/
def leave (l : LookupId) (cell : Cell ν) : Cell ν :=
  if cell.owner = some l then cell.passTurn
  else { cell with waiting := cell.waiting.erase l }

/-- Whether no lookup is attached to a cell without a value. -/
def isDeserted (cell : Cell ν) : Bool :=
  cell.value.isNone && cell.owner.isNone && cell.waiting.isEmpty

end Cell

namespace Cache

variable {κ ν ε : Type} [DecidableEq κ]

/-! ## Lookups -/

/-- Starts a lookup, which does nothing until it is polled. -/
def start (c : Cache κ ν ε) (key : κ) (gate : Option (Except ε ν)) : Cache κ ν ε × LookupId :=
  ({ c with lookups := c.lookups ++ [⟨key, .fresh, gate⟩] }, c.lookups.length)

/-- Decides what the initialiser of a lookup ends with. -/
def decideGate (c : Cache κ ν ε) (l : LookupId) (outcome : Except ε ν) : Cache κ ν ε :=
  { c with lookups := c.lookups.modify l fun lookup => { lookup with gate := some outcome } }

/-- A lookup returns a value: it is stored if the lookup's cell is still the pending one. -/
def returnValue (c : Cache κ ν ε) (l : LookupId) (key : κ) (cell : CellId) (value : ν) :
    Cache κ ν ε × List (CacheEvent ν ε) :=
  let c := c.setStage l .ended
  let c :=
    if c.pendingCell? key = some cell then
      { c.removePending key with stored := c.stored.put c.eviction key value }
    else c
  (c, [.returned l (.ok value)])

/-- A lookup returns its initialiser's failure: the turn is passed on, and if nobody takes it and
the cell is still the pending one, it is forgotten. -/
def returnError (c : Cache κ ν ε) (l : LookupId) (key : κ) (cell : CellId) (error : ε) :
    Cache κ ν ε × List (CacheEvent ν ε) :=
  let c := (c.setStage l .ended).modifyCell cell Cell.passTurn
  let deserted := (c.cells[cell]?.map Cell.isDeserted).getD false
  let c := if c.pendingCell? key = some cell ∧ deserted then c.removePending key else c
  (c, [.returned l (.error error)])

/-- Looks after a running initialiser: once its outcome is decided, the lookup returns. -/
def continueRunning (c : Cache κ ν ε) (l : LookupId) (lookup : Lookup κ ν ε) (cell : CellId) :
    Cache κ ν ε × List (CacheEvent ν ε) :=
  match lookup.gate with
  | none => (c, [])
  | some (.ok value) => (c.modifyCell cell (Cell.fill value)).returnValue l lookup.key cell value
  | some (.error error) => c.returnError l lookup.key cell error

/-- A lookup that has the turn begins to run its initialiser. -/
def beginRunning (c : Cache κ ν ε) (l : LookupId) (lookup : Lookup κ ν ε) (cell : CellId) :
    Cache κ ν ε × List (CacheEvent ν ε) :=
  let (c, events) := (c.setStage l (.running cell)).continueRunning l lookup cell
  (c, .began l :: events)

/-- The pending cell of a key, made if there is none. -/
def attach (c : Cache κ ν ε) (key : κ) : Cache κ ν ε × CellId :=
  match c.pendingCell? key with
  | some cell => (c, cell)
  | none =>
    ({ c with
        pending := c.pending ++ [(key, c.cells.length)]
        cells := c.cells ++ [Cell.empty] },
      c.cells.length)

/-- A lookup comes to a cell: it takes the value or the turn, or else it waits. -/
def arrive (c : Cache κ ν ε) (l : LookupId) (lookup : Lookup κ ν ε) (cell : CellId) :
    Cache κ ν ε × List (CacheEvent ν ε) :=
  match c.cells[cell]? with
  | none => (c, [])
  | some found =>
    match found.value, found.owner with
    | some value, _ => c.returnValue l lookup.key cell value
    | none, none =>
      (c.modifyCell cell fun found => { found with owner := some l }).beginRunning l lookup cell
    | none, some _ =>
      ((c.modifyCell cell fun found => { found with waiting := found.waiting ++ [l] }).setStage l
        (.waiting cell), [])

/-- The first poll of a lookup: a stored value answers it and counts as a hit, anything else is a
miss. -/
def firstPoll (c : Cache κ ν ε) (l : LookupId) (lookup : Lookup κ ν ε) :
    Cache κ ν ε × List (CacheEvent ν ε) :=
  match c.stored.find? lookup.key with
  | some value =>
    ({ c.setStage l .ended with stored := c.stored.touch lookup.key, hits := c.hits + 1 },
      [.returned l (.ok value)])
  | none =>
    let (c, cell) := c.attach lookup.key
    { c with misses := c.misses + 1 }.arrive l lookup cell

/-- A poll of a waiting lookup: it takes the value or the turn if it was given one of them. -/
def pollWaiting (c : Cache κ ν ε) (l : LookupId) (lookup : Lookup κ ν ε) (cell : CellId) :
    Cache κ ν ε × List (CacheEvent ν ε) :=
  match c.cells[cell]? with
  | none => (c, [])
  | some found =>
    match found.value with
    | some value => c.returnValue l lookup.key cell value
    | none => if found.owner = some l then c.beginRunning l lookup cell else (c, [])

/-- Polls a lookup. -/
def poll (c : Cache κ ν ε) (l : LookupId) : Cache κ ν ε × List (CacheEvent ν ε) :=
  match c.lookups[l]? with
  | none => (c, [])
  | some lookup =>
    match lookup.stage with
    | .fresh => c.firstPoll l lookup
    | .waiting cell => c.pollWaiting l lookup cell
    | .running cell => c.continueRunning l lookup cell
    | .ended => (c, [])

/-- Cancels a lookup; its pending cell stays. -/
def cancel (c : Cache κ ν ε) (l : LookupId) : Cache κ ν ε :=
  match c.lookups[l]? with
  | none => c
  | some lookup =>
    match lookup.stage with
    | .fresh | .ended => c.setStage l .ended
    | .waiting cell | .running cell => (c.setStage l .ended).modifyCell cell (Cell.leave l)

/-! ## Access without a lookup -/

/-- The stored value of a key, which counts as a use but neither as a hit nor as a miss. -/
def get (c : Cache κ ν ε) (key : κ) : Cache κ ν ε × Option ν :=
  ({ c with stored := c.stored.touch key }, c.stored.find? key)

/-- Drops a key: its value and its pending cell. -/
def invalidate (c : Cache κ ν ε) (key : κ) : Cache κ ν ε :=
  { c.removePending key with stored := c.stored.erase key }

/-- Drops all keys. -/
def clear (c : Cache κ ν ε) : Cache κ ν ε :=
  { c with stored := [], pending := [] }

/-! ## Runs -/

/-- What can be done with a cache. -/
inductive Action (κ ν ε : Type) where
  /-- Starts a lookup, possibly with its initialiser's outcome decided. -/
  | start (key : κ) (gate : Option (Except ε ν))
  /-- Decides the outcome of a lookup's initialiser. -/
  | decideGate (lookup : LookupId) (outcome : Except ε ν)
  /-- Polls a lookup. -/
  | poll (lookup : LookupId)
  /-- Cancels a lookup. -/
  | cancel (lookup : LookupId)
  /-- Reads a stored value. -/
  | get (key : κ)
  /-- Drops a key. -/
  | invalidate (key : κ)
  /-- Drops all keys. -/
  | clear

/-- What an action shows. -/
inductive Observation (κ ν ε : Type) where
  /-- A poll of a lookup. -/
  | polled (event : CacheEvent ν ε)
  /-- A read of a stored value. -/
  | read (key : κ) (value : Option ν)

/-- Carries out an action. -/
def step (c : Cache κ ν ε) : Action κ ν ε → Cache κ ν ε × List (Observation κ ν ε)
  | .start key gate => ((c.start key gate).1, [])
  | .decideGate l outcome => (c.decideGate l outcome, [])
  | .poll l => ((c.poll l).1, (c.poll l).2.map .polled)
  | .cancel l => (c.cancel l, [])
  | .get key => ((c.get key).1, [.read key (c.get key).2])
  | .invalidate key => (c.invalidate key, [])
  | .clear => (c.clear, [])

/-- Carries out actions one after the other. -/
def runActions (c : Cache κ ν ε) :
    List (Action κ ν ε) → Cache κ ν ε × List (Observation κ ν ε)
  | [] => (c, [])
  | action :: actions =>
    let (c, seen) := c.step action
    let (c, later) := c.runActions actions
    (c, seen ++ later)

/-- The caches that some actions lead to from an empty one. -/
inductive Reachable (eviction : Eviction) : Cache κ ν ε → Prop where
  /-- The empty cache. -/
  | empty : Reachable eviction (Cache.empty eviction)
  /-- A cache after one more action. -/
  | step {c : Cache κ ν ε} (action : Action κ ν ε) :
    Reachable eviction c → Reachable eviction (c.step action).1

end Cache

end RemoteTable
