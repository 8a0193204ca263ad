import RemoteTable.Cache.Basic

/-!
# A fair order of polls

One round polls every lookup once, in the order in which they were started. Rounds are repeated
until one shows nothing. A lookup shows at most that it has begun and that it has returned, so there
are at most twice as many rounds that show something as there are lookups.
-/

namespace RemoteTable

namespace Cache

variable {κ ν ε : Type} [DecidableEq κ]

/-- Polls lookups one after the other. -/
def pollEach (c : Cache κ ν ε) : List LookupId → Cache κ ν ε × List (CacheEvent ν ε)
  | [] => (c, [])
  | l :: ls =>
    let (c, events) := c.poll l
    let (c, later) := c.pollEach ls
    (c, events ++ later)

/-- Polls every lookup once, in the order of their starts. -/
def round (c : Cache κ ν ε) : Cache κ ν ε × List (CacheEvent ν ε) :=
  c.pollEach (List.range c.lookups.length)

/-- Repeats rounds until one shows nothing, at most so often. -/
def rounds : Nat → Cache κ ν ε → Cache κ ν ε × List (CacheEvent ν ε)
  | 0, c => (c, [])
  | limit + 1, c =>
    let (c, events) := c.round
    if events.isEmpty then (c, [])
    else
      let (c, later) := c.rounds limit
      (c, events ++ later)

/-- Lets the lookups run as far as they can. -/
def settle (c : Cache κ ν ε) : Cache κ ν ε × List (CacheEvent ν ε) :=
  c.rounds (2 * c.lookups.length + 1)

/-! ## One lookup at a time -/

/-- What a lookup has returned, if one of the events says so. -/
def outcome? (l : LookupId) (events : List (CacheEvent ν ε)) : Option (Except ε ν) :=
  events.findSome? fun
    | .returned other outcome => if other = l then some outcome else none
    | .began _ => none

/-- Starts a lookup and polls it once: it is answered by a stored value, or its initialiser has to
be run. -/
def beginLookup (c : Cache κ ν ε) (key : κ) : Cache κ ν ε × LookupId × Option (Except ε ν) :=
  let (c, l) := c.start key none
  let (c, events) := c.poll l
  (c, l, outcome? l events)

/-- Ends a lookup with the outcome of its initialiser. -/
def endLookup (c : Cache κ ν ε) (l : LookupId) (outcome : Except ε ν) : Cache κ ν ε :=
  ((c.decideGate l outcome).poll l).1

end Cache

end RemoteTable
