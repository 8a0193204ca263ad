import RemoteTable.Cache.Basic
import RemoteTable.Number.Binary64
import RemoteTable.Text.Numeral

/-!
# Reports on a cache

The counters of a cache and the texts that describe it.
-/

namespace RemoteTable

/-- What is known about the use of a cache. -/
structure CacheStats where
  /-- The number of lookups answered by a stored value. -/
  hits : Nat
  /-- The number of other lookups. -/
  misses : Nat
  /-- The number of stored values. -/
  size : Nat
  /-- The number of pending cells. -/
  inFlight : Nat
  /-- The number of keys that are kept, if it is bounded. -/
  capacity : Option Nat
deriving DecidableEq, Repr

/-- The part of the lookups that were answered by a stored value; zero before the first lookup. -/
def CacheStats.hitRate (s : CacheStats) : Binary64 :=
  Binary64.ofQuotient s.hits (s.hits + s.misses)

/-- The text that describes an eviction rule. -/
def Eviction.describe : Eviction → String
  | never => "Never"
  | leastRecent capacity => "Lru(" ++ decimalText capacity ++ ")"

namespace Cache

variable {κ ν ε : Type}

/-- The counters of a cache. -/
def stats (c : Cache κ ν ε) : CacheStats where
  hits := c.hits
  misses := c.misses
  size := c.size
  inFlight := c.inFlight
  capacity := c.eviction.capacity?

/-- The text that describes a cache. -/
def describe (c : Cache κ ν ε) : String :=
  "ResolveCache \x7b eviction: " ++ c.eviction.describe ++ ", size: " ++ decimalText c.size ++
    ", in_flight: " ++ decimalText c.inFlight ++ " \x7d"

end Cache

end RemoteTable
