import RemoteTable.Filter.Basic

/-!
# Chains of filters

A chain is a filter followed by any number of joins, each with one more filter. There is no
grouping: combining two chains writes the second behind the first, and a chain is evaluated from
left to right, each join combining the truth so far with the next filter. Documents carry a chain
as the flat sequence of its filters and joins.
-/

namespace RemoteTable

/-- One place of a chain. -/
inductive ChainItem where
  /-- A filter, at an even place. -/
  | filter (f : Filter)
  /-- A join, at an odd place. -/
  | join (j : Join)
deriving Repr

namespace ChainItem

/-- The filter, if the place holds one. -/
def filter? : ChainItem → Option Filter
  | filter f => some f
  | join _ => none

/-- The token of the operator or join at the place. -/
def token : ChainItem → String
  | filter f => f.operator.token
  | join j => j.token

/-- The JSON form of the place. -/
def toWire : ChainItem → Json
  | filter f => f.toWire
  | join j => .string j.token

/-- The display form of the place. -/
def display : ChainItem → String
  | filter f => f.display
  | join j => j.token

/-- Equality of places, operands being compared as data. -/
def sameValue : ChainItem → ChainItem → Bool
  | filter f, filter g => f.sameValue g
  | join j, join k => j == k
  | _, _ => false

end ChainItem

/-- A filter followed by joins with one more filter each. -/
structure FilterChain where
  /-- The leftmost filter. -/
  first : Filter
  /-- The joins and filters behind it. -/
  rest : List (Join × Filter)
deriving Repr

namespace FilterChain

/-! ## Construction and combination -/

/-- The chain of a single filter. -/
def single (f : Filter) : FilterChain :=
  ⟨f, []⟩

/-- The first chain, a join, and the second chain's places. -/
def combine (a : FilterChain) (j : Join) (b : FilterChain) : FilterChain :=
  ⟨a.first, a.rest ++ (j, b.first) :: b.rest⟩

/-- The conjunction of two chains, without grouping. -/
def and (a b : FilterChain) : FilterChain :=
  a.combine .and b

/-- The disjunction of two chains, without grouping. -/
def or (a b : FilterChain) : FilterChain :=
  a.combine .or b

/-- Changes every filter of a chain. -/
def mapFilters (change : Filter → Filter) (c : FilterChain) : FilterChain :=
  ⟨change c.first, c.rest.map fun (j, f) => (j, change f)⟩

/-! ## Views -/

/-- The filters, from left to right. -/
def filters (c : FilterChain) : List Filter :=
  c.first :: c.rest.map Prod.snd

/-- The filters and joins in the order of their places. -/
def items (c : FilterChain) : List ChainItem :=
  .filter c.first :: c.rest.flatMap fun (j, f) => [.join j, .filter f]

/-- The number of places. -/
def size (c : FilterChain) : Nat :=
  c.items.length

/-- The JSON form of a chain. -/
def toWire (c : FilterChain) : Json :=
  .array (c.items.map ChainItem.toWire)

/-- The display form of a chain. -/
def display (c : FilterChain) : String :=
  " ".intercalate (c.items.map ChainItem.display)

/-- Equality of chains, operands being compared as data. -/
def sameValue (a b : FilterChain) : Bool :=
  a.size == b.size && (a.items.zip b.items).all fun (x, y) => x.sameValue y

/-- The truth of a chain for given truths of its filters, from left to right. -/
def evaluate (truth : Filter → Bool) (c : FilterChain) : Bool :=
  c.rest.foldl (fun sofar (j, f) => j.apply sofar (truth f)) (truth c.first)

/-! ## Reading -/

/-- Reads the joins and filters behind the first filter, the next join being at `position`. -/
def restOfWire (position : Nat) : List Json → Except FilterFault (List (Join × Filter))
  | [] => .ok []
  | [join] => .error (.notAJoin position join)
  | join :: filter :: more =>
    match Join.ofJson? join with
    | none => .error (.notAJoin position join)
    | some j => do
      let f ← Filter.ofWire filter
      let rest ← restOfWire (position + 2) more
      .ok ((j, f) :: rest)

/-- Whether a value is a text. -/
def isText : Json → Bool
  | .string _ => true
  | _ => false

/-- Reads a chain: the sequence of its places, or a single filter when the sequence begins with a
text. The leftmost fault is reported. -/
def ofWire : Json → Except FilterFault FilterChain
  | .array [] => .error (.evenLength 0)
  | .array (head :: more) =>
    if isText head then single <$> Filter.ofWire (.array (head :: more))
    else if (more.length + 1) % 2 = 0 then .error (.evenLength (more.length + 1))
    else do
      let first ← Filter.ofWire head
      let rest ← restOfWire 1 more
      .ok ⟨first, rest⟩
  | other => .error (.notASequence other)

/-- Reads a chain as a failure-reporting operation does. -/
def parse (j : Json) : Except Error FilterChain :=
  (ofWire j).mapError .malformedFilter

/-- Reads a chain as part of a larger document, where its fault is one of decoding. -/
def decode (j : Json) : Except Error FilterChain :=
  (ofWire j).mapError fun fault => .serialization (some fault)

end FilterChain

instance : Coe Filter FilterChain := ⟨FilterChain.single⟩

end RemoteTable
