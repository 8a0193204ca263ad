import RemoteTable.Members
import RemoteTable.Number.Layout
import RemoteTable.Text.Numeral

/-!
# JSON values

The values that documents are made of. Integers between `-2 ^ 63` and `2 ^ 64 - 1` are kept exactly;
every other number is a double, and an integer is never equal to a double. The members of an object
are kept in the order of their names (`Json.SortedKeys`), as the reader produces them.
-/

namespace RemoteTable

/-- A whole number that documents keep exactly. -/
structure WireInt where
  /-- The number. -/
  val : Int
  /-- It is a signed or an unsigned number of 64 bits. -/
  inRange : -signedEnd ≤ val ∧ val < unsignedEnd
deriving DecidableEq, Repr

namespace WireInt

/-- The integer as an exact number, if it is in range. -/
def ofInt? (n : Int) : Option WireInt :=
  if h : -signedEnd ≤ n ∧ n < unsignedEnd then some ⟨n, h⟩ else none

/-- A number of at most 32 bits. -/
def ofUInt32 (n : UInt32) : WireInt :=
  ⟨n.toNat, by have := n.toNat_lt; simp only [signedEnd, unsignedEnd]; omega⟩

/-- A signed number of 64 bits. -/
def ofInt64 (n : Int64) : WireInt :=
  ⟨n.toInt, by
    have := n.toInt_lt
    have := n.le_toInt
    simp only [signedEnd, unsignedEnd]
    omega⟩

/-- An unsigned number of 64 bits. -/
def ofUInt64 (n : UInt64) : WireInt :=
  ⟨n.toNat, by have := n.toNat_lt; simp only [signedEnd, unsignedEnd]; omega⟩

end WireInt

/-- A number of a document. -/
inductive Number where
  /-- A whole number, kept exactly. -/
  | integer (n : WireInt)
  /-- Any other number, as the nearest double the reader finds. -/
  | double (x : Binary64)
deriving DecidableEq, Repr

namespace Number

/-- The number as a double. -/
def toBinary64 : Number → Binary64
  | integer n => Binary64.ofInt n.val
  | double x => x

/-- The whole number, if it is one and fits in 64 bits with a sign. -/
def toInt? : Number → Option Int
  | integer n => if n.val < signedEnd then some n.val else none
  | double _ => none

/-- The whole number, if it is one and not negative. -/
def toNat? : Number → Option Nat
  | integer n => if 0 ≤ n.val then some n.val.toNat else none
  | double _ => none

/-- Numeric equality within one kind: integers by value, doubles with both zeros equal. -/
def sameValue : Number → Number → Bool
  | integer n, integer k => n == k
  | double x, double y => x.sameValue y
  | _, _ => false

/-- Whether the number is zero. -/
def isZero : Number → Bool
  | integer n => n.val == 0
  | double x => x.isZero

/-- The number as documents and messages spell it. -/
def text : Number → String
  | integer n => integerText n.val
  | double x => NumberLayout.wire.render x

end Number

/-- A JSON value. -/
inductive Json where
  /-- The value `null`. -/
  | null
  /-- A truth value. -/
  | boolean (b : Bool)
  /-- A number. -/
  | number (n : Number)
  /-- A text. -/
  | string (s : String)
  /-- A sequence. -/
  | array (items : List Json)
  /-- Named members in the order of their names. -/
  | object (members : List (String × Json))
deriving Repr

namespace Json

/-! ## Decidable equality -/

mutual

/-- Decides equality of values. -/
def decideEq : (a b : Json) → Decidable (a = b)
  | null, null => isTrue rfl
  | boolean a, boolean b => decidable_of_iff (a = b) (by simp)
  | number a, number b => decidable_of_iff (a = b) (by simp)
  | string a, string b => decidable_of_iff (a = b) (by simp)
  | array a, array b =>
    match decideEqItems a b with
    | isTrue h => isTrue (by rw [h])
    | isFalse h => isFalse (by simpa using h)
  | object a, object b =>
    match decideEqMembers a b with
    | isTrue h => isTrue (by rw [h])
    | isFalse h => isFalse (by simpa using h)
  | null, boolean _ | null, number _ | null, string _ | null, array _ | null, object _
  | boolean _, null | boolean _, number _ | boolean _, string _ | boolean _, array _
  | boolean _, object _ | number _, null | number _, boolean _ | number _, string _
  | number _, array _ | number _, object _ | string _, null | string _, boolean _
  | string _, number _ | string _, array _ | string _, object _ | array _, null
  | array _, boolean _ | array _, number _ | array _, string _ | array _, object _
  | object _, null | object _, boolean _ | object _, number _ | object _, string _
  | object _, array _ => isFalse (by simp)

/-- Decides equality of sequences. -/
def decideEqItems : (a b : List Json) → Decidable (a = b)
  | [], [] => isTrue rfl
  | [], _ :: _ | _ :: _, [] => isFalse (by simp)
  | a :: as, b :: bs =>
    match decideEq a b, decideEqItems as bs with
    | isTrue h, isTrue t => isTrue (by rw [h, t])
    | isFalse h, _ => isFalse (by simp [h])
    | _, isFalse t => isFalse (by simp [t])

/-- Decides equality of member lists. -/
def decideEqMembers : (a b : List (String × Json)) → Decidable (a = b)
  | [], [] => isTrue rfl
  | [], _ :: _ | _ :: _, [] => isFalse (by simp)
  | (k, a) :: as, (l, b) :: bs =>
    if name : k = l then
      match decideEq a b, decideEqMembers as bs with
      | isTrue h, isTrue t => isTrue (by rw [name, h, t])
      | isFalse h, _ => isFalse (by simp [h])
      | _, isFalse t => isFalse (by simp [t])
    else isFalse (by simp [name])

end

instance : DecidableEq Json := decideEq

/-! ## Parts of a value -/

/-- The number of an integer, exact where documents keep integers exactly. -/
def ofInt (n : Int) : Json :=
  match WireInt.ofInt? n with
  | some k => number (.integer k)
  | none => number (.double (Binary64.ofInt n))

/-- The number of a count. -/
def ofNat (n : Nat) : Json :=
  ofInt n

/-- The sequence of some texts. -/
def ofTexts (texts : List String) : Json :=
  array (texts.map string)

/-- The text, if the value is one. -/
def text? : Json → Option String
  | string s => some s
  | _ => none

/-- The value of a name, if the value is an object that has it. -/
def member? (name : String) : Json → Option Json
  | object members => Members.get? members name
  | _ => none

/-- Builds an object from named values; of a repeated name the last value counts. -/
def ofMembers (pairs : List (String × Json)) : Json :=
  object (Members.ofList pairs)

mutual

/-- Every object inside has its members in strictly increasing order of their names. -/
def SortedKeys : Json → Prop
  | null | boolean _ | number _ | string _ => True
  | array items => SortedItems items
  | object members => Members.Sorted members ∧ SortedValues members

/-- Every object inside the sequence has its members in order. -/
def SortedItems : List Json → Prop
  | [] => True
  | item :: items => SortedKeys item ∧ SortedItems items

/-- Every object inside the members' values has its members in order. -/
def SortedValues : List (String × Json) → Prop
  | [] => True
  | (_, value) :: rest => SortedKeys value ∧ SortedValues rest

end

end Json

end RemoteTable
