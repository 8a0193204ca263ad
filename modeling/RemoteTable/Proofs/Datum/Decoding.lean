import Mathlib.Data.Int.Notation
import RemoteTable.Proofs.Datum.Json
import RemoteTable.Proofs.Json.Order

/-!
# The ways between data and JSON values

A value is converted to a datum in one pass, or decoded by trying one shape after the other; a datum is
converted to a value, or encoded member by member, in whatever order its members are stored
(`Datum.EncodedAs`). All ways lead to the same place: the shapes exclude one another, so that the
decoder finds the converted datum (`Datum.decode?_eq`), and the names of an object are in order, so that
the encoder cannot help writing the converted value (`Datum.encodedAs_ofJson_iff`). In particular whole
numbers stay whole numbers (`Datum.converts_exactly`).
-/

namespace RemoteTable

namespace Datum

/-! ## Decoding -/

mutual

/-- The first shape that fits a value is that of the datum which the value carries. -/
theorem decode?_eq : ∀ j : Json, decode? j = some (ofJson j)
  | .null => rfl
  | .boolean _ => rfl
  | .number _ => rfl
  | .string _ => rfl
  | .array items => by
    -- no shape without parts fits a sequence, whatever its elements are
    show ((decodeItems? items).map array) = _
    rw [decodeItems?_eq items]
    rfl
  | .object members => by
    show ((decodeMembers? members).map object) = _
    rw [decodeMembers?_eq members]
    rfl

theorem decodeItems?_eq : ∀ items : List Json, decodeItems? items = some (ofItems items)
  | [] => rfl
  | item :: items => by
    rw [decodeItems?, decode?_eq item, decodeItems?_eq items]
    rfl

theorem decodeMembers?_eq :
    ∀ members : List (String × Json), decodeMembers? members = some (ofMembers members)
  | [] => rfl
  | (name, value) :: members => by
    rw [decodeMembers?, decode?_eq value, decodeMembers?_eq members]
    rfl

end

/-! ## Encoding -/

mutual

/-- The values that a datum can be encoded as. The members of an object are encoded one by one and
written in any order, and the object that is written puts them in the order of their names. -/
inductive EncodedAs : Datum → Json → Prop
  /-- An absent value. -/
  | null : EncodedAs .null .null
  /-- A truth value. -/
  | boolean (b : Bool) : EncodedAs (.boolean b) (.boolean b)
  /-- A number. -/
  | number (n : Number) : EncodedAs (.number n) (.number n)
  /-- A text. -/
  | string (s : String) : EncodedAs (.string s) (.string s)
  /-- The elements of a sequence keep their places. -/
  | array {items : List Datum} {values : List Json} (h : ItemsEncodedAs items values) :
      EncodedAs (.array items) (.array values)
  /-- The members of an object have no places. -/
  | object {members : List (String × Datum)} {encoded written : List (String × Json)}
      (h : MembersEncodedAs members encoded) (order : written.Perm encoded) :
      EncodedAs (.object members) (.ofMembers written)

/-- The values that the elements of a sequence can be encoded as. -/
inductive ItemsEncodedAs : List Datum → List Json → Prop
  /-- No elements are no values. -/
  | nil : ItemsEncodedAs [] []
  /-- Every element is a value of its own. -/
  | cons {item : Datum} {items : List Datum} {value : Json} {values : List Json}
      (first : EncodedAs item value) (rest : ItemsEncodedAs items values) :
      ItemsEncodedAs (item :: items) (value :: values)

/-- The named values that the members of an object can be encoded as. -/
inductive MembersEncodedAs : List (String × Datum) → List (String × Json) → Prop
  /-- No members are no named values. -/
  | nil : MembersEncodedAs [] []
  /-- Every member keeps its name. -/
  | cons {name : String} {d : Datum} {members : List (String × Datum)} {value : Json}
      {encoded : List (String × Json)} (first : EncodedAs d value)
      (rest : MembersEncodedAs members encoded) :
      MembersEncodedAs ((name, d) :: members) ((name, value) :: encoded)

end

mutual

/-- A datum that a value carries is encoded as this value and as no other one. -/
theorem encodedAs_ofJson_iff :
    ∀ {v : Json}, v.SortedKeys → ∀ {j : Json}, EncodedAs (ofJson v) j ↔ j = v
  | .null, _, j => ⟨fun h => by cases h; rfl, by rintro rfl; exact .null⟩
  | .boolean b, _, j => ⟨fun h => by cases h; rfl, by rintro rfl; exact .boolean b⟩
  | .number n, _, j => ⟨fun h => by cases h; rfl, by rintro rfl; exact .number n⟩
  | .string s, _, j => ⟨fun h => by cases h; rfl, by rintro rfl; exact .string s⟩
  | .array items, hitems, j => by
    constructor
    · rintro (_ | _ | _ | _ | h)
      rw [(itemsEncodedAs_ofItems_iff hitems).mp h]
    · rintro rfl
      exact .array ((itemsEncodedAs_ofItems_iff hitems).mpr rfl)
  | .object members, ⟨hsorted, hvalues⟩, j => by
    -- in whatever order the members are written, the object has them in the order of their names
    have hwritten : ∀ {written}, written.Perm members → Json.ofMembers written = .object members :=
      fun order => congrArg Json.object (Members.ofList_eq_of_perm hsorted order)
    constructor
    · rintro (_ | _ | _ | _ | _ | ⟨h, order⟩)
      rw [(membersEncodedAs_ofMembers_iff hvalues).mp h] at order
      exact hwritten order
    · rintro rfl
      have hobject := EncodedAs.object ((membersEncodedAs_ofMembers_iff hvalues).mpr rfl)
        (.refl members)
      rwa [hwritten (.refl members)] at hobject

theorem itemsEncodedAs_ofItems_iff : ∀ {items : List Json}, Json.SortedItems items →
    ∀ {values : List Json}, ItemsEncodedAs (ofItems items) values ↔ values = items
  | [], _, values => ⟨fun h => by cases h; rfl, by rintro rfl; exact .nil⟩
  | item :: items, ⟨hitem, hitems⟩, values => by
    constructor
    · rintro (_ | ⟨first, rest⟩)
      rw [(encodedAs_ofJson_iff hitem).mp first, (itemsEncodedAs_ofItems_iff hitems).mp rest]
    · rintro rfl
      exact .cons ((encodedAs_ofJson_iff hitem).mpr rfl) ((itemsEncodedAs_ofItems_iff hitems).mpr rfl)

theorem membersEncodedAs_ofMembers_iff : ∀ {members : List (String × Json)},
    Json.SortedValues members →
      ∀ {encoded : List (String × Json)}, MembersEncodedAs (ofMembers members) encoded ↔
        encoded = members
  | [], _, encoded => ⟨fun h => by cases h; rfl, by rintro rfl; exact .nil⟩
  | (name, value) :: members, ⟨hvalue, hmembers⟩, encoded => by
    constructor
    · rintro (_ | ⟨first, rest⟩)
      rw [(encodedAs_ofJson_iff hvalue).mp first, (membersEncodedAs_ofMembers_iff hmembers).mp rest]
    · rintro rfl
      exact .cons ((encodedAs_ofJson_iff hvalue).mpr rfl)
        ((membersEncodedAs_ofMembers_iff hmembers).mpr rfl)

end

/-! ## All ways -/

/-- A whole number of 64 bits is carried by the datum of exactly this number. -/
theorem ofJson_ofInt {n : ℤ} (h : -signedEnd ≤ n ∧ n < unsignedEnd) :
    ofJson (.ofInt n) = .number (.integer ⟨n, h⟩) := by
  rw [Json.ofInt, WireInt.ofInt?, dif_pos h]
  rfl

/-- Data and JSON values are the same thing in two forms:

* converting a value to a datum and back gives the value, and decoding it by its shape gives the datum
  that it is converted to;
* a datum that a value carries, the names in its objects being in order, is encoded as this value,
  and as no other one, in whatever order the members of its objects are written;
* the names in the objects of every document are in order;
* converting a datum to a value and back gives the datum;
* whole numbers of 64 bits, with a sign or without one, are kept as such numbers, which are equal to no
  double. -/
theorem converts_exactly :
    (∀ v : Json, (ofJson v).toJson = v ∧ decode? v = some (ofJson v)) ∧
    (∀ v : Json, v.SortedKeys → ∀ j, EncodedAs (ofJson v) j ↔ j = v) ∧
    (∀ text v, Json.ofText? text = some v → v.SortedKeys) ∧
    (∀ d : Datum, ofJson d.toJson = d) ∧
    ∀ (n : ℤ) (h : -signedEnd ≤ n ∧ n < unsignedEnd),
      ofJson (.ofInt n) = .number (.integer ⟨n, h⟩) ∧
      toJson (.number (.integer ⟨n, h⟩)) = .ofInt n ∧
      ∀ x, ofJson (.ofInt n) ≠ .number (.double x) ∧
        (ofJson (.ofInt n)).sameValue (.number (.double x)) = false := by
  refine ⟨fun v => ⟨toJson_ofJson v, decode?_eq v⟩, fun v h j => encodedAs_ofJson_iff h,
    fun _ _ => Json.sortedKeys_of_ofText?, ofJson_toJson, fun n h => ?_⟩
  have hread := ofJson_ofInt h
  refine ⟨hread, ?_, fun x => ?_⟩
  · rw [← hread, toJson_ofJson]
  · rw [hread]
    exact ⟨by simp, rfl⟩

/-- An object with the greatest whole number in a sequence inside: it is decoded as what it is converted
to, and its members can be encoded from the last to the first. -/
theorem nested_converts_exactly :
    let v : Json := .object [("a", .array [.ofInt 18446744073709551615, .null]), ("b", .object [])]
    v.SortedKeys ∧ (ofJson v).toJson = v ∧ decode? v = some (ofJson v) ∧ EncodedAs (ofJson v) v ∧
      EncodedAs (ofJson v) (.ofMembers [("b", .object []),
        ("a", .array [.ofInt 18446744073709551615, .null])]) ∧
      ofJson (.ofInt 18446744073709551615) =
        .number (.integer ⟨18446744073709551615, by decide⟩) := by
  intro v
  obtain ⟨hvalues, hencoded, -, -, hintegers⟩ := converts_exactly
  have hsorted : v.SortedKeys := by
    refine ⟨by decide, ⟨trivial, trivial, trivial⟩, ⟨by decide, trivial⟩, trivial⟩
  have hreversed : Json.ofMembers [("b", .object []),
      ("a", .array [.ofInt 18446744073709551615, .null])] = v := by decide
  refine ⟨hsorted, (hvalues v).1, (hvalues v).2, (hencoded v hsorted v).mpr rfl, ?_,
    (hintegers 18446744073709551615 (by decide)).1⟩
  exact (hencoded v hsorted _).mpr hreversed

end Datum

end RemoteTable
