import RemoteTable.Proofs.Response.Readings

/-!
# Decodes of replies

The members of an object in a cell have no order: every decode lists them in an order of its own, at
every depth. The data that a decode can make of a value are those of `Json.DecodedAs`, and
`Datum.ofJson` makes the one that lists the members as the value does. Of a reply the rows that answer a
read of fields are decoded and nothing else (`Reply.DecodedAs`). Where no object has two members there
is nothing to put in order, and all decodes are the same (`Reply.DecodedAs.eq_of_orderless`).
-/

namespace RemoteTable

namespace Json

/-! ## Values -/

mutual

/-- The data that one decode of a value can make of it. -/
inductive DecodedAs : Json → Datum → Prop
  /-- An absent value. -/
  | null : DecodedAs .null .null
  /-- A truth value. -/
  | boolean (b : Bool) : DecodedAs (.boolean b) (.boolean b)
  /-- A number. -/
  | number (n : Number) : DecodedAs (.number n) (.number n)
  /-- A text. -/
  | string (s : String) : DecodedAs (.string s) (.string s)
  /-- The elements of a sequence keep their places. -/
  | array {items : List Json} {data : List Datum} (h : ItemsDecodedAs items data) :
      DecodedAs (.array items) (.array data)
  /-- The members of an object are listed in any order. -/
  | object {members : List (String × Json)} {decoded listed : List (String × Datum)}
      (h : MembersDecodedAs members decoded) (order : listed.Perm decoded) :
      DecodedAs (.object members) (.object listed)

/-- The data that one decode can make of the elements of a sequence. -/
inductive ItemsDecodedAs : List Json → List Datum → Prop
  /-- No elements are no data. -/
  | nil : ItemsDecodedAs [] []
  /-- Every element is decoded for itself. -/
  | cons {item : Json} {items : List Json} {d : Datum} {data : List Datum}
      (first : DecodedAs item d) (rest : ItemsDecodedAs items data) :
      ItemsDecodedAs (item :: items) (d :: data)

/-- The named data that one decode can make of the members of an object. -/
inductive MembersDecodedAs : List (String × Json) → List (String × Datum) → Prop
  /-- No members are no named data. -/
  | nil : MembersDecodedAs [] []
  /-- Every member keeps its name. -/
  | cons {name : String} {value : Json} {members : List (String × Json)} {d : Datum}
      {decoded : List (String × Datum)} (first : DecodedAs value d)
      (rest : MembersDecodedAs members decoded) :
      MembersDecodedAs ((name, value) :: members) ((name, d) :: decoded)

end

mutual

/-- The data that list the members of all objects as the value does are those of a decode. -/
theorem decodedAs_ofJson : ∀ v : Json, v.DecodedAs (.ofJson v)
  | .null => .null
  | .boolean b => .boolean b
  | .number n => .number n
  | .string s => .string s
  | .array items => .array (itemsDecodedAs_ofItems items)
  | .object members => .object (membersDecodedAs_ofMembers members) (.refl _)

theorem itemsDecodedAs_ofItems : ∀ items : List Json, ItemsDecodedAs items (Datum.ofItems items)
  | [] => .nil
  | item :: items => .cons (decodedAs_ofJson item) (itemsDecodedAs_ofItems items)

theorem membersDecodedAs_ofMembers :
    ∀ members : List (String × Json), MembersDecodedAs members (Datum.ofMembers members)
  | [] => .nil
  | (_, value) :: members => .cons (decodedAs_ofJson value) (membersDecodedAs_ofMembers members)

end

/-! ## Values without an order -/

mutual

/-- No object inside has two members or more, which could be listed in one order or another. -/
def Orderless : Json → Prop
  | null | boolean _ | number _ | string _ => True
  | array items => OrderlessItems items
  | object members => members.length ≤ 1 ∧ OrderlessValues members

/-- No object inside the sequence has two members or more. -/
def OrderlessItems : List Json → Prop
  | [] => True
  | item :: items => Orderless item ∧ OrderlessItems items

/-- No object inside the members' values has two members or more. -/
def OrderlessValues : List (String × Json) → Prop
  | [] => True
  | (_, value) :: rest => Orderless value ∧ OrderlessValues rest

end

mutual

/-- What cannot be listed in two orders is decoded in one way. -/
theorem DecodedAs.eq_ofJson :
    ∀ {v : Json} {d : Datum}, v.DecodedAs d → v.Orderless → d = .ofJson v
  | .null, _, .null, _ => rfl
  | .boolean _, _, .boolean _, _ => rfl
  | .number _, _, .number _, _ => rfl
  | .string _, _, .string _, _ => rfl
  | .array _, _, .array h, hitems => by rw [h.eq_ofItems hitems, Datum.ofJson]
  | .object members, _, .object h order, ⟨hlength, hvalues⟩ => by
    rw [h.eq_ofMembers hvalues] at order
    rw [Datum.ofJson]
    match members, hlength, order with
    | [], _, order => rw [List.perm_nil.mp order, Datum.ofMembers]
    | [(_, _)], _, order => rw [List.perm_singleton.mp order, Datum.ofMembers, Datum.ofMembers]

theorem ItemsDecodedAs.eq_ofItems :
    ∀ {items : List Json} {data : List Datum}, ItemsDecodedAs items data → OrderlessItems items →
      data = Datum.ofItems items
  | [], _, .nil, _ => rfl
  | _ :: _, _, .cons first rest, ⟨hitem, hitems⟩ => by
    rw [first.eq_ofJson hitem, rest.eq_ofItems hitems, Datum.ofItems]

theorem MembersDecodedAs.eq_ofMembers :
    ∀ {members : List (String × Json)} {decoded : List (String × Datum)},
      MembersDecodedAs members decoded → OrderlessValues members → decoded = Datum.ofMembers members
  | [], _, .nil, _ => rfl
  | _ :: _, _, .cons first rest, ⟨hvalue, hvalues⟩ => by
    rw [first.eq_ofJson hvalue, rest.eq_ofMembers hvalues, Datum.ofMembers]

end

end Json

/-! ## Replies -/

namespace Reply

/-- The replies as which one decode can leave a reply to a request. -/
inductive DecodedAs (request : Request) : Reply → Reply → Prop
  /-- Nothing is decoded: identifiers, and the texts of failures, are those of the reply itself. -/
  | asIs (reply : Reply) : DecodedAs request reply reply
  /-- The rows that answer a read of fields are decoded, and from now on these rows are what is read
  (`Response.rows_eq_ok_iff`). -/
  | rows {response : Response} {lines : List (List Json)} {rows : List (List Datum)}
      (hmethod : request.method = "get_in_id") (hsuccess : response.isSuccess = true)
      (hdata : response.data = .array (lines.map .array))
      (hrows : List.Forall₂ Json.ItemsDecodedAs lines rows) :
    DecodedAs request (.ok response)
      (.ok { response with data := .array (rows.map fun row => .array (Datum.toItems row)) })

end Reply

end RemoteTable
